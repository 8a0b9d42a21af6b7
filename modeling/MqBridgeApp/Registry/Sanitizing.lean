import MqBridgeApp.Registry.Status

/-!
# What scrubbing leaves

The words are looked for before control characters are removed, so a control character inside a word
hides it from the check and is gone afterwards.
-/

namespace MqBridge.Registry
open Text

def StatusEntity.labels (entity : StatusEntity) : List Text := [entity.id, entity.label]

def StatusRoute.entities (route : StatusRoute) : List StatusEntity := [route.input, route.output]

def InstanceStatus.entities (status : InstanceStatus) : List StatusEntity :=
  status.consumers ++ status.publishers ++ status.routes.flatMap StatusRoute.entities

def InstanceStatus.labels (status : InstanceStatus) : List Text :=
  status.entities.flatMap StatusEntity.labels ++ status.routes.flatMap fun route => [route.id, route.label]

/-- Scrubbing is over, and leaves no word and only connector names. -/
structure InstanceStatus.Clean (status : InstanceStatus) : Prop where
  fixed : status.sanitized.sanitized = status.sanitized
  labels : ∀ label ∈ status.sanitized.labels, isSensitive label = false
  endpoints : ∀ entity ∈ status.sanitized.entities, ∀ c ∈ entity.endpoint, isEndpointChar c = true

/-- The value has one of the words only once it is cut and control characters are removed. -/
def HidesWord (value : Text) : Prop := isSensitive value = false ∧ isSensitive (sanitizeText value) = true

theorem sanitizeText_idempotent (value : Text) : sanitizeText (sanitizeText value) = sanitizeText value := by
  have plain : (sanitizeText value).filter (fun c => !isControl c) = sanitizeText value := by
    rw [List.filter_eq_self]
    intro c member
    exact (List.mem_filter.mp (List.mem_of_mem_take member)).2
  have short : (sanitizeText value).length ≤ maxTextChars := List.length_take_le _ _
  rw [sanitizeText, plain, List.take_of_length_le short]

theorem redacted_plain : isSensitive "redacted" = false := by decide

theorem sanitizeLabel_sensitive (value : Text) : isSensitive (sanitizeLabel value) = true ↔ HidesWord value := by
  unfold sanitizeLabel HidesWord
  cases sensitive : isSensitive value with
  | true =>
    rw [if_pos rfl, redacted_plain]
    simp
  | false =>
    rw [if_neg (by decide)]
    simp

theorem sanitizeLabel_fixed_iff (value : Text) :
    sanitizeLabel (sanitizeLabel value) = sanitizeLabel value ↔ ¬HidesWord value := by
  rw [← sanitizeLabel_sensitive, Bool.not_eq_true]
  constructor
  · intro fixed
    by_contra hidden
    rw [Bool.not_eq_false] at hidden
    rw [sanitizeLabel, if_pos hidden] at fixed
    rw [← fixed, redacted_plain] at hidden
    cases hidden
  · intro plain
    rw [sanitizeLabel, plain, if_neg (by decide)]
    unfold sanitizeLabel
    split
    · decide
    · exact sanitizeText_idempotent value

theorem endpointChar_not_blank {c : Char} (endpoint : isEndpointChar c = true) : isWhitespace c = false := by
  simp only [isEndpointChar, Bool.or_eq_true, isAlphanum_iff, beq_iff_eq] at endpoint
  have bounds : 45 ≤ c.toNat ∧ c.toNat ≤ 122 := by
    rcases endpoint with (letter | rfl) | rfl
    · omega
    · decide
    · decide
  exact isWhitespace_visible (by omega) (by omega)

theorem sanitizeEndpoint_chars (value : Text) : ∀ c ∈ sanitizeEndpoint value, isEndpointChar c = true := by
  unfold sanitizeEndpoint
  dsimp only
  split
  · next all =>
    intro c member
    exact List.all_eq_true.mp all c (List.mem_of_mem_take member)
  · exact List.all_eq_true.mp (by decide)

theorem sanitizeEndpoint_lower (value : Text) :
    toAsciiLowercase (sanitizeEndpoint value) = sanitizeEndpoint value := by
  unfold sanitizeEndpoint
  dsimp only
  split
  · have cut := congrArg (List.take 64) (toAsciiLowercase_idempotent (trim value))
    rw [toAsciiLowercase, ← List.map_take] at cut
    exact cut
  · decide

theorem sanitizeEndpoint_length (value : Text) : (sanitizeEndpoint value).length ≤ 64 := by
  unfold sanitizeEndpoint
  dsimp only
  split
  · exact List.length_take_le _ _
  · decide

theorem sanitizeEndpoint_idempotent (value : Text) : sanitizeEndpoint (sanitizeEndpoint value) = sanitizeEndpoint value := by
  have chars := sanitizeEndpoint_chars value
  have trimmed : trim (sanitizeEndpoint value) = sanitizeEndpoint value :=
    trim_of_plain fun c member => endpointChar_not_blank (chars c member)
  rw [sanitizeEndpoint, trimmed, sanitizeEndpoint_lower, if_pos (List.all_eq_true.mpr chars)]
  exact List.take_of_length_le (sanitizeEndpoint_length value)

theorem sanitizeSummary_idempotent (summary : StatusSummary) :
    sanitizeSummary (sanitizeSummary summary) = sanitizeSummary summary := by
  have zero : (if !F64.zero.isFinite || F64.zero.isNegative then F64.zero else F64.zero) = F64.zero := ite_self _
  unfold sanitizeSummary
  rw [Option.map_map]
  congr 1
  by_cases scrubbed : (!summary.throughput.isFinite || summary.throughput.isNegative) = true
  · rw [if_pos scrubbed, zero]
  · rw [if_neg scrubbed, if_neg scrubbed]

theorem sanitizeEntity_fixed {entity : StatusEntity} (plain : ∀ label ∈ entity.labels, ¬HidesWord label) :
    sanitizeEntity (sanitizeEntity entity) = sanitizeEntity entity := by
  have id := (sanitizeLabel_fixed_iff entity.id).mpr (plain _ (by simp [StatusEntity.labels]))
  have label := (sanitizeLabel_fixed_iff entity.label).mpr (plain _ (by simp [StatusEntity.labels]))
  simp only [sanitizeEntity, id, label, sanitizeEndpoint_idempotent, sanitizeSummary_idempotent]

theorem sanitized_entities (status : InstanceStatus) :
    status.sanitized.entities = status.entities.map sanitizeEntity := by
  have routes : (status.routes.map sanitizeRoute).flatMap StatusRoute.entities =
      (status.routes.flatMap StatusRoute.entities).map sanitizeEntity := by
    rw [List.flatMap_map, List.map_flatMap]
    rfl
  unfold InstanceStatus.entities
  rw [List.map_append, List.map_append, ← routes]
  rfl

theorem sanitized_labels (status : InstanceStatus) :
    status.sanitized.labels = status.labels.map sanitizeLabel := by
  have entities : (status.entities.map sanitizeEntity).flatMap StatusEntity.labels =
      (status.entities.flatMap StatusEntity.labels).map sanitizeLabel := by
    rw [List.flatMap_map, List.map_flatMap]
    rfl
  have routes : (status.routes.map sanitizeRoute).flatMap (fun route => [route.id, route.label]) =
      (status.routes.flatMap fun route => [route.id, route.label]).map sanitizeLabel := by
    rw [List.flatMap_map, List.map_flatMap]
    rfl
  unfold InstanceStatus.labels
  rw [sanitized_entities, entities, List.map_append, ← routes]
  rfl

theorem sanitized_fixed {status : InstanceStatus}
    (plain : ∀ label ∈ status.workspaceLabel :: status.labels, ¬HidesWord label) :
    status.sanitized.sanitized = status.sanitized := by
  have workspace := (sanitizeLabel_fixed_iff _).mpr (plain _ List.mem_cons_self)
  have entity : ∀ entity ∈ status.entities, sanitizeEntity (sanitizeEntity entity) = sanitizeEntity entity := by
    intro entity inside
    apply sanitizeEntity_fixed
    intro label member
    apply plain label (List.mem_cons_of_mem _ _)
    exact List.mem_append_left _ (List.mem_flatMap.mpr ⟨entity, inside, member⟩)
  have route : ∀ route ∈ status.routes, sanitizeRoute (sanitizeRoute route) = sanitizeRoute route := by
    intro route inside
    have own : ∀ label ∈ [route.id, route.label], ¬HidesWord label := by
      intro label member
      apply plain label (List.mem_cons_of_mem _ _)
      exact List.mem_append_right _ (List.mem_flatMap.mpr ⟨route, inside, member⟩)
    have there : ∀ entity ∈ route.entities, entity ∈ status.entities := fun entity member =>
      List.mem_append_right _ (List.mem_flatMap.mpr ⟨route, inside, member⟩)
    have id := (sanitizeLabel_fixed_iff _).mpr (own route.id (by simp))
    have label := (sanitizeLabel_fixed_iff _).mpr (own route.label (by simp))
    have input := entity _ (there route.input (by simp [StatusRoute.entities]))
    have output := entity _ (there route.output (by simp [StatusRoute.entities]))
    simp only [sanitizeRoute, id, label, input, output, sanitizeSummary_idempotent]
  have consumers : ∀ consumer ∈ status.consumers, sanitizeEntity (sanitizeEntity consumer) = sanitizeEntity consumer :=
    fun consumer member => entity consumer (List.mem_append_left _ (List.mem_append_left _ member))
  have publishers : ∀ publisher ∈ status.publishers, sanitizeEntity (sanitizeEntity publisher) = sanitizeEntity publisher :=
    fun publisher member => entity publisher (List.mem_append_left _ (List.mem_append_right _ member))
  unfold InstanceStatus.sanitized
  simp only [sanitizeText_idempotent, workspace, List.map_map]
  congr 1
  · exact List.map_congr_left consumers
  · exact List.map_congr_left publishers
  · exact List.map_congr_left route

/-- Scrubbing does all it is for exactly when no label hides a word. -/
theorem sanitized_clean_iff (status : InstanceStatus) :
    status.Clean ↔ ∀ label ∈ status.workspaceLabel :: status.labels, ¬HidesWord label := by
  constructor
  · intro clean label member
    rcases List.mem_cons.mp member with rfl | inside
    · exact (sanitizeLabel_fixed_iff _).mp (congrArg InstanceStatus.workspaceLabel clean.fixed)
    · have plain := clean.labels (sanitizeLabel label) (by
        rw [sanitized_labels]
        exact List.mem_map_of_mem inside)
      rw [← sanitizeLabel_sensitive, plain]
      decide
  · intro plain
    refine ⟨sanitized_fixed plain, ?_, ?_⟩
    · rw [sanitized_labels]
      intro label member
      obtain ⟨original, inside, rfl⟩ := List.mem_map.mp member
      have shown := plain original (List.mem_cons_of_mem _ inside)
      rw [← sanitizeLabel_sensitive, Bool.not_eq_true] at shown
      exact shown
    · rw [sanitized_entities]
      intro entity member
      obtain ⟨original, -, rfl⟩ := List.mem_map.mp member
      exact sanitizeEndpoint_chars original.endpoint

/-- A record of a consumer whose name has a control character in it. -/
def splitWordStatus : InstanceStatus where
  schemaVersion := statusSchemaVersion
  instanceId := "a"
  pid := 1
  kind := .cli
  applicationVersion := "1"
  startedAtMs := 0
  lastSeenAtMs := 0
  workspaceId := "w"
  workspaceLabel := "config"
  consumers := [{ id := "c1", label := "pass\x01word=hunter2", endpoint := "kafka" }]

/-- Scrubbing puts the word together, and scrubbing again changes the record. -/
theorem split_word_is_joined :
    splitWordStatus.sanitized.labels = ["c1", "password=hunter2"] ∧
      splitWordStatus.sanitized.sanitized.labels = ["c1", "redacted"] ∧ ¬splitWordStatus.Clean := by
  have labels : splitWordStatus.sanitized.labels = ["c1", "password=hunter2"] := by decide
  refine ⟨labels, by decide, ?_⟩
  intro clean
  have plain := clean.labels "password=hunter2" (by rw [labels]; simp)
  revert plain
  decide

end MqBridge.Registry
