import MqBridgeApp.Workspace.Entities
import MqBridgeApp.Lib.Steps

/-!
# Form drafts

What a form gives is kept as a draft until the entity is saved, under the position of the entity in its
list. An editor that keeps drafts under the ids of their entities says what is meant, and the two agree
as long as no entity is deleted below a draft.
-/

namespace MqBridge.Workspace
open Text

inductive EntityKind where
  | publisher
  | consumer

def idOf (entity : Record) : Option Json := entity.prop "id"

/-- A record with some of its fields taken from another one. -/
def keepFields (fields : List Text) (own record : Record) : Record :=
  fields.foldl (fun kept key => kept.put key (own.prop key)) record

/-- What the form of a consumer does not change. -/
def unformedFields : List Text := ["output", "message_capture", "response"]

section
variable (forms : Forms)

def EntityKind.normalize : EntityKind → Record → Record
  | .publisher => normalizePublisher forms
  | .consumer => normalizeConsumerConfig forms

def EntityKind.applyForm (kind : EntityKind) (current updated : Record) : Record :=
  match kind with
  | .publisher => current.spread (normalizePublisher forms (current.spread updated))
  | .consumer =>
    current.spread (keepFields unformedFields current (normalizeConsumerConfig forms (current.spread updated)))

/-- An entity as it is saved with a draft. -/
def EntityKind.withDraft (kind : EntityKind) (rows : Json) (entity draft : Record) : Record :=
  match kind with
  | .publisher =>
    let next := normalizePublisher forms (entity.spread draft)
    (next.put "payload" (entity.prop "payload")).assign "headers" rows
  | .consumer =>
    let normalizedDraft := keepFields unformedFields entity (normalizeConsumerConfig forms (entity.spread draft))
    normalizedDraft.put "endpoint" (settleScalarEndpoint (normalizedDraft.prop "endpoint"))

/-- An endpoint as it is saved: the value of a consumer's `static` or `ref` endpoint is a text. -/
def EntityKind.settled : EntityKind → Option Json → Option Json
  | .publisher => id
  | .consumer => settleScalarEndpoint

def EntityKind.exported (kind : EntityKind) (entity : Record) (draft : Option Record) : Record :=
  match kind with
  | .publisher =>
    match draft with
    | some draft => normalizePublisher forms (entity.spread draft)
    | none => entity
  | .consumer =>
    let exportConsumer :=
      match draft with
      | some draft => normalizeConsumerConfig forms (entity.spread draft)
      | none => entity
    let exportConsumer := exportConsumer.put "output" (entity.prop "output")
    exportConsumer.put "endpoint" (settleScalarEndpoint (exportConsumer.prop "endpoint"))

end

/-! ### The editor -/

/-- What drafts are kept under, and whether a deletion drops the draft of the entity. -/
structure DraftKeys (κ : Type) where
  key : Nat → Record → κ
  dropped : Bool

def byPosition : DraftKeys Nat where
  key index _ := index
  dropped := false

def byEntity : DraftKeys (Option Json) where
  key _ entity := idOf entity
  dropped := true

structure Editor (κ : Type) where
  entities : List Record
  selectedIndex : Nat := 0
  formDrafts : List (κ × Record) := []

inductive EditorAction where
  | select (index : Nat)
  /-- The form gives the fields that it shows. -/
  | formEdit (updated : Record)
  | add (entity : Record)
  | clone (id : Text) (name : Option Text)
  | delete (saved : Option (List Record))
  /-- Saves with what the name field and the header rows hold, and with what is read back. -/
  | save (nameInput : Option Text) (rows : Json) (saved : Option (List Record))
  | exportConfig (nameInput : Option Text)

namespace Editor

section
variable {κ : Type} [BEq κ] (keys : DraftKeys κ) (forms : Forms) (kind : EntityKind) (editor : Editor κ)

/-- The selected entity. For publishers, the first one stands in when none is selected. -/
def current : Option Record :=
  match kind with
  | .publisher => (editor.entities[editor.selectedIndex]?).or editor.entities.head?
  | .consumer => editor.entities[editor.selectedIndex]?

def restore (index : Nat) : Editor κ := { editor with selectedIndex := min index (editor.entities.length - 1) }

def draftOf (entity : Record) : Option Record := editor.formDrafts.lookup (keys.key editor.selectedIndex entity)

def setDraft (entity draft : Record) : Editor κ :=
  { editor with formDrafts := Assoc.insert editor.formDrafts (keys.key editor.selectedIndex entity, draft) }

/-- The name field of a publisher's form makes a draft of what it holds. -/
def flushPendingFormDraft (entity : Record) (nameInput : Option Text) : Editor κ :=
  match kind, nameInput with
  | .publisher, some name =>
    let existingDraft := (editor.draftOf keys entity).getD entity
    editor.setDraft keys entity (existingDraft.assign "name" (.str name))
  | _, _ => editor

def saved (rows : Json) (entity : Record) (nameInput : Option Text) : Record :=
  match (editor.flushPendingFormDraft keys kind entity nameInput).draftOf keys entity with
  | some draft => kind.withDraft forms rows entity draft
  | none => entity

def exported (entity : Record) (nameInput : Option Text) : Record :=
  kind.exported forms entity ((editor.flushPendingFormDraft keys kind entity nameInput).draftOf keys entity)

/-- The list that was read back takes the place of the one that was edited. -/
def takeSaved : Option (List Record) → Editor κ
  | some saved => { editor with entities := saved.map (kind.normalize forms) }
  | none => editor

def push (entity : Record) : Editor κ :=
  { editor with entities := editor.entities ++ [entity] }.restore editor.entities.length

def step : EditorAction → Option (Editor κ)
  | .select index => some (editor.restore index)
  | .formEdit updated =>
    (editor.current kind).map fun entity =>
      -- the id is hidden in the form, which gives back the one it was opened with
      let updated := updated.put "id" (idOf entity)
      { editor.setDraft keys entity updated with
        entities := editor.entities.set editor.selectedIndex (kind.applyForm forms entity updated) }
  | .add entity => some (editor.push (kind.normalize forms entity))
  | .clone id name =>
    (editor.current kind).map fun entity =>
      let cloned := (kind.normalize forms entity).assign "id" (.str id)
      match kind, name with
      | .consumer, some name => editor.push (cloned.assign "name" (.str name))
      | _, _ => editor.push cloned
  | .delete saved =>
    (editor.current kind).map fun entity =>
      let formDrafts :=
        if keys.dropped then Assoc.erase editor.formDrafts (keys.key editor.selectedIndex entity)
        else editor.formDrafts
      let editor := { editor with entities := editor.entities.eraseIdx editor.selectedIndex, formDrafts }
      -- only the list of publishers is saved at once
      let editor :=
        match kind with
        | .publisher => editor.takeSaved forms kind saved
        | .consumer => editor
      editor.restore editor.selectedIndex
  | .save nameInput rows saved =>
    (editor.current kind).map fun entity =>
      let next := editor.saved keys forms kind rows entity nameInput
      let editor := editor.flushPendingFormDraft keys kind entity nameInput
      let editor := { editor with entities := editor.entities.set editor.selectedIndex next }
      (editor.takeSaved forms kind saved).restore editor.selectedIndex
  | .exportConfig nameInput =>
    (editor.current kind).map fun entity => editor.flushPendingFormDraft keys kind entity nameInput

end

end Editor

/-! ### Ids -/

def OwnId (id : Option Json) : Prop := ∃ text, id = some (.str text) ∧ jsTrim text = text ∧ text ≠ []

theorem keepFields_other {fields : List Text} {key : Text} (other : key ∉ fields) (own record : Record) :
    (keepFields fields own record).lookup key = record.lookup key := by
  unfold keepFields
  induction fields generalizing record with
  | nil => rfl
  | cons field rest ih =>
    obtain ⟨here, later⟩ := List.ne_and_not_mem_of_not_mem_cons other
    rw [List.foldl_cons, ih later, Record.lookup_put, if_neg (by simpa using here)]

section
variable {forms : Forms} {kind : EntityKind} {entity draft : Record}

theorem entityId_of_own (forms : Forms) {input : Record} (own : OwnId (idOf input)) :
    some (.str (forms.entityId input)) = idOf input := by
  obtain ⟨text, id, trimmed, full⟩ := own
  have read : input.prop "id" = some (.str text) := id
  unfold Forms.entityId
  rw [id, read, Json.textOr_str, trimmed, if_neg (by simpa using full)]

theorem normalize_id (own : OwnId (idOf entity)) : idOf (kind.normalize forms entity) = idOf entity := by
  rw [← entityId_of_own forms own]
  cases kind with
  | publisher => exact normalizePublisher_id forms entity
  | consumer => exact normalizeConsumerConfig_id forms entity

theorem spread_id (same : idOf draft = idOf entity) : idOf (entity.spread draft) = idOf entity := by
  show (entity.spread draft).lookup _ = _
  rw [Record.lookup_spread]
  show (idOf draft).or (idOf entity) = _
  rw [same, Option.or_self]

theorem spread_normalize_id (forms : Forms) (kind : EntityKind) (own : OwnId (idOf entity))
    (same : idOf draft = idOf entity) :
    idOf (kind.normalize forms (entity.spread draft)) = idOf entity := by
  rw [normalize_id (by rw [spread_id same]; exact own), spread_id same]

theorem applyForm_id (own : OwnId (idOf entity)) (same : idOf draft = idOf entity) :
    idOf (kind.applyForm forms entity draft) = idOf entity := by
  cases kind with
  | publisher =>
    exact spread_id (spread_normalize_id forms .publisher own same)
  | consumer =>
    apply spread_id
    rw [← spread_normalize_id forms .consumer own same]
    exact keepFields_other (by decide) _ _

/-- What is saved has the fields of the normal form, besides the ones that are not the form's. -/
theorem withDraft_other {rows : Json} {key : Text}
    (other : key ∉ ("payload" : Text) :: "headers" :: "endpoint" :: unformedFields) :
    (kind.withDraft forms rows entity draft).lookup key =
      (kind.normalize forms (entity.spread draft)).lookup key := by
  simp only [List.mem_cons, not_or] at other
  obtain ⟨payload, headers, endpoint, unformed⟩ := other
  cases kind with
  | publisher =>
    show ((Record.put _ _ _).assign _ _).lookup _ = _
    rw [Record.lookup_assign, if_neg (by simpa using headers), Record.lookup_put, if_neg (by simpa using payload)]
    rfl
  | consumer =>
    show (Record.put _ _ _).lookup _ = _
    rw [Record.lookup_put, if_neg (by simpa using endpoint)]
    exact keepFields_other (by simpa [unformedFields] using unformed) _ _

theorem withDraft_name {rows : Json} :
    (kind.withDraft forms rows entity draft).prop "name" =
      (kind.normalize forms (entity.spread draft)).prop "name" :=
  withDraft_other (by decide)

theorem withDraft_endpoint {rows : Json} :
    (kind.withDraft forms rows entity draft).prop "endpoint" =
      kind.settled ((kind.normalize forms (entity.spread draft)).prop "endpoint") := by
  cases kind with
  | publisher =>
    show ((Record.put _ _ _).assign _ _).lookup _ = _
    rw [Record.lookup_assign, if_neg (by decide), Record.lookup_put, if_neg (by decide)]
    rfl
  | consumer =>
    show (Record.put _ _ _).lookup _ = settleScalarEndpoint (Record.prop _ _)
    rw [Record.lookup_put, if_pos (by decide)]
    exact congrArg settleScalarEndpoint (keepFields_other (by decide) _ _)

theorem withDraft_id {rows : Json} (own : OwnId (idOf entity)) (same : idOf draft = idOf entity) :
    idOf (kind.withDraft forms rows entity draft) = idOf entity := by
  rw [← spread_normalize_id forms kind own same]
  exact withDraft_other (by decide)

end

/-! ### Positions and ids -/

/-- Drafts under positions and drafts under the ids at these positions are the same, and each is a draft
of its own entity. -/
structure Linked (ids : List (Option Json)) (byIndex : List (Nat × Record)) (byId : List (Option Json × Record)) :
    Prop where
  same : ∀ i, byIndex.lookup i = (ids[i]?).bind fun id => byId.lookup id
  own : ∀ id draft, byId.lookup id = some draft → idOf draft = id ∧ id ∈ ids

namespace Linked

variable {ids : List (Option Json)} {byIndex : List (Nat × Record)} {byId : List (Option Json × Record)}
  {index : Nat} {id : Option Json}

theorem draft (linked : Linked ids byIndex byId) (there : ids[index]? = some id) :
    byIndex.lookup index = byId.lookup id := by
  rw [linked.same, there, Option.bind_some]

theorem insert {draft : Record} (linked : Linked ids byIndex byId) (distinct : ids.Nodup)
    (there : ids[index]? = some id) (sameId : idOf draft = id) :
    Linked ids (Assoc.insert byIndex (index, draft)) (Assoc.insert byId (id, draft)) := by
  constructor
  · intro i
    rw [Assoc.lookup_insert]
    by_cases here : i = index
    · subst here
      simp [there, Assoc.lookup_insert]
    · rw [if_neg (by simpa using here), linked.same]
      refine Option.bind_congr fun other found => ?_
      have apart : other ≠ id := by
        rintro rfl
        exact here ((List.getElem?_inj (List.getElem?_eq_some_iff.mp found).1 distinct).mp (found.trans there.symm))
      rw [Assoc.lookup_insert_other apart]
  · intro other held found
    rw [Assoc.lookup_insert] at found
    split at found
    · rename_i matched
      obtain rfl := Option.some.inj found
      obtain rfl : other = id := by simpa using matched
      exact ⟨sameId, List.mem_of_getElem? there⟩
    · exact linked.own other held found

theorem append (linked : Linked ids byIndex byId) (fresh : id ∉ ids) : Linked (ids ++ [id]) byIndex byId := by
  have absent : byId.lookup id = none := by
    apply Option.eq_none_iff_forall_ne_some.mpr
    intro draft found
    exact fresh (linked.own id draft found).2
  constructor
  · intro i
    rw [linked.same]
    rcases Nat.lt_trichotomy i ids.length with inside | rfl | beyond
    · rw [List.getElem?_append_left inside]
    · simp [absent]
    · rw [List.getElem?_eq_none (by omega), List.getElem?_eq_none (by simp; omega)]
  · intro other draft found
    obtain ⟨sameId, member⟩ := linked.own other draft found
    exact ⟨sameId, List.mem_append_left _ member⟩

/-- Where no draft is held at a position or later, none moves when it is deleted. -/
theorem eraseIdx (linked : Linked ids byIndex byId) (there : ids[index]? = some id)
    (undrafted : ∀ i, index ≤ i → byIndex.lookup i = none) :
    Linked (ids.eraseIdx index) byIndex (Assoc.erase byId id) := by
  have absent : byId.lookup id = none := (linked.draft there).symm.trans (undrafted index (Nat.le_refl index))
  have unchanged : ∀ other, (Assoc.erase byId id).lookup other = byId.lookup other := by
    intro other
    rw [Assoc.lookup_erase]
    split
    · rename_i matched
      obtain rfl : other = id := by simpa using matched
      exact absent.symm
    · rfl
  constructor
  · intro i
    simp only [unchanged, List.getElem?_eraseIdx]
    split
    · exact linked.same i
    · rename_i later
      rw [undrafted i (Nat.le_of_not_lt later), ← linked.same, undrafted (i + 1) (by omega)]
  · intro other draft found
    rw [unchanged] at found
    obtain ⟨sameId, member⟩ := linked.own other draft found
    refine ⟨sameId, ?_⟩
    obtain ⟨i, at_⟩ := List.mem_iff_getElem?.mp member
    apply List.mem_of_getElem? (i := i)
    have before : i < index := by
      by_contra later
      have held : byIndex.lookup i = some draft := (linked.draft at_).trans found
      rw [undrafted i (Nat.le_of_not_lt later)] at held
      cases held
    rw [List.getElem?_eraseIdx_of_lt before]
    exact at_

end Linked

namespace Editor

def under (editor : Editor Nat) (drafts : List (Option Json × Record)) : Editor (Option Json) :=
  { entities := editor.entities, selectedIndex := editor.selectedIndex, formDrafts := drafts }

/-- What holds between an editor and drafts under ids: the ids of the entities are their own and distinct, and
the drafts are the same. -/
structure Agrees (editor : Editor Nat) (drafts : List (Option Json × Record)) : Prop where
  own : ∀ entity ∈ editor.entities, OwnId (idOf entity)
  distinct : (editor.entities.map idOf).Nodup
  linked : Linked (editor.entities.map idOf) editor.formDrafts drafts

/-- The selected position is in the list, or it is the first one of an empty list. -/
def Inside {κ : Type} (editor : Editor κ) : Prop := editor.selectedIndex ≤ editor.entities.length - 1

/-- Added and cloned entities have ids of their own, what is read back has the ids that were saved, and an
entity is deleted only while no draft is held at its position or later. -/
def KeepsPlaces (editor : Editor Nat) : EditorAction → Prop
  | .select _ | .formEdit _ | .exportConfig _ => True
  | .add entity => OwnId (idOf entity) ∧ idOf entity ∉ editor.entities.map idOf
  | .clone id _ => OwnId (some (.str id)) ∧ some (.str id) ∉ editor.entities.map idOf
  | .delete saved =>
    (∀ i, editor.selectedIndex ≤ i → editor.formDrafts.lookup i = none) ∧
      ∀ list ∈ saved, list.map idOf = (editor.entities.eraseIdx editor.selectedIndex).map idOf
  | .save _ _ saved => ∀ list ∈ saved, list.map idOf = editor.entities.map idOf

section
variable {forms : Forms} {kind : EntityKind} {editor : Editor Nat} {drafts : List (Option Json × Record)}
  {entity : Record}

theorem current_there (selected : editor.current kind = some entity) (inside : editor.Inside) :
    editor.entities[editor.selectedIndex]? = some entity := by
  cases kind with
  | consumer => exact selected
  | publisher =>
    cases found : editor.entities[editor.selectedIndex]? with
    | some other => simpa [current, found] using selected
    | none =>
      have beyond := List.getElem?_eq_none_iff.mp found
      unfold Inside at inside
      have empty : editor.entities = [] := List.eq_nil_of_length_eq_zero (by omega)
      simp [current, empty] at selected

theorem id_there (there : editor.entities[editor.selectedIndex]? = some entity) :
    (editor.entities.map idOf)[editor.selectedIndex]? = some (idOf entity) := by
  rw [List.getElem?_map, there, Option.map_some]

theorem Agrees.restore (agrees : editor.Agrees drafts) (index : Nat) : (editor.restore index).Agrees drafts :=
  ⟨agrees.own, agrees.distinct, agrees.linked⟩

theorem restore_inside (editor : Editor Nat) (index : Nat) : (editor.restore index).Inside := by
  apply Nat.min_le_right

theorem Agrees.draftOf (agrees : editor.Agrees drafts)
    (there : editor.entities[editor.selectedIndex]? = some entity) :
    editor.draftOf byPosition entity = (editor.under drafts).draftOf byEntity entity :=
  agrees.linked.draft (id_there there)

theorem Agrees.setDraft (draft : Record) (agrees : editor.Agrees drafts)
    (there : editor.entities[editor.selectedIndex]? = some entity) (sameId : idOf draft = idOf entity) :
    (editor.setDraft byPosition entity draft).Agrees (Assoc.insert drafts (idOf entity, draft)) where
  own := agrees.own
  distinct := agrees.distinct
  linked := agrees.linked.insert agrees.distinct (id_there there) sameId

theorem Agrees.withEntities {entities : List Record} (agrees : editor.Agrees drafts)
    (sameIds : entities.map idOf = editor.entities.map idOf) : { editor with entities }.Agrees drafts where
  own := by
    intro entity member
    have listed : idOf entity ∈ editor.entities.map idOf := by
      rw [← sameIds]
      exact List.mem_map_of_mem member
    obtain ⟨before, known, same⟩ := List.mem_map.mp listed
    rw [← same]
    exact agrees.own before known
  distinct := by rw [sameIds]; exact agrees.distinct
  linked := by rw [sameIds]; exact agrees.linked

theorem set_ids {next : Record} (there : editor.entities[editor.selectedIndex]? = some entity)
    (sameId : idOf next = idOf entity) :
    (editor.entities.set editor.selectedIndex next).map idOf = editor.entities.map idOf := by
  obtain ⟨bound, same⟩ := List.getElem?_eq_some_iff.mp (id_there there)
  rw [List.map_set, sameId, ← same]
  exact List.set_getElem_self bound

theorem Agrees.setEntity {next : Record} (agrees : editor.Agrees drafts)
    (there : editor.entities[editor.selectedIndex]? = some entity) (sameId : idOf next = idOf entity) :
    { editor with entities := editor.entities.set editor.selectedIndex next }.Agrees drafts :=
  agrees.withEntities (set_ids there sameId)

theorem normalize_ids {entities : List Record} (own : ∀ entity ∈ entities, OwnId (idOf entity)) :
    (entities.map (kind.normalize forms)).map idOf = entities.map idOf := by
  rw [List.map_map]
  exact List.map_congr_left fun entity member => normalize_id (own entity member)

theorem Agrees.takeSaved (kind : EntityKind) {saved : Option (List Record)} (agrees : editor.Agrees drafts)
    (sameIds : ∀ list ∈ saved, list.map idOf = editor.entities.map idOf) :
    (editor.takeSaved forms kind saved).Agrees drafts := by
  cases saved with
  | none => exact agrees
  | some list =>
    have read := agrees.withEntities (sameIds list rfl)
    apply agrees.withEntities
    rw [normalize_ids read.own]
    exact sameIds list rfl

theorem Agrees.push (agrees : editor.Agrees drafts) (own : OwnId (idOf entity))
    (fresh : idOf entity ∉ editor.entities.map idOf) : (editor.push entity).Agrees drafts := by
  apply Agrees.restore
  constructor
  · intro other member
    rcases List.mem_append.mp member with old | new
    · exact agrees.own other old
    · rw [List.mem_singleton.mp new]
      exact own
  · rw [List.map_append]
    apply agrees.distinct.append (by simp)
    simpa using fresh
  · rw [List.map_append]
    exact agrees.linked.append fresh

/-! ### Steps -/

theorem Agrees.flush (kind : EntityKind) (agrees : editor.Agrees drafts)
    (there : editor.entities[editor.selectedIndex]? = some entity) (nameInput : Option Text) : ∃ flushed,
      (editor.under drafts).flushPendingFormDraft byEntity kind entity nameInput =
          (editor.flushPendingFormDraft byPosition kind entity nameInput).under flushed ∧
        (editor.flushPendingFormDraft byPosition kind entity nameInput).Agrees flushed := by
  cases kind with
  | consumer => exact ⟨drafts, rfl, agrees⟩
  | publisher =>
    cases nameInput with
    | none => exact ⟨drafts, rfl, agrees⟩
    | some name =>
      have same := agrees.draftOf there
      refine ⟨_, ?_, agrees.setDraft
        (((editor.draftOf byPosition entity).getD entity).assign "name" (.str name)) there ?_⟩
      · simp only [flushPendingFormDraft, ← same]
        rfl
      · show (Record.assign _ _ _).lookup _ = _
        rw [Record.lookup_assign, if_neg (by decide)]
        cases held : editor.draftOf byPosition entity with
        | none => rfl
        | some draft => exact (agrees.linked.own _ _ (same.symm.trans held)).1

theorem flush_there (there : editor.entities[editor.selectedIndex]? = some entity) (nameInput : Option Text) :
    (editor.flushPendingFormDraft byPosition kind entity nameInput).entities[
      (editor.flushPendingFormDraft byPosition kind entity nameInput).selectedIndex]? = some entity := by
  cases kind <;> cases nameInput <;> exact there

theorem Agrees.saved (agrees : editor.Agrees drafts) (there : editor.entities[editor.selectedIndex]? = some entity)
    (nameInput : Option Text) (rows : Json) :
    editor.saved byPosition forms kind rows entity nameInput =
      (editor.under drafts).saved byEntity forms kind rows entity nameInput := by
  obtain ⟨flushed, same, agreesFlushed⟩ := agrees.flush kind there nameInput
  unfold Editor.saved
  rw [same, agreesFlushed.draftOf (flush_there there nameInput)]

theorem Agrees.exported (agrees : editor.Agrees drafts)
    (there : editor.entities[editor.selectedIndex]? = some entity) (nameInput : Option Text) :
    editor.exported byPosition forms kind entity nameInput =
      (editor.under drafts).exported byEntity forms kind entity nameInput := by
  obtain ⟨flushed, same, agreesFlushed⟩ := agrees.flush kind there nameInput
  unfold Editor.exported
  rw [same, agreesFlushed.draftOf (flush_there there nameInput)]

theorem Agrees.saved_id (forms : Forms) (kind : EntityKind) (agrees : editor.Agrees drafts)
    (there : editor.entities[editor.selectedIndex]? = some entity) (nameInput : Option Text) (rows : Json) :
    idOf (editor.saved byPosition forms kind rows entity nameInput) = idOf entity := by
  obtain ⟨flushed, -, agreesFlushed⟩ := agrees.flush kind there nameInput
  unfold Editor.saved
  rw [agreesFlushed.draftOf (flush_there there nameInput)]
  split
  · rename_i draft held
    exact withDraft_id (agrees.own entity (List.mem_of_getElem? there)) (agreesFlushed.linked.own _ _ held).1
  · rfl

theorem current_under : (editor.under drafts).current kind = editor.current kind := rfl

theorem Agrees.eraseSelected (agrees : editor.Agrees drafts)
    (there : editor.entities[editor.selectedIndex]? = some entity)
    (undrafted : ∀ i, editor.selectedIndex ≤ i → editor.formDrafts.lookup i = none) :
    { editor with entities := editor.entities.eraseIdx editor.selectedIndex }.Agrees
      (Assoc.erase drafts (idOf entity)) where
  own other member := agrees.own other (List.mem_of_mem_eraseIdx member)
  distinct := by
    rw [← List.eraseIdx_map]
    exact agrees.distinct.eraseIdx _
  linked := by
    rw [← List.eraseIdx_map]
    exact agrees.linked.eraseIdx (id_there there) undrafted

/-- A step that keeps places is the same step with drafts under ids. -/
theorem Agrees.step {action : EditorAction} {next : Editor Nat} (agrees : editor.Agrees drafts)
    (inside : editor.Inside) (keeps : editor.KeepsPlaces action)
    (stepped : editor.step byPosition forms kind action = some next) :
    ∃ nextDrafts, (editor.under drafts).step byEntity forms kind action = some (next.under nextDrafts) ∧
      next.Agrees nextDrafts ∧ next.Inside := by
  cases action with
  | select index =>
    obtain rfl := Option.some.inj stepped
    exact ⟨drafts, rfl, agrees.restore index, editor.restore_inside index⟩
  | formEdit updated =>
    obtain ⟨entity, selected, rfl⟩ := Option.map_eq_some_iff.mp stepped
    have there := current_there selected inside
    have own := agrees.own entity (List.mem_of_getElem? there)
    have sameId : idOf (updated.put "id" (idOf entity)) = idOf entity := Record.lookup_put ..
    have drafted := agrees.setDraft _ there sameId
    refine ⟨Assoc.insert drafts (idOf entity, updated.put "id" (idOf entity)), ?_,
      drafted.setEntity there (applyForm_id own sameId), ?_⟩
    · simp only [Editor.step, current_under, selected, Option.map_some]
      rfl
    · simpa [Inside, Editor.setDraft] using inside
  | add entity =>
    obtain rfl := Option.some.inj stepped
    refine ⟨drafts, rfl, agrees.push ?_ ?_, restore_inside _ _⟩
    · rw [normalize_id keeps.1]
      exact keeps.1
    · rw [normalize_id keeps.1]
      exact keeps.2
  | clone id name =>
    obtain ⟨entity, selected, rfl⟩ := Option.map_eq_some_iff.mp stepped
    have pushed : ∀ cloned, idOf cloned = some (.str id) →
        (editor.push cloned).Agrees drafts ∧ (editor.push cloned).Inside := by
      intro cloned sameId
      refine ⟨?_, restore_inside _ _⟩
      apply agrees.push <;> rw [sameId]
      · exact keeps.1
      · exact keeps.2
    have cloned : idOf ((kind.normalize forms entity).assign "id" (.str id)) = some (.str id) := by
      simp [idOf]
    refine ⟨drafts, ?_, ?_⟩
    · simp only [Editor.step, current_under, selected, Option.map_some]
      cases kind <;> cases name <;> rfl
    · cases kind with
      | publisher => exact pushed _ cloned
      | consumer =>
        cases name with
        | none => exact pushed _ cloned
        | some name =>
          apply pushed
          show (Record.assign _ _ _).lookup _ = _
          rw [Record.lookup_assign, if_neg (by decide)]
          exact cloned
  | delete saved =>
    obtain ⟨entity, selected, rfl⟩ := Option.map_eq_some_iff.mp stepped
    have there := current_there selected inside
    have erased := agrees.eraseSelected there keeps.1
    refine ⟨Assoc.erase drafts (idOf entity), ?_, ?_, restore_inside _ _⟩
    · simp only [Editor.step, current_under, selected, Option.map_some]
      cases kind <;> cases saved <;> rfl
    · cases kind with
      | publisher => exact (erased.takeSaved .publisher keeps.2).restore _
      | consumer => exact erased.restore _
  | save nameInput rows saved =>
    obtain ⟨entity, selected, rfl⟩ := Option.map_eq_some_iff.mp stepped
    have there := current_there selected inside
    obtain ⟨flushed, same, agreesFlushed⟩ := agrees.flush kind there nameInput
    have sameId := agrees.saved_id forms kind there nameInput rows
    have stored := agreesFlushed.setEntity (flush_there there nameInput) sameId
    refine ⟨flushed, ?_, ?_, restore_inside _ _⟩
    · simp only [Editor.step, current_under, selected, Option.map_some, same, ← agrees.saved there]
      cases saved <;> rfl
    · apply Agrees.restore
      apply stored.takeSaved
      intro list read
      rw [keeps list read]
      cases kind <;> cases nameInput <;> exact (set_ids there sameId).symm
  | exportConfig nameInput =>
    obtain ⟨entity, selected, rfl⟩ := Option.map_eq_some_iff.mp stepped
    have there := current_there selected inside
    obtain ⟨flushed, same, agreesFlushed⟩ := agrees.flush kind there nameInput
    refine ⟨flushed, ?_, agreesFlushed, ?_⟩
    · simp only [Editor.step, current_under, selected, Option.map_some, same]
    · cases kind <;> cases nameInput <;> exact inside

end

section
variable (forms : Forms) (kind : EntityKind)

def opened {κ : Type} (stored : List Record) : Editor κ := { entities := stored.map (kind.normalize forms) }

/-- An entity as it is saved, when this is by its own draft. -/
structure LastEdited (entity saved : Record) (draft : Option Record) : Prop where
  id : idOf saved = idOf entity
  name : saved.prop "name" =
    draft.elim (entity.prop "name") fun draft => (kind.normalize forms (entity.spread draft)).prop "name"
  endpoint : saved.prop "endpoint" =
    draft.elim (entity.prop "endpoint") fun draft =>
      kind.settled ((kind.normalize forms (entity.spread draft)).prop "endpoint")

variable {forms kind}

theorem opened_agrees {stored : List Record} (own : ∀ entity ∈ stored, OwnId (idOf entity))
    (distinct : (stored.map idOf).Nodup) : (opened forms kind stored : Editor Nat).Agrees [] where
  own entity member := by
    obtain ⟨before, known, rfl⟩ := List.mem_map.mp member
    rw [normalize_id (own before known)]
    exact own before known
  distinct := by
    rw [opened, normalize_ids own]
    exact distinct
  linked := by
    constructor
    · intro i
      cases ((opened forms kind stored : Editor Nat).entities.map idOf)[i]? <;> rfl
    · intro id draft found
      cases found

theorem Agrees.saved_lastEdited {editor : Editor Nat} {drafts : List (Option Json × Record)} {entity : Record}
    (agrees : editor.Agrees drafts) (there : editor.entities[editor.selectedIndex]? = some entity)
    (nameInput : Option Text) (rows : Json) :
    LastEdited forms kind entity (editor.saved byPosition forms kind rows entity nameInput)
      (((editor.under drafts).flushPendingFormDraft byEntity kind entity nameInput).draftOf byEntity entity) := by
  have sameId := agrees.saved_id forms kind there nameInput rows
  rw [agrees.saved there] at sameId ⊢
  refine ⟨sameId, ?_, ?_⟩ <;> unfold Editor.saved
  · split <;> rename_i held <;> rw [held]
    · exact withDraft_name
    · rfl
  · split <;> rename_i held <;> rw [held]
    · exact withDraft_endpoint
    · rfl

/-- The editor with drafts under ids that goes along with an editor. -/
def Meant (editor : Editor Nat) (meant : Editor (Option Json)) : Prop :=
  ∃ drafts, meant = editor.under drafts ∧ editor.Agrees drafts ∧ editor.Inside

theorem Meant.step {editor next : Editor Nat} {meant : Editor (Option Json)} {action : EditorAction}
    (before : editor.Meant meant) (keeps : editor.KeepsPlaces action)
    (stepped : editor.step byPosition forms kind action = some next) :
    ∃ meantNext, meant.step byEntity forms kind action = some meantNext ∧ next.Meant meantNext := by
  obtain ⟨drafts, rfl, agrees, inside⟩ := before
  obtain ⟨nextDrafts, meantStepped, agreesNext, insideNext⟩ := agrees.step inside keeps stepped
  exact ⟨_, meantStepped, nextDrafts, rfl, agreesNext, insideNext⟩

/-- When every added entity has an id of its own, what is read back has the ids that were saved, and no entity
is deleted while a draft is held at its position or later, the same is saved and exported as with drafts under
ids: the id, the name and the endpoint are those that the entity was last given. -/
theorem saved_with_own_draft (forms : Forms) (kind : EntityKind) (stored : List Record) (actions : List EditorAction)
    {after : Editor Nat} (own : ∀ entity ∈ stored, OwnId (idOf entity)) (distinct : (stored.map idOf).Nodup)
    (keeps : Steps.Careful (step byPosition forms kind) KeepsPlaces (opened forms kind stored) actions)
    (played : Steps.play (step byPosition forms kind) (opened forms kind stored) actions = some after) :
    ∃ drafts, Steps.play (step byEntity forms kind) (opened forms kind stored) actions =
        some (after.under drafts) ∧
      ∀ entity, after.current kind = some entity → ∀ nameInput rows,
        LastEdited forms kind entity (after.saved byPosition forms kind rows entity nameInput)
          (((after.under drafts).flushPendingFormDraft byEntity kind entity nameInput).draftOf byEntity entity) ∧
        after.saved byPosition forms kind rows entity nameInput =
          (after.under drafts).saved byEntity forms kind rows entity nameInput ∧
        after.exported byPosition forms kind entity nameInput =
          (after.under drafts).exported byEntity forms kind entity nameInput := by
  have start : Meant (opened forms kind stored) (opened forms kind stored) :=
    ⟨[], rfl, opened_agrees own distinct, Nat.zero_le _⟩
  obtain ⟨meant, meantPlayed, drafts, rfl, agrees, inside⟩ := Steps.play_simulation Meant.step start keeps played
  refine ⟨drafts, meantPlayed, ?_⟩
  intro entity selected nameInput rows
  have there := current_there selected inside
  exact ⟨agrees.saved_lastEdited there nameInput rows, agrees.saved there nameInput rows,
    agrees.exported there nameInput⟩

end

end Editor

def auditRecord : Record := [("id", .str "p1"), ("name", .str "audit"), ("endpoint", .obj [("memory", .obj [])])]

def mirrorRecord : Record := [("id", .str "p2"), ("name", .str "mirror"), ("endpoint", .obj [("http", .obj [])])]

namespace Editor

/-- The second publisher is deleted while only the first one has a draft. -/
theorem saved_with_own_draft_renamed :
    ∃ after drafts, Steps.play (step byEntity plainForms .publisher)
        (opened plainForms .publisher [auditRecord, mirrorRecord])
        [.formEdit [("name", .str "audit log")], .select 1, .delete (some [auditRecord])] =
          some (under after drafts) ∧
      ∀ entity, after.current .publisher = some entity → ∀ nameInput rows,
        LastEdited plainForms .publisher entity (after.saved byPosition plainForms .publisher rows entity nameInput)
          (((after.under drafts).flushPendingFormDraft byEntity .publisher entity nameInput).draftOf byEntity entity) ∧
        after.saved byPosition plainForms .publisher rows entity nameInput =
          (after.under drafts).saved byEntity plainForms .publisher rows entity nameInput ∧
        after.exported byPosition plainForms .publisher entity nameInput =
          (after.under drafts).exported byEntity plainForms .publisher entity nameInput := by
  refine ⟨_, saved_with_own_draft plainForms .publisher [auditRecord, mirrorRecord]
    [.formEdit [("name", .str "audit log")], .select 1, .delete (some [auditRecord])] ?_ ?_ ?_ rfl⟩
  · intro entity member
    rcases List.mem_pair.mp member with rfl | rfl
    · exact ⟨"p1", by decide +kernel⟩
    · exact ⟨"p2", by decide +kernel⟩
  · decide +kernel
  · refine ⟨trivial, trivial, ⟨?_, ?_⟩, trivial⟩
    · intro i later
      have beyond : 1 ≤ i := later
      have elsewhere : (i == 0) = false := beq_false_of_ne (by omega)
      show List.lookup i [(0, _)] = none
      rw [List.lookup_cons, elsewhere]
      rfl
    · intro list read
      obtain rfl := Option.some.inj read
      decide +kernel

/-- The first publisher is renamed in its form and deleted, and the second one is saved as the first. -/
theorem draft_outlives_publisher :
    ¬ ∀ (actions : List EditorAction) (after : Editor Nat) (entity : Record) (nameInput : Option Text) (rows : Json),
      Steps.play (step byPosition plainForms .publisher)
        (opened plainForms .publisher [auditRecord, mirrorRecord]) actions = some after →
      after.current .publisher = some entity →
        idOf (after.saved byPosition plainForms .publisher rows entity nameInput) = idOf entity := by
  intro own
  have same := own [.formEdit [("name", .str "audit log")], .delete (some [mirrorRecord])] _ _ none (.arr []) rfl rfl
  revert same
  decide +kernel

end Editor

end MqBridge.Workspace
