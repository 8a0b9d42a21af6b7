import MqBridgeApp.Config.SavedFile
import MqBridgeApp.Ui.ConsumerKeys

/-!
# Updates that change nothing themselves

An update migrates the configuration it is given and normalises its consumers. A configuration with
nothing to migrate and nothing to normalise is stored as it is given.
-/

namespace MqBridge.Ui
open Text Config

/-- A configuration with nothing to migrate, whose outputs name their publishers and whose consumers are normal. -/
structure Normal (config : AppConfig) : Prop where
  settled : config.Settled
  secured : { config with configSecurity := some { mode := config.securityMode }, extractSecrets := false } = config
  outputs : config.normalizeConsumerPublisherOutputs = config
  consumers : ∀ consumer ∈ config.consumers, normalizeConsumer consumer = consumer

/-- A response as an update keeps it: it has no blank header, and it says something. -/
structure Tidy (response : ConsumerResponseConfig) : Prop where
  headers : ∀ header ∈ response.headers.entries, trim header.1 ≠ [] ∧ trim header.2 ≠ []
  full : response.headers.entries ≠ [] ∨ trim response.payload ≠ []

theorem normalize_some {response : ConsumerResponseConfig} :
    normalizeConsumerResponse (some response) =
      let headers := response.headers.retain fun header => !(trim header.1).isEmpty && !(trim header.2).isEmpty
      if headers.entries.isEmpty && (trim response.payload).isEmpty then none else some { response with headers } := rfl

theorem tidy_of_normalize {response : Option ConsumerResponseConfig} {tidied : ConsumerResponseConfig}
    (normalized : normalizeConsumerResponse response = some tidied) : Tidy tidied := by
  cases response with
  | none => cases normalized
  | some response =>
    simp only [normalize_some] at normalized
    split at normalized
    · cases normalized
    · next full =>
      obtain rfl := Option.some.inj normalized
      constructor
      · intro header member
        have kept := (List.mem_filter.mp member).2
        simpa using kept
      · by_contra empty
        simp only [not_or, not_not] at empty
        exact full (by simp [empty.1, empty.2])

theorem Tidy.normalize {response : ConsumerResponseConfig} (tidy : Tidy response) :
    normalizeConsumerResponse (some response) = some response := by
  obtain ⟨⟨entries, distinct⟩, payload⟩ := response
  have kept : entries.filter (fun header => !(trim header.1).isEmpty && !(trim header.2).isEmpty) = entries := by
    rw [List.filter_eq_self]
    intro header member
    have nonblank := tidy.headers header member
    simp [nonblank.1, nonblank.2]
  simp only [normalize_some, TextMap.retain, kept]
  rw [if_neg]
  intro empty
  simp only [Bool.and_eq_true, List.isEmpty_iff] at empty
  exact tidy.full.elim (fun full => full empty.1) (fun full => full empty.2)

theorem normalize_normalize (response : Option ConsumerResponseConfig) :
    normalizeConsumerResponse (normalizeConsumerResponse response) = normalizeConsumerResponse response := by
  cases normalized : normalizeConsumerResponse response with
  | none => rfl
  | some tidied => exact (tidy_of_normalize normalized).normalize

theorem Tidy.of_perm {a b : ConsumerResponseConfig} (tidy : Tidy a) (payload : a.payload = b.payload)
    (headers : a.headers.entries.Perm b.headers.entries) : Tidy b where
  headers header member := tidy.headers header (headers.mem_iff.mpr member)
  full := by
    rw [← payload]
    refine tidy.full.imp_left fun full empty => full ?_
    exact List.perm_nil.mp (empty ▸ headers)

theorem normalize_or (a b : Option ConsumerResponseConfig) :
    normalizeConsumerResponse ((normalizeConsumerResponse a).or (normalizeConsumerResponse b)) =
      (normalizeConsumerResponse a).or (normalizeConsumerResponse b) := by
  cases first : normalizeConsumerResponse a with
  | none => exact normalize_normalize b
  | some tidied => exact (tidy_of_normalize first).normalize

theorem normalizeConsumer_twice (consumer : ConsumerConfig) :
    normalizeConsumer (normalizeConsumer consumer) = normalizeConsumer consumer := by
  obtain ⟨id, name, enabled, endpoint, comment, response, output, capture, options⟩ := consumer
  have own : normalizeConsumerOutput (normalizeConsumerOutput output response)
      (consumerOutputResponseCompat (normalizeConsumerOutput output response)) = normalizeConsumerOutput output response := by
    cases output with
    | publisher publisher publisherId => simp [normalizeConsumerOutput, trim_trim]
    | response answer => simp only [normalizeConsumerOutput, consumerOutputResponseCompat, normalize_or, Option.or_self]
    | none =>
      cases tidied : normalizeConsumerResponse response with
      | none => simp only [normalizeConsumerOutput, consumerOutputResponseCompat, tidied]; rfl
      | some answer =>
        have again := (tidy_of_normalize tidied).normalize
        simp only [normalizeConsumerOutput, consumerOutputResponseCompat, tidied, again, Option.or_self]
  simp only [normalizeConsumer, own, trim_trim, normalizeConsumerCapture]
  simp

/-! ### Alike consumers are normalised alike -/

section
variable {a b : List (Text × Text)}

theorem perm_of_sameDocuments (distinct : (a.map Prod.fst).Nodup) (same : SameDocuments (.textMap a) (.textMap b)) :
    a.Perm b := by
  have own : (Data.textMap a).toValue.Distinct := by
    rw [Data.toEntries_textMap]
    refine ⟨by rw [List.map_map]; exact distinct, Json.distinctEntries_of_each ?_⟩
    intro entry member
    obtain ⟨_, -, rfl⟩ := List.mem_map.mp member
    trivial
  have held : Holds false (Data.textMap a).toValue (.textMap a) := ⟨own, Json.same_refl own⟩
  have other : Holds false (Data.textMap a).toValue (.textMap b) := holds_textMap.mpr ((same _).mp (holds_textMap.mp held))
  exact Data.perm_of_same_textMap distinct other.2

theorem sameDocuments_of_perm (distinct : (a.map Prod.fst).Nodup) (distinct' : (b.map Prod.fst).Nodup) (perm : a.Perm b) :
    SameDocuments (.textMap a) (.textMap b) := by
  have carry : ∀ {a b : List (Text × Text)}, (b.map Prod.fst).Nodup → a.Perm b → ∀ document,
      Shows document (.textMap a) → Shows document (.textMap b) := by
    intro a b distinct perm document shown
    have held : Holds false document (.textMap a) := holds_textMap.mpr shown
    have other : Holds false document (.textMap b) :=
      ⟨held.1, Json.same_trans held.2 (Data.same_textMap_of_perm distinct perm)⟩
    exact holds_textMap.mp other
  exact fun document => ⟨carry distinct' perm document, carry distinct perm.symm document⟩

end

theorem alike_normalizeConsumerResponse {a b : Option ConsumerResponseConfig}
    (same : Option.Rel ConsumerResponseConfig.Alike a b) :
    Option.Rel ConsumerResponseConfig.Alike (normalizeConsumerResponse a) (normalizeConsumerResponse b) := by
  cases same with
  | none => exact .none
  | @some a b same =>
    have perm := perm_of_sameDocuments a.headers.distinct same.headers
    have retained := perm.filter fun header => !(trim header.1).isEmpty && !(trim header.2).isEmpty
    simp only [normalizeConsumerResponse, Option.bind_some, same.payload]
    have empty := retained.isEmpty_eq
    unfold TextMap.retain
    dsimp only
    rw [empty]
    split
    · exact .none
    · refine .some ⟨sameDocuments_of_perm ?_ ?_ retained, rfl⟩
      · exact a.headers.distinct.sublist (List.filter_sublist.map _)
      · exact b.headers.distinct.sublist (List.filter_sublist.map _)

theorem alike_or {a b a' b' : Option ConsumerResponseConfig} (first : Option.Rel ConsumerResponseConfig.Alike a b)
    (second : Option.Rel ConsumerResponseConfig.Alike a' b') :
    Option.Rel ConsumerResponseConfig.Alike (a.or a') (b.or b') := by
  cases first with
  | none => exact second
  | some same => exact .some same

theorem alike_normalizeConsumerOutput {output output' : ConsumerOutputConfig} {a b : Option ConsumerResponseConfig}
    (same : output.Alike output') (fallback : Option.Rel ConsumerResponseConfig.Alike a b) :
    (normalizeConsumerOutput output a).Alike (normalizeConsumerOutput output' b) := by
  have normalized := alike_normalizeConsumerResponse fallback
  cases same with
  | publisher name id => exact .publisher _ _
  | response answer => exact .response (alike_or (alike_normalizeConsumerResponse answer) normalized)
  | none =>
    unfold normalizeConsumerOutput
    dsimp only
    cases first : normalizeConsumerResponse a with
    | none =>
      rw [first] at normalized
      cases second : normalizeConsumerResponse b with
      | none => exact .none
      | some _ => rw [second] at normalized; cases normalized
    | some _ =>
      rw [first] at normalized
      cases second : normalizeConsumerResponse b with
      | none => rw [second] at normalized; cases normalized
      | some _ => rw [second] at normalized; exact .response normalized

theorem alike_responseCompat {output output' : ConsumerOutputConfig} (same : output.Alike output') :
    Option.Rel ConsumerResponseConfig.Alike (consumerOutputResponseCompat output)
      (consumerOutputResponseCompat output') := by
  cases same with
  | none => exact .none
  | publisher _ _ => exact .none
  | response answer => exact alike_normalizeConsumerResponse answer

theorem alike_normalizeConsumer {a b : ConsumerConfig} (same : a.Alike b) :
    (normalizeConsumer a).Alike (normalizeConsumer b) := by
  have output := alike_normalizeConsumerOutput same.output same.response
  exact {
    id := same.id
    name := congrArg trim same.name
    enabled := same.enabled
    endpoint := same.endpoint
    comment := same.comment
    response := alike_responseCompat output
    output
    messageCapture := congrArg normalizeConsumerCapture same.messageCapture
    options := same.options }

theorem updateConfig_alike {services : Services} {app after : UiApp} {read config : AppConfig} (normal : Normal config)
    (alike : read.Alike config) (updated : updateConfig services app read = (after, .ok ())) :
    after.config.Alike config := by
  obtain ⟨plan, planned, stored, -⟩ := updateConfig_ok updated
  obtain ⟨migrated, consumers⟩ := planUpdate_ok planned
  have migrates := alike.migrate normal.settled normal.secured services.storage.ids
  rw [normal.outputs, ← migrated] at migrates
  have normalized : config.consumers.map normalizeConsumer = config.consumers := by
    rw [List.map_congr_left normal.consumers, List.map_id']
  rw [stored, UpdatePlan.final, consumers]
  refine { migrates with consumers := ?_ }
  rw [← normalized, List.forall₂_map_left_iff, List.forall₂_map_right_iff]
  exact migrates.consumers.imp fun _ _ => alike_normalizeConsumer

/-! ### What an update makes of a configuration -/

/-- The plan is made of a configuration, for which no id is generated that it has already. -/
def UpdatePlan.Fresh (plan : UpdatePlan) : Prop :=
  ∃ (ids : IdSupply) (new : AppConfig), ids.Fresh new.entityIds ∧ plan.config = new.migrateLegacyRoutes ids ∧
    plan.consumers = plan.config.consumers.map normalizeConsumer

def UpdatePlan.NamesTrimmed (plan : UpdatePlan) : Prop :=
  ∀ publisher ∈ plan.config.publishers, trim publisher.name = publisher.name

theorem output_normalizeConsumer {publishers : List PublisherClient} (distinct : (publishers.map (·.id)).Nodup)
    (trimmed : ∀ publisher ∈ publishers, trim publisher.name = publisher.name) {consumer : ConsumerConfig}
    (resolved : OutputResolved publishers consumer.output)
    (plain : ∀ name, consumer.output = .publisher name none → trim name = name) :
    normalizePublisherOutput (nameOfId publishers) (idOfName publishers) (normalizeConsumer consumer).output =
      (normalizeConsumer consumer).output := by
  have kept := normalizePublisherOutput_of_resolved distinct resolved plain
  show normalizePublisherOutput _ _ (normalizeConsumerOutput consumer.output consumer.response) =
    normalizeConsumerOutput consumer.output consumer.response
  cases given : consumer.output with
  | response answer => rfl
  | none =>
    unfold normalizeConsumerOutput
    cases normalizeConsumerResponse consumer.response <;> rfl
  | publisher name publisherId =>
    rw [given] at kept resolved
    have same : trim name = name := by
      cases publisherId with
      | none => exact plain name given
      | some id =>
        obtain ⟨publisher, member, -, rfl⟩ := resolved
        exact trimmed publisher member
    unfold normalizeConsumerOutput
    dsimp only
    rw [same]
    exact kept

theorem UpdatePlan.Fresh.normal {plan : UpdatePlan} (fresh : plan.Fresh) (trimmed : plan.NamesTrimmed) :
    Normal plan.final := by
  obtain ⟨ids, new, unused, config, consumers⟩ := fresh
  have settled := settled_migrate unused
  have resolved := resolved_migrate unused
  rw [← config] at settled resolved
  have plain : ∀ consumer ∈ plan.config.consumers, ∀ name, consumer.output = .publisher name none → trim name = name := by
    rw [config]
    exact fun consumer member name => unresolved_trimmed member
  have ids_ : (plan.consumers.map (·.id)) = plan.config.consumers.map (·.id) := by
    rw [consumers, List.map_map]
    rfl
  have each : ∀ consumer ∈ plan.consumers, ∃ original ∈ plan.config.consumers, normalizeConsumer original = consumer := by
    intro consumer member
    rw [consumers] at member
    exact List.mem_map.mp member
  refine ⟨⟨settled.routes, settled.publisherIds, settled.publisherIdsFull, ?_, ?_, ?_, settled.tab⟩, ?_, ?_, ?_⟩
  · show (plan.consumers.map (·.id)).Nodup
    rw [ids_]
    exact settled.consumerIds
  · intro consumer member
    obtain ⟨original, inside, rfl⟩ := each consumer member
    exact settled.consumerIdsFull original inside
  · intro consumer member none
    obtain ⟨original, inside, rfl⟩ := each consumer member
    have none : normalizeConsumerOutput original.output original.response = .none := none
    show consumerOutputResponseCompat (normalizeConsumerOutput original.output original.response) = Option.none
    rw [none]
    rfl
  · have security : plan.config.configSecurity = some { mode := new.securityMode } ∧ plan.config.extractSecrets = false := by
      rw [config, migrateLegacyRoutes_eq]
      exact ⟨rfl, rfl⟩
    have mode : plan.final.securityMode = new.securityMode := by
      unfold AppConfig.securityMode
      rw [show plan.final.configSecurity = _ from security.1]
      rfl
    rw [mode, ← security.1, ← security.2]
    rfl
  · rw [normalizeConsumerPublisherOutputs_eq]
    have same : ∀ consumer ∈ plan.final.consumers, { consumer with
        output := normalizePublisherOutput (nameOfId plan.final.publishers) (idOfName plan.final.publishers)
          consumer.output } = consumer := by
      intro consumer member
      obtain ⟨original, inside, rfl⟩ := each consumer member
      have output := output_normalizeConsumer settled.publisherIds trimmed (resolved.outputs original inside)
        (plain original inside)
      exact congrArg (fun output => { normalizeConsumer original with output }) output
    rw [List.map_congr_left same, List.map_id']
  · intro consumer member
    obtain ⟨original, -, rfl⟩ := each consumer member
    exact normalizeConsumer_twice original

theorem UpdatePlan.Fresh.savedWhole {plan : UpdatePlan} {storage : Storage} (fresh : plan.Fresh) (trimmed : plan.NamesTrimmed)
    (secrets : extractsSecrets plan.final.securityMode = true → (plan.final.extractSecretValues storage.bridge).1 = plan.final) :
    SavedWhole storage plan.final := by
  have normal := fresh.normal trimmed
  refine ⟨normal.settled, normal.secured, normal.outputs, trimmed, fun consumer member => ?_, secrets⟩
  have same := congrArg ConsumerConfig.name (normal.consumers consumer member)
  exact same

end MqBridge.Ui
