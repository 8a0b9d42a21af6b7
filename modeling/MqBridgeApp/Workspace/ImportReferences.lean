import MqBridgeApp.Ui.ConsumerKeys
import MqBridgeApp.Workspace.Import

/-!
# References of an imported bundle

The server migrates what an import sends it. A reference in the bundle is not rewritten, so it leads to
the imported publisher only while neither its id nor its name is taken.
-/

namespace MqBridge.Workspace
open Text Config Ui

/-! ### Where outputs lead -/

def outputTarget (publishers : List PublisherClient) : ConsumerOutputConfig → Option PublisherClient
  | .publisher _ (some id) => publishers.find? fun publisher => publisher.id == id
  | _ => none

section Targets
variable {publishers : List PublisherClient} {publisher : PublisherClient} {name : Text} {publisherId : Option Text}

theorem outputTarget_eq_some (distinct : (publishers.map (·.id)).Nodup) {output : ConsumerOutputConfig} :
    outputTarget publishers output = some publisher ↔
      publisher ∈ publishers ∧ ∃ name, output = .publisher name (some publisher.id) := by
  constructor
  · intro leads
    unfold outputTarget at leads
    split at leads
    · next name id =>
      have same : publisher.id = id := by simpa using List.find?_some leads
      exact ⟨List.mem_of_find?_eq_some leads, name, by rw [same]⟩
    · cases leads
  · rintro ⟨member, name, rfl⟩
    cases found : publishers.find? fun other => other.id == publisher.id with
    | none => exact absurd (List.find?_eq_none.mp found publisher member) (by simp)
    | some other =>
      have same : other.id = publisher.id := by simpa using List.find?_some found
      have equal := List.inj_on_of_nodup_map distinct (List.mem_of_find?_eq_some found) member same
      rw [outputTarget, found, equal]

theorem target_byId (distinct : (publishers.map (·.id)).Nodup) (member : publisher ∈ publishers) :
    outputTarget publishers (normalizePublisherOutput (nameOfId publishers) (idOfName publishers)
      (.publisher name (some publisher.id))) = some publisher := by
  rw [normalizePublisherOutput_publisher, Option.bind_some, nameOfId_of_mem distinct member]
  exact (outputTarget_eq_some distinct).mpr ⟨member, _, rfl⟩

theorem target_byName (distinct : (publishers.map (·.id)).Nodup)
    (unknown : ∀ other ∈ publishers, publisherId ≠ some other.id) (member : publisher ∈ publishers)
    (named : publisher.name = trim name) (only : ∀ other ∈ publishers, other.name = trim name → other = publisher) :
    outputTarget publishers (normalizePublisherOutput (nameOfId publishers) (idOfName publishers)
      (.publisher name publisherId)) = some publisher := by
  have missing : publisherId.bind (nameOfId publishers) = none := by
    rw [Option.bind_eq_none_iff]
    intro id given
    exact nameOfId_eq_none fun other inside same => unknown other inside (same ▸ given)
  rw [normalize_byName missing]
  cases found : idOfName publishers (trim name) with
  | none => exact absurd named (idOfName_eq_none.mp found publisher member)
  | some id =>
    obtain ⟨other, inside, rfl, same⟩ := mem_of_idOfName found
    rw [only other inside same]
    exact (outputTarget_eq_some distinct).mpr ⟨member, _, rfl⟩

/-- A reference leads to a publisher by its id, or else by its name. -/
theorem target_normalize (distinct : (publishers.map (·.id)).Nodup)
    (leads : outputTarget publishers (normalizePublisherOutput (nameOfId publishers) (idOfName publishers)
      (.publisher name publisherId)) = some publisher) :
    publisher ∈ publishers ∧ (publisherId = some publisher.id ∨
      (∀ other ∈ publishers, publisherId ≠ some other.id) ∧ publisher.name = trim name) := by
  obtain ⟨member, text, output⟩ := (outputTarget_eq_some distinct).mp leads
  refine ⟨member, ?_⟩
  rw [normalizePublisherOutput_publisher] at output
  split at output
  · next found _ => exact Or.inl (ConsumerOutputConfig.publisher.inj output).2
  · next missing =>
    obtain ⟨-, byName⟩ := ConsumerOutputConfig.publisher.inj output
    obtain ⟨other, inside, same, named⟩ := mem_of_idOfName byName
    have equal := List.inj_on_of_nodup_map distinct inside member same
    refine Or.inr ⟨?_, equal ▸ named⟩
    rintro other' inside' rfl
    rw [Option.bind_some, nameOfId_of_mem distinct inside'] at missing
    cases missing

theorem kept_output {more : List PublisherClient} (distinct : (more.map (·.id)).Nodup)
    (distinct' : (publishers.map (·.id)).Nodup) (subset : ∀ publisher ∈ publishers, publisher ∈ more)
    {output : ConsumerOutputConfig} (leads : ∀ name publisherId, output = .publisher name publisherId →
      ∃ publisher ∈ publishers, publisherId = some publisher.id ∧ name = publisher.name) :
    normalizePublisherOutput (nameOfId more) (idOfName more) output = output ∧
      outputTarget more output = outputTarget publishers output := by
  cases output with
  | none => exact ⟨rfl, rfl⟩
  | response answer => exact ⟨rfl, rfl⟩
  | publisher name publisherId =>
    obtain ⟨publisher, member, rfl, rfl⟩ := leads name publisherId rfl
    constructor
    · rw [normalizePublisherOutput_publisher, Option.bind_some, nameOfId_of_mem distinct (subset publisher member)]
    · rw [(outputTarget_eq_some distinct).mpr ⟨subset publisher member, _, rfl⟩,
        (outputTarget_eq_some distinct').mpr ⟨member, _, rfl⟩]

end Targets

/-! ### What an import is to keep -/

/-- The reference of an output by id. A blank id refers to nothing. -/
def RefersById (output : ConsumerOutputConfig) (publisher : PublisherClient) : Prop :=
  trim publisher.id ≠ [] ∧ ∃ name, output = .publisher name (some publisher.id)

/-- The reference of an output by name, where no publisher has its id. -/
def RefersByName (publishers : List PublisherClient) (output : ConsumerOutputConfig) (publisher : PublisherClient) :
    Prop :=
  publisher.name ≠ [] ∧ ∃ name publisherId, output = .publisher name publisherId ∧ trim name = publisher.name ∧
    ∀ other ∈ publishers, trim other.id ≠ [] → publisherId ≠ some other.id

section
variable (current : AppConfig) (bundle : Bundle)

def keptPublishers : List PublisherClient := namedRows PublisherClient.name current.publishers

def keptConsumers : List ConsumerConfig := namedRows ConsumerConfig.name current.consumers

def incomingPublishers : List PublisherClient := namedRows PublisherClient.name bundle.publishers

def incomingConsumers : List ConsumerConfig := namedRows ConsumerConfig.name bundle.consumers

/-- The publisher is what the import made of one of the bundle. -/
def CopyOf (after : AppConfig) (original copy : PublisherClient) : Prop :=
  ∃ i, (incomingPublishers bundle)[i]? = some original ∧
    after.publishers[(keptPublishers current).length + i]? = some copy

/-- Everything that was there is there as it was, and a reference to a publisher of the bundle leads to the imported
one. -/
structure ImportKept (after : AppConfig) : Prop where
  publishers : ∀ publisher ∈ current.publishers, publisher ∈ after.publishers
  consumers : ∀ consumer ∈ current.consumers, consumer ∈ after.consumers ∧
    outputTarget after.publishers consumer.output = outputTarget current.publishers consumer.output
  references : ∀ j consumer, (incomingConsumers bundle)[j]? = some consumer → ∀ original ∈ bundle.publishers,
    RefersById consumer.output original ∨ RefersByName bundle.publishers consumer.output original →
      ∃ (consumer' : ConsumerConfig) (copy : PublisherClient),
        after.consumers[(keptConsumers current).length + j]? = some consumer' ∧
          CopyOf current bundle after original copy ∧ outputTarget after.publishers consumer'.output = some copy

/-- What the names and the ids have to meet: the entities of the workspace have names and its outputs lead to publishers
by id, and what the bundle refers to is still free when it is imported. -/
structure ImportClear : Prop where
  publishersNamed : ∀ publisher ∈ current.publishers, jsTrim publisher.name ≠ []
  consumersNamed : ∀ consumer ∈ current.consumers, jsTrim consumer.name ≠ []
  outputs : ∀ consumer ∈ current.consumers, ∀ name publisherId, consumer.output = .publisher name publisherId →
    ∃ publisher ∈ current.publishers, publisherId = some publisher.id ∧ name = publisher.name
  byId : ∀ consumer ∈ incomingConsumers bundle, ∀ original ∈ bundle.publishers, RefersById consumer.output original →
    (∀ publisher ∈ current.publishers, publisher.id ≠ original.id) ∧
      (incomingPublishers bundle).find? (fun other => other.id == original.id) = some original
  byName : ∀ consumer ∈ incomingConsumers bundle, ∀ original ∈ bundle.publishers,
    RefersByName bundle.publishers consumer.output original →
      (∀ publisher ∈ current.publishers, ∀ name, consumer.output ≠ .publisher name (some publisher.id)) ∧
        ∃ i, (incomingPublishers bundle)[i]? = some original ∧
          original.name ∉ (mergePublishers current.publishers ((incomingPublishers bundle).take i)).map (·.name)

def together : AppConfig :=
  { current with
    publishers := current.publishers ++ bundle.publishers
    consumers := current.consumers ++ bundle.consumers }

def mentionedIds : List Text := (together current bundle).entityIds ++ (together current bundle).referencedIds

/-- The name that a publisher gets behind the first `i` of the bundle. -/
def importedName (i : Nat) (original : PublisherClient) : Text :=
  nextUniqueName original.name
    ((mergePublishers current.publishers ((incomingPublishers bundle).take i)).map (·.name))

/-- The ids that are made up are new. -/
structure NewIds (forms : PresetForms) (ids : IdSupply) (settings : AppConfig) : Prop where
  made : ∀ n, forms.createLocalEntityId n ∉ mentionedIds current bundle
  generated : ids.Fresh ((importAppConfig forms settings current bundle).entityIds ++ mentionedIds current bundle)

end

theorem settled_final {services : Services} {new : AppConfig} {plan : UpdatePlan}
    (fresh : services.storage.ids.Fresh new.entityIds) (accepted : planUpdate services new = .ok plan) :
    plan.final.Settled := by
  obtain ⟨config, consumers⟩ := planUpdate_ok accepted
  have settled := settled_migrate fresh
  rw [← config] at settled
  have ids : plan.consumers.map (·.id) = plan.config.consumers.map (·.id) := by
    rw [consumers, List.map_map]
    rfl
  refine ⟨settled.routes, settled.publisherIds, settled.publisherIdsFull, ids ▸ settled.consumerIds, ?_, ?_,
    settled.tab⟩
  · intro consumer member
    rw [UpdatePlan.final, consumers] at member
    obtain ⟨original, inside, rfl⟩ := List.mem_map.mp member
    exact settled.consumerIdsFull original inside
  · intro consumer member output
    rw [UpdatePlan.final, consumers] at member
    obtain ⟨original, -, rfl⟩ := List.mem_map.mp member
    show consumerOutputResponseCompat (normalizeConsumer original).output = none
    rw [output]
    rfl

section Import
variable {forms : PresetForms} {ids : IdSupply} {settings current : AppConfig} {bundle : Bundle}

theorem keepsId_of_nodup {α : Type*} {id : α → Text} {entities : List α} {k : Nat} {entity : α}
    (distinct : (entities.map id).Nodup) (full : trim (id entity) ≠ []) (here : entities[k]? = some entity) :
    KeepsId id [] (entities.take k) entity := by
  refine ⟨full, nofun, fun other earlier same => ?_⟩
  rw [← List.take_append_drop k entities, List.map_append, List.nodup_append] at distinct
  have later : entity ∈ entities.drop k := by
    apply List.mem_of_getElem? (i := 0)
    rw [List.getElem?_drop, Nat.add_zero, here]
  exact distinct.2.2 _ (List.mem_map_of_mem earlier) _ (List.mem_map_of_mem later) same

theorem NewIds.fresh (new : NewIds current bundle forms ids settings) :
    ids.Fresh (importAppConfig forms settings current bundle).entityIds :=
  ⟨new.generated.toProper, new.generated.unused.mono (Nat.le_refl _) fun _ => List.mem_append_left _⟩

theorem importAppConfig_publishers (forms : PresetForms) (settings current : AppConfig) (bundle : Bundle) : ∃ added,
    (importAppConfig forms settings current bundle).publishers =
        mergePublishers current.publishers bundle.publishers ++ added ∧
      ∀ publisher ∈ added, (∀ other ∈ mergePublishers current.publishers bundle.publishers, jsTrim other.name ≠ [] →
          publisher.name ≠ jsTrim other.name) ∧ jsTrim publisher.name = publisher.name ∧
        ∃ n, publisher.id = forms.createLocalEntityId n :=
  migrateLegacyPresetsToPublishers_adds bundle.presets _

theorem incoming_named : ∀ publisher ∈ incomingPublishers bundle, jsTrim publisher.name ≠ [] :=
  fun _ member => (mem_namedRows.mp member).2

theorem keptPublishers_subset {publisher : PublisherClient} (member : publisher ∈ keptPublishers current) :
    publisher ∈ current.publishers := (mem_namedRows.mp member).1

theorem incomingPublishers_subset {publisher : PublisherClient} (member : publisher ∈ incomingPublishers bundle) :
    publisher ∈ bundle.publishers := (mem_namedRows.mp member).1

theorem kept_publisher (settled : current.Settled) (new : NewIds current bundle forms ids settings) {k : Nat}
    {publisher : PublisherClient} (here : (keptPublishers current)[k]? = some publisher) :
    ((importAppConfig forms settings current bundle).migrateLegacyRoutes ids).publishers[k]? = some publisher := by
  obtain ⟨added, publishers, -⟩ := importAppConfig_publishers forms settings current bundle
  have below := (List.getElem?_eq_some_iff.mp here).1
  have whole : (importAppConfig forms settings current bundle).publishers = keptPublishers current ++
      (renameRows PublisherClient.name setPublisherName
        ((keptPublishers current).map (·.name)) (incomingPublishers bundle) ++ added) := by
    rw [publishers, ← List.append_assoc]
    rfl
  have sent : (importAppConfig forms settings current bundle).publishers[k]? = some publisher := by
    rw [whole, List.getElem?_append_left below, here]
  have first : (importAppConfig forms settings current bundle).publishers.take k = (keptPublishers current).take k := by
    rw [whole, List.take_append_of_le_length (Nat.le_of_lt below)]
  obtain ⟨id, there, keeps, -⟩ := migrated_publisher new.fresh sent
  have distinct : ((keptPublishers current).map (·.id)).Nodup :=
    settled.publisherIds.sublist (List.filter_sublist.map _)
  have member := keptPublishers_subset (List.mem_of_getElem? here)
  have kept := keeps (first ▸ keepsId_of_nodup distinct (settled.publisherIdsFull _ member) here)
  rw [there, kept]

theorem mergePublishers_take (i : Nat) :
    mergePublishers current.publishers ((incomingPublishers bundle).take i) =
      (mergePublishers current.publishers bundle.publishers).take ((keptPublishers current).length + i) := by
  have named : ∀ publisher ∈ (incomingPublishers bundle).take i, jsTrim publisher.name ≠ [] :=
    fun publisher member => incoming_named publisher (List.mem_of_mem_take member)
  rw [mergePublishers, namedRows_eq_self named]
  exact (take_mergeNamedEntries i).symm

theorem merged_publisher {i : Nat} {original : PublisherClient} (here : (incomingPublishers bundle)[i]? = some original) :
    (mergePublishers current.publishers bundle.publishers)[(keptPublishers current).length + i]? =
      some (setPublisherName (importedName current bundle i original) original) := by
  rw [importedName, mergePublishers_take, mergePublishers]
  refine (mergeNamedEntries_getElem? (fun _ _ => rfl) here
    (ne_nil_of_jsTrim (incoming_named original (List.mem_of_getElem? here)))).trans ?_
  rw [← take_mergeNamedEntries]
  rfl

/-- A publisher of the bundle has a name of its own, and its id while that is free. -/
theorem imported_publisher (new : NewIds current bundle forms ids settings) {i : Nat} {original : PublisherClient}
    (here : (incomingPublishers bundle)[i]? = some original) : ∃ id : Text,
    ((importAppConfig forms settings current bundle).migrateLegacyRoutes ids).publishers[
        (keptPublishers current).length + i]? =
      some { setPublisherName (importedName current bundle i original) original with id } ∧
      (trim original.id ≠ [] → (∀ publisher ∈ keptPublishers current, publisher.id ≠ original.id) →
        (∀ other ∈ (incomingPublishers bundle).take i, other.id ≠ original.id) → id = original.id) := by
  obtain ⟨added, publishers, -⟩ := importAppConfig_publishers forms settings current bundle
  have merged : (mergePublishers current.publishers bundle.publishers)[(keptPublishers current).length + i]? = some _ :=
    merged_publisher here
  have within := (List.getElem?_eq_some_iff.mp merged).1
  obtain ⟨id, there, keeps, -⟩ := migrated_publisher new.fresh
    (publishers ▸ (List.getElem?_append_left within).trans merged)
  refine ⟨id, there, fun full unlike others => keeps ⟨full, nofun, fun other earlier => ?_⟩⟩
  have before : other ∈ mergeNamedEntries PublisherClient.name setPublisherName (keptPublishers current)
      ((incomingPublishers bundle).take i) := by
    rw [publishers, List.take_append_of_le_length (Nat.le_of_lt within)] at earlier
    rwa [← take_mergeNamedEntries]
  rcases mem_mergeNamedEntries (fun _ _ => rfl)
    (fun publisher member => incoming_named publisher (List.mem_of_mem_take member)) before with
    old | ⟨row, inside, text, -, rfl⟩
  · exact unlike other old
  · exact others row inside

theorem imported_id {publisher : PublisherClient}
    (member : publisher ∈ ((importAppConfig forms settings current bundle).migrateLegacyRoutes ids).publishers) :
    (publisher.id ∈ (keptPublishers current).map (·.id)) ∨ publisher.id ∈ (incomingPublishers bundle).map (·.id) ∨
      (∃ n, publisher.id = forms.createLocalEntityId n) ∨ ∃ n, publisher.id = ids n := by
  rcases mem_migrated_publishers member with sent | generated
  · obtain ⟨added, publishers, fresh⟩ := importAppConfig_publishers forms settings current bundle
    rw [publishers] at sent
    rcases List.mem_append.mp sent with merged | preset
    · rcases mem_mergeNamedEntries (fun _ _ => rfl) incoming_named merged with old | ⟨row, inside, text, -, rfl⟩
      · exact Or.inl (List.mem_map_of_mem old)
      · exact Or.inr (Or.inl (List.mem_map.mpr ⟨row, inside, rfl⟩))
    · exact Or.inr (Or.inr (Or.inl (fresh publisher preset).2.2))
  · exact Or.inr (Or.inr (Or.inr generated))

theorem imported_name_unique (new : NewIds current bundle forms ids settings) {i : Nat} {original copy other : PublisherClient}
    (here : (incomingPublishers bundle)[i]? = some original)
    (there : ((importAppConfig forms settings current bundle).migrateLegacyRoutes ids).publishers[
      (keptPublishers current).length + i]? = some copy)
    (member : other ∈ ((importAppConfig forms settings current bundle).migrateLegacyRoutes ids).publishers)
    (same : other.name = copy.name) : other = copy := by
  obtain ⟨added, publishers, preset⟩ := importAppConfig_publishers forms settings current bundle
  obtain ⟨id, found, -⟩ := imported_publisher new here
  obtain rfl := Option.some.inj (found.symm.trans there)
  have inside := (List.getElem?_eq_some_iff.mp here).1
  have merged : (mergePublishers current.publishers bundle.publishers)[(keptPublishers current).length + i]? = some _ :=
    merged_publisher here
  have final := finalPublishers new.fresh
  obtain ⟨m, atOther⟩ := List.mem_iff_getElem?.mp member
  by_cases sent : m < (importAppConfig forms settings current bundle).publishers.length
  · obtain ⟨before, atBefore⟩ := Option.ne_none_iff_exists'.mp
      (List.getElem?_eq_none_iff.not.mpr (Nat.not_le_of_lt sent))
    obtain ⟨other', found', name, -⟩ := final.old m _ atBefore
    obtain rfl := Option.some.inj (found'.symm.trans atOther)
    rw [publishers] at atBefore
    by_cases early : m < (mergePublishers current.publishers bundle.publishers).length
    · rw [List.getElem?_append_left early] at atBefore
      obtain rfl : m = (keptPublishers current).length + i := mergeNamedEntries_name_inj (fun _ _ => rfl) incoming_named
        inside atBefore merged (name.symm.trans same)
      exact Option.some.inj (atOther.symm.trans found)
    · rw [List.getElem?_append_right (Nat.le_of_not_lt early)] at atBefore
      have full : jsTrim (importedName current bundle i original) ≠ [] :=
        jsTrim_nextUniqueName_ne (incoming_named original (List.mem_of_getElem? here))
      obtain ⟨unlike, trimmed, -⟩ := preset _ (List.mem_of_getElem? atBefore)
      have equal : before.name = jsTrim (importedName current bundle i original) := by
        rw [← trimmed]
        exact congrArg jsTrim (name.symm.trans same)
      exact absurd equal (unlike _ (List.mem_of_getElem? merged) full)
  · obtain ⟨made, -⟩ := final.new m _ atOther (Nat.le_of_not_lt sent)
    refine absurd ?_ made.name
    rw [publishers, same]
    exact List.mem_map.mpr ⟨_, List.mem_append_left _ (List.mem_of_getElem? merged), rfl⟩

theorem publisher_mentioned {publisher : PublisherClient} (member : publisher ∈ current.publishers) :
    publisher.id ∈ mentionedIds current bundle :=
  List.mem_append_left _ (List.mem_append_left _ (List.mem_map_of_mem (List.mem_append_left _ member)))

theorem consumer_mentioned {consumer : ConsumerConfig} (member : consumer ∈ current.consumers) :
    consumer.id ∈ mentionedIds current bundle :=
  List.mem_append_left _ (List.mem_append_right _ (List.mem_map_of_mem (List.mem_append_left _ member)))

theorem reference_mentioned {consumer : ConsumerConfig} (member : consumer ∈ incomingConsumers bundle) {name id : Text}
    (output : consumer.output = .publisher name (some id)) : id ∈ mentionedIds current bundle := by
  refine List.mem_append_right _ (List.mem_flatMap.mpr ⟨consumer, ?_, ?_⟩)
  · exact List.mem_append_right _ (mem_namedRows.mp member).1
  · rw [output]
    exact List.mem_singleton_self id

/-- An id that neither the workspace nor the bundle has stays without a publisher. -/
theorem unknown_id (new : NewIds current bundle forms ids settings)
    {consumer : ConsumerConfig} (member : consumer ∈ incomingConsumers bundle) {name : Text} {publisherId : Option Text}
    (output : consumer.output = .publisher name publisherId)
    (unlike : ∀ publisher ∈ current.publishers, publisherId ≠ some publisher.id)
    (others : ∀ other ∈ bundle.publishers, trim other.id ≠ [] → publisherId ≠ some other.id) :
    ∀ publisher ∈ ((importAppConfig forms settings current bundle).migrateLegacyRoutes ids).publishers,
      publisherId ≠ some publisher.id := by
  rintro publisher there rfl
  have mentioned : _ ∈ mentionedIds current bundle := reference_mentioned member output
  rcases imported_id there with old | incoming | ⟨n, made⟩ | ⟨n, generated⟩
  · obtain ⟨other, inside, same⟩ := List.mem_map.mp old
    exact unlike other (keptPublishers_subset inside) (by rw [← same])
  · obtain ⟨other, inside, same⟩ := List.mem_map.mp incoming
    have full := (finalPublishers new.fresh).full publisher there
    exact others other (incomingPublishers_subset inside) (same ▸ full) (by rw [← same])
  · exact new.made n (made ▸ mentioned)
  · exact new.generated.unused n (Nat.zero_le n) (List.mem_append_right _ (generated ▸ mentioned))

theorem sent_consumer (new : NewIds current bundle forms ids settings) {k : Nat} {consumer : ConsumerConfig}
    (here : (mergeConsumers current.consumers bundle.consumers)[k]? = some consumer) {name : Text}
    {publisherId : Option Text} (output : consumer.output = .publisher name publisherId) :
    ∃ consumer' : ConsumerConfig,
      ((importAppConfig forms settings current bundle).migrateLegacyRoutes ids).consumers[k]? = some consumer' ∧
        consumer'.output = normalizePublisherOutput
          (nameOfId ((importAppConfig forms settings current bundle).migrateLegacyRoutes ids).publishers)
          (idOfName ((importAppConfig forms settings current bundle).migrateLegacyRoutes ids).publishers)
          (.publisher name publisherId) := by
  have sent : (importAppConfig forms settings current bundle).consumers[k]? = some consumer := here
  obtain ⟨id, there, -⟩ := migrated_consumer_eq new.fresh sent
  exact ⟨_, there, by rw [← migrateConsumerResponse_publisher output]⟩

theorem imported_consumer (new : NewIds current bundle forms ids settings) {j : Nat} {consumer : ConsumerConfig}
    (here : (incomingConsumers bundle)[j]? = some consumer) {name : Text} {publisherId : Option Text}
    (output : consumer.output = .publisher name publisherId) :
    ∃ consumer' : ConsumerConfig,
      ((importAppConfig forms settings current bundle).migrateLegacyRoutes ids).consumers[
        (keptConsumers current).length + j]? = some consumer' ∧
        consumer'.output = normalizePublisherOutput
          (nameOfId ((importAppConfig forms settings current bundle).migrateLegacyRoutes ids).publishers)
          (idOfName ((importAppConfig forms settings current bundle).migrateLegacyRoutes ids).publishers)
          (.publisher name publisherId) := by
  have named := (mem_namedRows.mp (List.mem_of_getElem? here)).2
  have merged : (mergeNamedEntries ConsumerConfig.name setConsumerName (keptConsumers current) _)[
      (keptConsumers current).length + j]? = some _ :=
    mergeNamedEntries_getElem? (fun _ _ => rfl) here (ne_nil_of_jsTrim named)
  exact sent_consumer new merged output

/-- The first publisher of the bundle with a free id keeps it. -/
theorem imported_byId (new : NewIds current bundle forms ids settings) {original : PublisherClient}
    (full : trim original.id ≠ []) (unlike : ∀ publisher ∈ current.publishers, publisher.id ≠ original.id)
    (first : (incomingPublishers bundle).find? (fun other => other.id == original.id) = some original) :
    ∃ i copy, (incomingPublishers bundle)[i]? = some original ∧
      ((importAppConfig forms settings current bundle).migrateLegacyRoutes ids).publishers[
        (keptPublishers current).length + i]? = some copy ∧ copy.id = original.id := by
  obtain ⟨-, i, inside, there, earlier⟩ := List.find?_eq_some_iff_getElem.mp first
  have here : (incomingPublishers bundle)[i]? = some original := by rw [List.getElem?_eq_getElem inside, there]
  obtain ⟨id, found, keeps⟩ := imported_publisher new here
  refine ⟨i, _, here, found, keeps full (fun publisher member => unlike publisher (keptPublishers_subset member)) ?_⟩
  intro other before
  obtain ⟨j, below, rfl⟩ := List.mem_take_iff_getElem.mp before
  have missed := earlier j (by omega)
  simpa using missed

/-! ### Accepted imports -/

theorem forEach_ok {α ε : Type*} {step : α → Except ε Unit} {items : List α} (passed : forEach step items = .ok ()) :
    ∀ item ∈ items, step item = .ok () := by
  induction items with
  | nil => exact nofun
  | cons first rest ih =>
    rw [forEach] at passed
    split at passed
    · next ok => exact List.forall_mem_cons.mpr ⟨ok, ih passed⟩
    · cases passed

theorem accepted_byName {services : Services} {new : AppConfig} {plan : UpdatePlan}
    (accepted : planUpdate services new = .ok plan) {consumer : ConsumerConfig}
    (member : consumer ∈ plan.config.consumers) {name : Text} (output : consumer.output = .publisher name none) :
    ∃ publisher ∈ plan.config.publishers, publisher.name = trim name := by
  have validated : forEach (validateConsumer services plan.config.publishers)
      (plan.config.consumers.map normalizeConsumer) = .ok () := by
    unfold planUpdate at accepted
    split at accepted
    · cases accepted
    · dsimp only at accepted
      split at accepted
      · cases accepted
      · next passed =>
        split at accepted
        · cases accepted
        · obtain rfl := Except.ok.inj accepted
          exact passed
  have valid := forEach_ok validated _ (List.mem_map_of_mem member)
  have normalized : (normalizeConsumer consumer).output = .publisher (trim name) none := by
    simp only [normalizeConsumer, normalizeConsumerOutput, output]
  rw [validateConsumer] at valid
  split at valid
  · cases valid
  · next resolved =>
    simp only [resolveConsumerOutput, normalized] at resolved
    split at resolved
    · cases resolved
    · split at resolved
      · next publisher found =>
        have hit := List.find?_some found
        rw [trim_trim] at hit
        simp only [Option.map_none, Option.filter_none, Bool.or_eq_true, Bool.and_eq_true, beq_iff_eq,
          reduceCtorEq, false_or] at hit
        exact ⟨publisher, List.mem_of_find?_eq_some found, hit.2⟩
      · cases resolved

section Main
variable {services : Services} {forms : PresetForms} {settings current : AppConfig} {bundle : Bundle} {plan : UpdatePlan}

theorem importKept_of_clear {ids : IdSupply} (settled : current.Settled) (new : NewIds current bundle forms ids settings)
    (clear : ImportClear current bundle) :
    ImportKept current bundle ((importAppConfig forms settings current bundle).migrateLegacyRoutes ids) := by
  have distinct := (finalPublishers new.fresh).distinct
  have publishers : keptPublishers current = current.publishers := namedRows_eq_self clear.publishersNamed
  have stays : ∀ publisher ∈ current.publishers,
      publisher ∈ ((importAppConfig forms settings current bundle).migrateLegacyRoutes ids).publishers := by
    intro publisher member
    obtain ⟨k, here⟩ := List.mem_iff_getElem?.mp (publishers ▸ member)
    exact List.mem_of_getElem? (kept_publisher settled new here)
  refine ⟨stays, fun consumer member => ?_, ?_⟩
  · obtain ⟨k, here⟩ := List.mem_iff_getElem?.mp member
    have below := (List.getElem?_eq_some_iff.mp here).1
    have sent : (importAppConfig forms settings current bundle).consumers[k]? = some consumer := by
      show (mergeConsumers _ _)[k]? = _
      rw [mergeConsumers, mergeNamedEntries, namedRows_eq_self clear.consumersNamed, List.getElem?_append_left below, here]
    have first : (importAppConfig forms settings current bundle).consumers.take k = current.consumers.take k := by
      show (mergeConsumers _ _).take k = _
      rw [mergeConsumers, mergeNamedEntries, namedRows_eq_self clear.consumersNamed,
        List.take_append_of_le_length (Nat.le_of_lt below)]
    obtain ⟨id, there, keeps⟩ := migrated_consumer_eq new.fresh sent
    obtain rfl := keeps (first ▸ keepsId_of_nodup settled.consumerIds (settled.consumerIdsFull _ member) here)
    rw [migrateConsumerResponse_of (settled.responses consumer member)] at there
    obtain ⟨same, leads⟩ := kept_output distinct settled.publisherIds stays (clear.outputs consumer member)
    exact ⟨List.mem_of_getElem? (there.trans (by rw [same])), leads⟩
  · rintro j consumer here original inBundle (⟨full, name, output⟩ | refers)
    · have member := List.mem_of_getElem? here
      obtain ⟨unlike, first⟩ := clear.byId consumer member original inBundle ⟨full, name, output⟩
      obtain ⟨i, copy, atOriginal, atCopy, same⟩ := imported_byId new full unlike first
      obtain ⟨consumer', there, output'⟩ := imported_consumer new here output
      refine ⟨consumer', copy, there, ⟨i, atOriginal, atCopy⟩, ?_⟩
      rw [output', ← same, target_byId distinct (List.mem_of_getElem? atCopy)]
    · have member := List.mem_of_getElem? here
      obtain ⟨unlike, i, atOriginal, free⟩ := clear.byName consumer member original inBundle refers
      obtain ⟨-, name, publisherId, output, named, others⟩ := refers
      obtain ⟨id, atCopy, -⟩ := imported_publisher new atOriginal
      obtain ⟨consumer', there, output'⟩ := imported_consumer new here output
      have given : importedName current bundle i original = trim name := by
        rw [importedName, nextUniqueName, if_neg free, named]
      refine ⟨consumer', _, there, ⟨i, atOriginal, atCopy⟩, ?_⟩
      rw [output']
      refine target_byName distinct ?_ (List.mem_of_getElem? atCopy) given ?_
      · refine unknown_id new member output (fun publisher inside same => ?_) others
        exact unlike publisher inside name (same ▸ output)
      · intro other inside same
        exact imported_name_unique new atOriginal atCopy inside (same.trans given.symm)

theorem named_of_kept {ids : IdSupply} (new : NewIds current bundle forms ids settings)
    (kept : ImportKept current bundle ((importAppConfig forms settings current bundle).migrateLegacyRoutes ids)) :
    (∀ publisher ∈ current.publishers, jsTrim publisher.name ≠ []) ∧
      ∀ consumer ∈ current.consumers, jsTrim consumer.name ≠ [] := by
  constructor
  · intro publisher member
    have mentioned : publisher.id ∈ mentionedIds current bundle := publisher_mentioned member
    rcases mem_migrated_publishers (kept.publishers publisher member) with sent | ⟨n, generated⟩
    · obtain ⟨added, publishers, fresh⟩ := importAppConfig_publishers forms settings current bundle
      rw [publishers] at sent
      rcases List.mem_append.mp sent with merged | preset
      · rcases mem_mergeNamedEntries (fun _ _ => rfl) incoming_named merged with old | ⟨row, -, text, full, rfl⟩
        · exact (mem_namedRows.mp old).2
        · exact full
      · obtain ⟨-, -, n, made⟩ := fresh publisher preset
        exact absurd (made ▸ mentioned) (new.made n)
    · exact absurd (List.mem_append_right _ (generated ▸ mentioned)) (new.generated.unused n (Nat.zero_le n))
  · intro consumer member
    have mentioned : consumer.id ∈ mentionedIds current bundle := consumer_mentioned member
    rcases mem_migrated_consumers (kept.consumers consumer member).1 with ⟨original, sent, -, name⟩ | ⟨n, generated⟩
    · rw [name]
      rcases mem_mergeNamedEntries (fun _ _ => rfl) (fun _ inside => (mem_namedRows.mp inside).2) sent with
        old | ⟨row, -, text, full, rfl⟩
      · exact (mem_namedRows.mp old).2
      · exact full
    · exact absurd (List.mem_append_right _ (generated ▸ mentioned)) (new.generated.unused n (Nat.zero_le n))

theorem copy_place {ids : IdSupply} (new : NewIds current bundle forms ids settings) {i k : Nat} {copy other : PublisherClient}
    (here : ((importAppConfig forms settings current bundle).migrateLegacyRoutes ids).publishers[i]? = some copy)
    (there : ((importAppConfig forms settings current bundle).migrateLegacyRoutes ids).publishers[k]? = some other)
    (same : other = copy) : k = i := by
  subst same
  have nodup : ((importAppConfig forms settings current bundle).migrateLegacyRoutes ids).publishers.Nodup :=
    List.Nodup.of_map _ (finalPublishers new.fresh).distinct
  have below := (List.getElem?_eq_some_iff.mp there).1
  exact (List.getElem?_inj below nodup).mp (there.trans here.symm)

theorem clear_of_importKept (settled : current.Settled) (new : NewIds current bundle forms services.storage.ids settings)
    (accepted : planUpdate services (importAppConfig forms settings current bundle) = .ok plan)
    (kept : ImportKept current bundle plan.config) : ImportClear current bundle := by
  have migrated := (planUpdate_ok accepted).1
  have validated := @accepted_byName _ _ _ accepted
  rw [migrated] at kept validated
  have resolved := resolved_migrate new.fresh
  have distinct := resolved.publisherIds
  obtain ⟨publishersNamed, consumersNamed⟩ := named_of_kept new kept
  have apart : ∀ {i copy publisher}, copy = publisher → publisher ∈ current.publishers →
      ((importAppConfig forms settings current bundle).migrateLegacyRoutes services.storage.ids).publishers[
        (keptPublishers current).length + i]? ≠ some copy := by
    intro i copy publisher same member there
    have inside : publisher ∈ keptPublishers current := mem_namedRows.mpr ⟨member, publishersNamed publisher member⟩
    obtain ⟨k, here⟩ := List.mem_iff_getElem?.mp inside
    have below := (List.getElem?_eq_some_iff.mp here).1
    have place := copy_place new there (kept_publisher settled new here) same.symm
    omega
  refine ⟨publishersNamed, consumersNamed, ?_, ?_, ?_⟩
  · intro consumer member name publisherId output
    obtain ⟨inside, leads⟩ := kept.consumers consumer member
    have named := resolved.outputs consumer inside
    rw [output] at named leads
    cases publisherId with
    | none =>
      obtain ⟨publisher, there, same⟩ := validated inside output
      rw [unresolved_trimmed inside output] at same
      exact absurd same (named publisher there)
    | some id =>
      obtain ⟨publisher, there, rfl, rfl⟩ := named
      rw [(outputTarget_eq_some distinct).mpr ⟨there, _, rfl⟩] at leads
      obtain ⟨before, -⟩ := (outputTarget_eq_some settled.publisherIds).mp leads.symm
      exact ⟨publisher, before, rfl, rfl⟩
  · rintro consumer member original inBundle ⟨full, name, output⟩
    obtain ⟨j, here⟩ := List.mem_iff_getElem?.mp member
    obtain ⟨consumer', copy, atConsumer, ⟨i, atOriginal, atCopy⟩, leads⟩ :=
      kept.references j consumer here original inBundle (Or.inl ⟨full, name, output⟩)
    obtain ⟨consumer'', atConsumer', output'⟩ := imported_consumer new here output
    obtain rfl := Option.some.inj (atConsumer'.symm.trans atConsumer)
    rw [output'] at leads
    have unlike : ∀ publisher ∈ current.publishers, publisher.id ≠ original.id := by
      intro publisher before same
      rw [← same, target_byId distinct (kept.publishers publisher before)] at leads
      exact apart (Option.some.inj leads).symm before atCopy
    refine ⟨unlike, ?_⟩
    cases found : (incomingPublishers bundle).find? fun other => other.id == original.id with
    | none => exact absurd (List.find?_eq_none.mp found original (List.mem_of_getElem? atOriginal)) (by simp)
    | some first =>
      have same : first.id = original.id := by simpa using List.find?_some found
      obtain ⟨k, copy', atFirst, atCopy', kept'⟩ := @imported_byId _ _ _ _ _ new first (same ▸ full) (same ▸ unlike)
        (same ▸ found)
      rw [← same, ← kept', target_byId distinct (List.mem_of_getElem? atCopy')] at leads
      have place := copy_place new atCopy atCopy' (Option.some.inj leads)
      obtain rfl : k = i := by omega
      rw [← Option.some.inj (atFirst.symm.trans atOriginal)]
  · intro consumer member original inBundle refers
    obtain ⟨j, here⟩ := List.mem_iff_getElem?.mp member
    obtain ⟨consumer', copy, atConsumer, ⟨i, atOriginal, atCopy⟩, leads⟩ :=
      kept.references j consumer here original inBundle (Or.inr refers)
    obtain ⟨-, name, publisherId, output, named, others⟩ := refers
    obtain ⟨consumer'', atConsumer', output'⟩ := imported_consumer new here output
    obtain rfl := Option.some.inj (atConsumer'.symm.trans atConsumer)
    rw [output'] at leads
    have unlike : ∀ publisher ∈ current.publishers, publisherId ≠ some publisher.id := by
      rintro publisher before rfl
      rw [target_byId distinct (kept.publishers publisher before)] at leads
      exact apart (Option.some.inj leads).symm before atCopy
    refine ⟨fun publisher before name' same => ?_, i, atOriginal, ?_⟩
    · exact unlike publisher before (ConsumerOutputConfig.publisher.inj (output.symm.trans same)).2
    · obtain ⟨inside, byId | ⟨-, byName⟩⟩ := target_normalize distinct leads
      · exact absurd byId (unknown_id new member output unlike others copy inside)
      · obtain ⟨id, atCopy', -⟩ := imported_publisher new atOriginal
        obtain rfl := Option.some.inj (atCopy'.symm.trans atCopy)
        have given : importedName current bundle i original = original.name := byName.trans named
        rw [← given]
        exact nextUniqueName_not_mem _ _

/-- An accepted import keeps what was there, and leads every reference of the bundle to the imported publisher, exactly
when the workspace has names and resolved outputs and what the bundle refers to is still free. -/
theorem importAppConfig_kept_iff (settled : current.Settled)
    (new : NewIds current bundle forms services.storage.ids settings)
    (accepted : planUpdate services (importAppConfig forms settings current bundle) = .ok plan) :
    ImportKept current bundle plan.config ↔ ImportClear current bundle := by
  constructor
  · exact clear_of_importKept settled new accepted
  · intro clear
    rw [(planUpdate_ok accepted).1]
    exact importKept_of_clear settled new clear

end Main

end Import

def strokeServices : Services :=
  { workingServices with storage := { workingServices.storage with ids := tallyIds } }

def plainPresets : PresetForms where
  createDefaultRawPublisherEndpoint _ := .new .null
  applyLegacyRequest endpoint _ := endpoint
  createLocalEntityId n := "local_" ++ ofNat n

def forwarding (name publisherId consumerId : Text) : AppConfig where
  publishers := [{ id := publisherId, name, endpoint := topicEndpoint "sink" }]
  consumers := [{ id := consumerId, name, endpoint := topicEndpoint "source", output := .publisher name (some publisherId) }]

def exportOf (config : AppConfig) : Bundle where
  publishers := config.publishers
  consumers := config.consumers

theorem forwarding_settled (name : Text) : (forwarding name "p1" "c1").Settled where
  routes := rfl
  publisherIds := List.nodup_singleton _
  publisherIdsFull publisher member := by
    obtain rfl := List.mem_singleton.mp member
    show trim ("p1" : Text) ≠ []
    decide
  consumerIds := List.nodup_singleton _
  consumerIdsFull consumer member := by
    obtain rfl := List.mem_singleton.mp member
    show trim ("c1" : Text) ≠ []
    decide
  responses consumer member output := by
    obtain rfl := List.mem_singleton.mp member
    cases output
  tab := rfl

theorem forwarding_newIds : NewIds (forwarding "orders" "p1" "c1") (exportOf (forwarding "audit" "p2" "c2")) plainPresets
    tallyIds {} where
  made n := by
    simp [mentionedIds, together, AppConfig.entityIds, AppConfig.referencedIds, forwarding, exportOf, plainPresets, lit]
  generated := tallyIds_fresh (by decide +kernel)

theorem importAppConfig_kept_forwarding :
    ∃ plan, planUpdate strokeServices (importAppConfig plainPresets {} (forwarding "orders" "p1" "c1")
        (exportOf (forwarding "audit" "p2" "c2"))) = .ok plan ∧
      ImportKept (forwarding "orders" "p1" "c1") (exportOf (forwarding "audit" "p2" "c2")) plan.config := by
  have accepted : planUpdate strokeServices (importAppConfig plainPresets {} (forwarding "orders" "p1" "c1")
      (exportOf (forwarding "audit" "p2" "c2"))) = .ok _ := rfl
  refine ⟨_, accepted, (importAppConfig_kept_iff (forwarding_settled "orders") forwarding_newIds accepted).mpr ?_⟩
  refine ⟨?_, ?_, ?_, ?_, ?_⟩
  · intro publisher member
    obtain rfl := List.mem_singleton.mp member
    decide
  · intro consumer member
    obtain rfl := List.mem_singleton.mp member
    decide
  · intro consumer member name publisherId output
    obtain rfl := List.mem_singleton.mp member
    obtain ⟨rfl, rfl⟩ := ConsumerOutputConfig.publisher.inj output
    exact ⟨_, List.mem_cons_self, rfl, rfl⟩
  · intro consumer _ original member _
    obtain rfl := List.mem_singleton.mp member
    refine ⟨fun publisher inside => ?_, rfl⟩
    obtain rfl := List.mem_singleton.mp inside
    decide
  · rintro consumer member original inside ⟨-, name, publisherId, output, -, others⟩
    obtain rfl := List.mem_singleton.mp (mem_namedRows.mp member).1
    obtain ⟨-, rfl⟩ := ConsumerOutputConfig.publisher.inj output
    obtain rfl := List.mem_singleton.mp inside
    exact absurd rfl (others _ List.mem_cons_self (by decide))

/-- A workspace that imports its own export: the second consumer forwards to the first publisher. -/
theorem reimported_reference_lost :
    ∃ plan, planUpdate strokeServices (importAppConfig plainPresets {} (forwarding "orders" "p1" "c1")
        (exportOf (forwarding "orders" "p1" "c1"))) = .ok plan ∧
      ¬ ImportKept (forwarding "orders" "p1" "c1") (exportOf (forwarding "orders" "p1" "c1")) plan.config := by
  refine ⟨_, rfl, fun kept => ?_⟩
  obtain ⟨consumer, copy, atConsumer, ⟨i, here, atCopy⟩, leads⟩ := kept.references 0 _ rfl _ List.mem_cons_self
    (Or.inl ⟨by decide, _, rfl⟩)
  have below := (List.getElem?_eq_some_iff.mp here).1
  have single : (incomingPublishers (exportOf (forwarding "orders" "p1" "c1"))).length = 1 := rfl
  obtain rfl : i = 0 := by omega
  cases atConsumer
  cases atCopy
  have name := congrArg (Option.map PublisherClient.name) leads
  revert name
  decide

end MqBridge.Workspace
