import MqBridgeApp.Config.EntityIds
import MqBridgeApp.Ui.RouteSync

/-!
# Runtime keys and lookups

A request names a consumer by its runtime key or by its name, and the first consumer that matches is
taken. Ids differ as they are written, but keys are compared without the blanks around them.
-/

namespace MqBridge.Ui
open Text Config

/-- The consumer whose status is reported, with the handle it is read from. -/
def consumerStatus (app : UiApp) (lookup : Text) : Option (ConsumerConfig × Option RouteHandle) :=
  (findByLookup app.config.consumers lookup).map fun consumer =>
    (consumer, app.handles.lookup (consumerRuntimeKey consumer))

/-- The topic and the capacity of the capture that messages are read from. -/
def getMessagesCapture (config : AppConfig) (target : Text) : Text × Option Nat :=
  match findByLookup config.consumers target with
  | some consumer => ("ui_collector_" ++ consumerRuntimeKey consumer, some consumer.messageCapture.keepLast)
  | none => ("ui_collector_" ++ target, none)

/-- Different consumers have different keys, and a key leads every request to its consumer. -/
structure KeysIdentify (services : Services) (app : UiApp) : Prop where
  distinct : (app.config.consumers.map consumerRuntimeKey).Nodup
  start : ∀ consumer ∈ app.config.consumers,
    let started := startUiCollectorRoute services consumer app.config.publishers app.handles
    startConsumer services app (consumerRuntimeKey consumer) =
      ({ app with handles := started.1 }, started.2.map fun _ => true)
  stop : ∀ consumer ∈ app.config.consumers,
    (findByLookup app.config.consumers (consumerRuntimeKey consumer)).map consumerRuntimeKey =
        some (consumerRuntimeKey consumer) ∧
      stopKey app.config (consumerRuntimeKey consumer) = consumerRuntimeKey consumer
  status : ∀ consumer ∈ app.config.consumers, consumerStatus app (consumerRuntimeKey consumer) =
    some (consumer, app.handles.lookup (consumerRuntimeKey consumer))
  messages : ∀ consumer ∈ app.config.consumers, getMessagesCapture app.config (consumerRuntimeKey consumer) =
    ("ui_collector_" ++ consumerRuntimeKey consumer, some consumer.messageCapture.keepLast)

/-- A lookup by the key of `consumer` does not stop at `other`. -/
def PassesOver (other consumer : ConsumerConfig) : Prop :=
  consumerRuntimeKey other ≠ consumerRuntimeKey consumer ∧ other.name ≠ consumerRuntimeKey consumer

theorem findByLookup_cons {first : ConsumerConfig} {rest : List ConsumerConfig} {consumer : ConsumerConfig}
    (passes : PassesOver first consumer) :
    findByLookup (first :: rest) (consumerRuntimeKey consumer) = findByLookup rest (consumerRuntimeKey consumer) := by
  have misses : consumerMatchesLookup first (consumerRuntimeKey consumer) = false := by
    simp [consumerMatchesLookup, passes.1, passes.2]
  rw [findByLookup, List.find?_cons_of_neg (by simp [misses])]
  rfl

theorem findByLookup_cons_found {first : ConsumerConfig} {rest : List ConsumerConfig} {lookup : Text}
    (found : consumerMatchesLookup first lookup = true) : findByLookup (first :: rest) lookup = some first := by
  rw [findByLookup, List.find?_cons, found]

theorem consumerMatchesLookup_self (consumer : ConsumerConfig) :
    consumerMatchesLookup consumer (consumerRuntimeKey consumer) = true := by
  simp [consumerMatchesLookup]

/-- Every key is its consumer's alone and found by it exactly when every lookup passes over the
consumers before. -/
theorem lookups_iff_pairwise (consumers : List ConsumerConfig) :
    ((consumers.map consumerRuntimeKey).Nodup ∧
        ∀ consumer ∈ consumers, findByLookup consumers (consumerRuntimeKey consumer) = some consumer) ↔
      consumers.Pairwise PassesOver := by
  induction consumers with
  | nil => simp
  | cons first rest ih =>
    rw [List.pairwise_cons, ← ih]
    constructor
    · rintro ⟨distinct, found⟩
      obtain ⟨alone, distinct⟩ := List.nodup_cons.mp distinct
      have passes : ∀ consumer ∈ rest, PassesOver first consumer := by
        intro consumer member
        refine ⟨fun same => alone (same ▸ List.mem_map_of_mem member), fun same => ?_⟩
        have here := found consumer (List.mem_cons_of_mem _ member)
        have stops : consumerMatchesLookup first (consumerRuntimeKey consumer) = true := by
          simp [consumerMatchesLookup, same]
        rw [findByLookup_cons_found stops] at here
        exact alone (Option.some.inj here ▸ List.mem_map_of_mem member)
      refine ⟨passes, distinct, fun consumer member => ?_⟩
      rw [← findByLookup_cons (passes consumer member)]
      exact found consumer (List.mem_cons_of_mem _ member)
    · rintro ⟨passes, distinct, found⟩
      refine ⟨List.nodup_cons.mpr ⟨fun member => ?_, distinct⟩, fun consumer member => ?_⟩
      · obtain ⟨consumer, inside, same⟩ := List.mem_map.mp member
        exact (passes consumer inside).1 same.symm
      · rcases List.mem_cons.mp member with rfl | inside
        · exact findByLookup_cons_found (consumerMatchesLookup_self consumer)
        · rw [findByLookup_cons (passes consumer inside)]
          exact found consumer inside

theorem keysIdentify_iff_pairwise (services : Services) (app : UiApp) :
    KeysIdentify services app ↔ app.config.consumers.Pairwise PassesOver := by
  rw [← lookups_iff_pairwise]
  constructor
  · intro identify
    refine ⟨identify.distinct, fun consumer member => ?_⟩
    have status := identify.status consumer member
    obtain ⟨found, here, same⟩ := Option.map_eq_some_iff.mp status
    rw [here, (Prod.mk.inj same).1]
  · rintro ⟨distinct, found⟩
    refine ⟨distinct, ?_, ?_, ?_, ?_⟩ <;> intro consumer member
    · rw [startConsumer, found consumer member]
    · rw [stopKey, found consumer member]
      exact ⟨rfl, rfl⟩
    · rw [consumerStatus, found consumer member]
      rfl
    · rw [getMessagesCapture, found consumer member]

/-! ### After an update -/

theorem planUpdate_ok {services : Services} {new : AppConfig} {plan : UpdatePlan}
    (planned : planUpdate services new = .ok plan) :
    plan.config = new.migrateLegacyRoutes services.storage.ids ∧
      plan.consumers = plan.config.consumers.map normalizeConsumer := by
  unfold planUpdate at planned
  split at planned
  · cases planned
  · dsimp only at planned
    split at planned
    · cases planned
    · split at planned
      · cases planned
      · obtain rfl := Except.ok.inj planned
        exact ⟨rfl, rfl⟩

/-- The ids of a configuration, as they are written and as keys. -/
def takenKeys (config : AppConfig) : List Text :=
  config.entityIds ++ config.consumers.map fun consumer => trim consumer.id

/-- No consumer has, up to the blanks around it, the id or the name that a later consumer keeps as its id. -/
def KeysApart (consumers : List ConsumerConfig) : Prop :=
  ∀ before consumer after, consumers = before ++ consumer :: after → KeepsId ConsumerConfig.id [] before consumer →
    ∀ other ∈ before, trim other.id ≠ trim consumer.id ∧ trim other.name ≠ trim consumer.id

section Update
variable {ids : IdSupply} {new : AppConfig}

theorem keepsId_migrateConsumerResponse {before : List ConsumerConfig} {consumer : ConsumerConfig} :
    KeepsId ConsumerConfig.id [] (before.map migrateConsumerResponse) (migrateConsumerResponse consumer) ↔
      KeepsId ConsumerConfig.id [] before consumer := by
  simp only [KeepsId, List.forall_mem_map, (migrateConsumerResponse_id _).1]

/-- A consumer there was keeps its name, and either keeps its id or is given one. -/
theorem identified_old (fresh : ids.Fresh new.entityIds) {i : Nat} {consumer : ConsumerConfig}
    (here : new.consumers[i]? = some consumer) :
    ∃ entity, (new.identified ids)[i]? = some entity ∧ entity.name = consumer.name ∧
      (KeepsId ConsumerConfig.id [] (new.consumers.take i) consumer → entity.id = consumer.id) ∧
      (¬ KeepsId ConsumerConfig.id [] (new.consumers.take i) consumer → ∃ n, entity.id = ids n) := by
  obtain ⟨-, newC, -, split, -⟩ := drained_adds ids new
  have long : i < new.consumers.length := (List.getElem?_eq_some_iff.mp here).1
  have there : (new.drained ids).2.1[i]? = some (migrateConsumerResponse consumer) := by
    rw [split, List.getElem?_append_left (by simpa using long), List.getElem?_map, here]
    rfl
  have before : (new.drained ids).2.1.take i = (new.consumers.take i).map migrateConsumerResponse := by
    rw [split, List.take_append_of_le_length (by simpa using Nat.le_of_lt long), List.map_take]
  obtain ⟨entity, found, keeps, replaced⟩ := @ensureIds_getElem? _ ConsumerConfig.id (fun id entity => { entity with id })
    ids _ [] (new.withIds ids).2 i _ there (consumers_unused fresh)
  rw [before, keepsId_migrateConsumerResponse] at keeps replaced
  obtain ⟨sameId, sameName⟩ := migrateConsumerResponse_id consumer
  refine ⟨entity, found, ?_, fun kept => ?_, fun given => ?_⟩
  · by_cases kept : KeepsId ConsumerConfig.id [] (new.consumers.take i) consumer
    · rw [keeps kept, sameName]
    · obtain ⟨n, -, rfl⟩ := replaced kept
      exact sameName
  · rw [keeps kept, sameId]
  · obtain ⟨n, -, rfl⟩ := replaced given
    exact ⟨n, rfl⟩

theorem identified_new (fresh : ids.Fresh new.entityIds) {i : Nat} {entity : ConsumerConfig}
    (here : (new.identified ids)[i]? = some entity) (later : new.consumers.length ≤ i) : ∃ n, entity.id = ids n := by
  obtain ⟨newP, newC, -, split, given⟩ := drained_adds ids new
  have inside : i < (new.drained ids).2.1.length := by
    rw [← @ensureIds_length _ ConsumerConfig.id (fun id entity => { entity with id }) ids (new.drained ids).2.1 []
      (new.withIds ids).2]
    exact (List.getElem?_eq_some_iff.mp here).1
  obtain ⟨drained, there⟩ : ∃ drained, (new.drained ids).2.1[i]? = some drained :=
    ⟨_, List.getElem?_eq_getElem inside⟩
  have added : drained ∈ newC := by
    have place := there
    rw [split, List.getElem?_append_right (by simpa using later)] at place
    exact List.mem_of_getElem? place
  obtain ⟨m, -, generated⟩ := given _ (List.mem_append_right _ (List.mem_map_of_mem added))
  obtain ⟨entity', found, keeps, replaced⟩ := @ensureIds_getElem? _ ConsumerConfig.id (fun id entity => { entity with id })
    ids _ [] (new.withIds ids).2 i _ there (consumers_unused fresh)
  obtain rfl := Option.some.inj (found.symm.trans here)
  by_cases kept : KeepsId ConsumerConfig.id [] ((new.drained ids).2.1.take i) drained
  · exact ⟨m, by rw [keeps kept, generated]⟩
  · obtain ⟨n, -, rfl⟩ := replaced kept
    exact ⟨n, rfl⟩

theorem runtimeKey_normalize {consumer : ConsumerConfig} (full : trim consumer.id ≠ []) :
    consumerRuntimeKey (normalizeConsumer consumer) = trim consumer.id := by
  show (if (trim consumer.id).isEmpty then _ else _) = _
  rw [if_neg (by simpa using full)]
  rfl

theorem finalConsumers_pairwise_iff (fresh : ids.Fresh new.entityIds) :
    ((new.migrateLegacyRoutes ids).consumers.map normalizeConsumer).Pairwise PassesOver ↔
      (new.identified ids).Pairwise fun other consumer =>
        trim other.id ≠ trim consumer.id ∧ trim other.name ≠ trim consumer.id := by
  have full := (resolved_migrate fresh).consumerIdsFull
  rw [migrateLegacyRoutes_eq] at full ⊢
  rw [List.pairwise_map, List.pairwise_map]
  apply List.Pairwise.iff_of_mem
  intro other consumer inside there
  have otherFull := full _ (List.mem_map_of_mem inside)
  have consumerFull := full _ (List.mem_map_of_mem there)
  unfold PassesOver
  rw [runtimeKey_normalize otherFull, runtimeKey_normalize consumerFull]
  exact Iff.rfl

theorem identified_cases (fresh : ids.Fresh new.entityIds) {i : Nat} {entity : ConsumerConfig}
    (here : (new.identified ids)[i]? = some entity) :
    (∃ n, entity.id = ids n) ∨ ∃ consumer, new.consumers[i]? = some consumer ∧
      KeepsId ConsumerConfig.id [] (new.consumers.take i) consumer ∧ entity.id = consumer.id := by
  by_cases long : i < new.consumers.length
  · obtain ⟨consumer, there⟩ : ∃ consumer, new.consumers[i]? = some consumer := ⟨_, List.getElem?_eq_getElem long⟩
    obtain ⟨entity', found, -, keeps, replaced⟩ := identified_old fresh there
    obtain rfl := Option.some.inj (found.symm.trans here)
    by_cases kept : KeepsId ConsumerConfig.id [] (new.consumers.take i) consumer
    · exact .inr ⟨consumer, there, kept, keeps kept⟩
    · exact .inl (replaced kept)
  · exact .inl (identified_new fresh here (Nat.le_of_not_lt long))

theorem identified_pairwise_iff (fresh : ids.Fresh (takenKeys new))
    (unlike : ∀ consumer ∈ (new.migrateLegacyRoutes ids).consumers, ∀ n, trim consumer.name ≠ ids n) :
    ((new.identified ids).Pairwise fun other consumer =>
        trim other.id ≠ trim consumer.id ∧ trim other.name ≠ trim consumer.id) ↔ KeysApart new.consumers := by
  have freshIds : ids.Fresh new.entityIds :=
    ⟨fresh.toProper, fresh.unused.mono (Nat.le_refl _) fun _ => List.mem_append_left _⟩
  have otherKeys : ∀ consumer ∈ new.consumers, ∀ n, ids n ≠ trim consumer.id := by
    intro consumer member n same
    exact fresh.unused n (Nat.zero_le n) (List.mem_append_right _ (List.mem_map.mpr ⟨consumer, member, same.symm⟩))
  have otherNames : ∀ entity ∈ new.identified ids, ∀ n, trim entity.name ≠ ids n := by
    intro entity member
    rw [migrateLegacyRoutes_eq] at unlike
    have named := unlike _ (List.mem_map_of_mem member)
    exact named
  rw [List.pairwise_iff_getElem]
  constructor
  · rintro apart before consumer after split keeps other member
    have place : new.consumers[before.length]? = some consumer := by rw [split]; simp
    have front : new.consumers.take before.length = before := by rw [split]; simp
    obtain ⟨entity, found, -, kept, -⟩ := identified_old freshIds place
    obtain ⟨long, here⟩ := List.getElem?_eq_some_iff.mp found
    have sameId := kept (front.symm ▸ keeps)
    -- a consumer before it with an id has the key of the first one with that id
    have passes : ∀ i first, before[i]? = some first →
        (KeepsId ConsumerConfig.id [] (before.take i) first → trim first.id ≠ trim consumer.id) ∧
          trim first.name ≠ trim consumer.id := by
      intro i first there
      have short : i < before.length := (List.getElem?_eq_some_iff.mp there).1
      have inNew : new.consumers[i]? = some first := by rw [split, List.getElem?_append_left short, there]
      have inFront : new.consumers.take i = before.take i := by
        rw [split, List.take_append_of_le_length (Nat.le_of_lt short)]
      obtain ⟨earlier, foundEarlier, sameName, keptEarlier, -⟩ := identified_old freshIds inNew
      obtain ⟨longEarlier, hereEarlier⟩ := List.getElem?_eq_some_iff.mp foundEarlier
      have both := apart i before.length longEarlier long short
      rw [here, hereEarlier, sameId, sameName] at both
      refine ⟨fun first_ => ?_, both.2⟩
      rw [← keptEarlier (inFront.symm ▸ first_)]
      exact both.1
    obtain ⟨i, there⟩ := List.mem_iff_getElem?.mp member
    refine ⟨fun same => ?_, (passes i other there).2⟩
    have full : trim other.id ≠ [] := same ▸ keeps.1
    obtain ⟨k, first, -, firstThere, equal, firstKeeps⟩ := exists_keepsId there full
    exact (passes k first firstThere).1 firstKeeps (equal ▸ same)
  · intro apart i j longI longJ order
    have foundI := List.getElem?_eq_getElem longI
    have foundJ := List.getElem?_eq_getElem longJ
    have memberI := List.getElem_mem longI
    have distinct : ((new.identified ids).map (·.id)).Nodup := by
      have ids_ := (resolved_migrate freshIds).consumerIds
      rw [migrateLegacyRoutes_eq, List.map_map] at ids_
      exact ids_
    have differ : (new.identified ids)[i].id ≠ (new.identified ids)[j].id := by
      have pairs := List.pairwise_iff_getElem.mp distinct i j (by simpa using longI) (by simpa using longJ) order
      simpa using pairs
    rcases identified_cases freshIds foundJ with ⟨n, given⟩ | ⟨consumer, there, keeps, same⟩
    · rw [given, fresh.trimmed]
      refine ⟨?_, otherNames _ memberI n⟩
      rcases identified_cases freshIds foundI with ⟨m, givenI⟩ | ⟨first, thereI, -, sameI⟩
      · rw [givenI, fresh.trimmed, ← givenI, ← given]
        exact differ
      · rw [sameI]
        exact Ne.symm (otherKeys first (List.mem_of_getElem? thereI) n)
    · rw [same]
      have long : j < new.consumers.length := (List.getElem?_eq_some_iff.mp there).1
      have split : new.consumers = new.consumers.take j ++ consumer :: new.consumers.drop (j + 1) := by
        rw [← (List.getElem?_eq_some_iff.mp there).2, List.getElem_cons_drop, List.take_append_drop]
      have shortI : i < new.consumers.length := Nat.lt_trans order long
      have thereI := List.getElem?_eq_getElem shortI
      have memberI' : new.consumers[i] ∈ new.consumers.take j :=
        List.mem_iff_getElem?.mpr ⟨i, by rw [List.getElem?_take_of_lt order, thereI]⟩
      obtain ⟨idApart, nameApart⟩ := apart _ consumer _ split keeps _ memberI'
      obtain ⟨entity, found, sameName, kept, replaced⟩ := identified_old freshIds thereI
      obtain rfl := Option.some.inj (found.symm.trans foundI)
      rw [sameName]
      refine ⟨?_, nameApart⟩
      by_cases keepsI : KeepsId ConsumerConfig.id [] (new.consumers.take i) new.consumers[i]
      · rw [kept keepsI]
        exact idApart
      · obtain ⟨n, given⟩ := replaced keepsI
        rw [given, fresh.trimmed]
        exact otherKeys consumer (List.mem_of_getElem? there) n

end Update

/-- After an update, keys identify consumers exactly when the ids that are kept are apart as keys, and
no name comes before a consumer with that id. -/
theorem keysIdentify_iff (services : Services) (app after : UiApp) (new : AppConfig)
    (accepted : updateConfig services app new = (after, .ok ()))
    (fresh : services.storage.ids.Fresh (takenKeys new))
    (unlike : ∀ consumer ∈ (new.migrateLegacyRoutes services.storage.ids).consumers, ∀ n,
      trim consumer.name ≠ services.storage.ids n) :
    KeysIdentify services after ↔ KeysApart new.consumers := by
  have freshIds : services.storage.ids.Fresh new.entityIds :=
    ⟨fresh.toProper, fresh.unused.mono (Nat.le_refl _) fun _ => List.mem_append_left _⟩
  obtain ⟨plan, planned, config, -, -⟩ := updateConfig_ok accepted
  obtain ⟨migrated, normalized⟩ := planUpdate_ok planned
  have consumers : after.config.consumers =
      (new.migrateLegacyRoutes services.storage.ids).consumers.map normalizeConsumer := by
    rw [config, ← migrated, ← normalized]
    rfl
  calc KeysIdentify services after
      ↔ after.config.consumers.Pairwise PassesOver := keysIdentify_iff_pairwise services after
    _ ↔ (new.identified services.storage.ids).Pairwise fun other consumer =>
          trim other.id ≠ trim consumer.id ∧ trim other.name ≠ trim consumer.id := by
        rw [consumers, finalConsumers_pairwise_iff freshIds]
    _ ↔ KeysApart new.consumers := identified_pairwise_iff fresh unlike

def tallyServices : Services :=
  { workingServices with storage := { workingServices.storage with ids := tallyIds } }

def emptyApp : UiApp where
  config := {}
  handles := []
  file := none
  storageSecurity := .null

def crossedConfig : AppConfig where
  consumers := [{ id := "c1", name := "c2", endpoint := topicEndpoint "orders" },
    { id := "c2", name := "audit", endpoint := topicEndpoint "audit" }]
  configSecurity := some { mode := .unencrypted }

def pairedConfig : AppConfig where
  consumers := [forwardingConsumer,
    { id := "c2", name := "events", endpoint := topicEndpoint "events", output := .publisher "vault" (some "p2") }]
  publishers := [{ id := "p1", name := "sink", endpoint := topicEndpoint "audit" },
    { id := "p2", name := "vault", endpoint := topicEndpoint "archive" }]
  configSecurity := some { mode := .unencrypted }

theorem paired_unlike : ∀ consumer ∈ (pairedConfig.migrateLegacyRoutes tallyIds).consumers,
    ∀ n, trim consumer.name ≠ tallyIds n := by
  intro consumer member n same
  have names : (pairedConfig.migrateLegacyRoutes tallyIds).consumers.map (fun consumer => trim consumer.name) =
      (["orders", "events"] : List Text) := rfl
  have name : trim consumer.name ∈ (["orders", "events"] : List Text) := names ▸ List.mem_map_of_mem member
  have strokes : (["orders", "events"] : List Text).all (fun name => !name.contains 'i') = true := by decide
  have stroke : 'i' ∈ trim consumer.name := same ▸ List.mem_replicate.mpr ⟨Nat.succ_ne_zero n, rfl⟩
  have without := List.all_eq_true.mp strokes _ name
  rw [List.contains_iff_mem.mpr stroke] at without
  cases without

theorem keysIdentify_iff_paired :
    KeysIdentify tallyServices (updateConfig tallyServices emptyApp pairedConfig).1 ↔ KeysApart pairedConfig.consumers :=
  keysIdentify_iff tallyServices emptyApp _ _ rfl (tallyIds_fresh (by decide)) paired_unlike

theorem crossed_name_starts_other_consumer :
    (updateConfig tallyServices emptyApp crossedConfig).2 = .ok () ∧
      ¬ KeysIdentify tallyServices (updateConfig tallyServices emptyApp crossedConfig).1 := by
  refine ⟨rfl, fun identify => ?_⟩
  rw [keysIdentify_iff_pairwise] at identify
  obtain ⟨passes, -⟩ := List.pairwise_cons.mp identify
  exact (passes _ List.mem_cons_self).2 (by decide)

end MqBridge.Ui
