import MqBridgeApp.Config.Migrate
import MqBridgeApp.Lib.Assoc
import MqBridgeApp.Lib.Lists

/-!
# Entities and their ids

What migration makes of a configuration: every publisher and every consumer has an id of its own, every
output names the publisher it refers to, and migrating again changes nothing.
-/

namespace MqBridge.Config
open Text

/-- Generated ids differ from each other, and no blanks are around them. -/
structure IdSupply.Proper (ids : IdSupply) : Prop where
  injective : Function.Injective ids
  trimmed : ∀ n, trim (ids n) = ids n
  full : ∀ n, ids n ≠ []

/-- None of the ids generated from `used` on is taken. -/
def IdSupply.Unused (ids : IdSupply) (used : Nat) (taken : List Text) : Prop := ∀ n, used ≤ n → ids n ∉ taken

structure IdSupply.Fresh (ids : IdSupply) (taken : List Text) : Prop extends ids.Proper where
  unused : ids.Unused 0 taken

theorem IdSupply.Unused.mono {ids : IdSupply} {used later : Nat} {taken fewer : List Text}
    (unused : ids.Unused used taken) (least : used ≤ later) (subset : ∀ id ∈ fewer, id ∈ taken) :
    ids.Unused later fewer :=
  fun n from_ member => unused n (Nat.le_trans least from_) (subset _ member)

theorem IdSupply.Unused.of_cons {ids : IdSupply} {used : Nat} {id : Text} {taken : List Text}
    (unused : ids.Unused used (id :: taken)) : ids.Unused used taken :=
  unused.mono (Nat.le_refl _) fun _ => List.mem_cons_of_mem _

theorem IdSupply.Unused.cons {ids : IdSupply} {used : Nat} {id : Text} {taken : List Text}
    (unused : ids.Unused used taken) (other : ∀ n, used ≤ n → ids n ≠ id) : ids.Unused used (id :: taken) := by
  intro n least member
  rcases List.mem_cons.mp member with same | old
  · exact other n least same
  · exact unused n least old

/-! ### Giving out ids -/

section Ids
variable {α : Type*} {id : α → Text} {setId : Text → α → α} {ids : IdSupply}

/-- An entity keeps its id if it has one and no entity before it has the same. -/
def KeepsId (id : α → Text) (known : List Text) (before : List α) (entity : α) : Prop :=
  trim (id entity) ≠ [] ∧ id entity ∉ known ∧ ∀ other ∈ before, id other ≠ id entity

theorem ensureIds_cons_kept {entity : α} {rest : List α} {known : List Text} {used : Nat}
    (kept : trim (id entity) ≠ [] ∧ id entity ∉ known) :
    ensureIds id setId ids (entity :: rest) known used =
      (entity :: (ensureIds id setId ids rest (id entity :: known) used).1,
        (ensureIds id setId ids rest (id entity :: known) used).2) := by
  rw [ensureIds, if_neg (by simpa using kept)]

theorem ensureIds_cons_replaced {entity : α} {rest : List α} {known : List Text} {used : Nat}
    (replaced : ¬(trim (id entity) ≠ [] ∧ id entity ∉ known)) :
    ensureIds id setId ids (entity :: rest) known used =
      (setId (ids used) entity :: (ensureIds id setId ids rest (ids used :: known) (used + 1)).1,
        (ensureIds id setId ids rest (ids used :: known) (used + 1)).2) := by
  rw [ensureIds, if_pos (by simp; tauto)]

theorem ensureIds_length (entities : List α) (known : List Text) (used : Nat) :
    (ensureIds id setId ids entities known used).1.length = entities.length := by
  induction entities generalizing known used with
  | nil => rfl
  | cons entity rest ih =>
    by_cases kept : trim (id entity) ≠ [] ∧ id entity ∉ known
    · rw [ensureIds_cons_kept kept, List.length_cons, List.length_cons, ih]
    · rw [ensureIds_cons_replaced kept, List.length_cons, List.length_cons, ih]

theorem ensureIds_used_le (entities : List α) (known : List Text) (used : Nat) :
    used ≤ (ensureIds id setId ids entities known used).2 := by
  induction entities generalizing known used with
  | nil => exact Nat.le_refl _
  | cons entity rest ih =>
    by_cases kept : trim (id entity) ≠ [] ∧ id entity ∉ known
    · rw [ensureIds_cons_kept kept]
      exact ih _ _
    · rw [ensureIds_cons_replaced kept]
      exact Nat.le_trans (Nat.le_succ used) (ih _ _)

theorem mem_ensureIds {entities : List α} {known : List Text} {used : Nat} {entity' : α}
    (member : entity' ∈ (ensureIds id setId ids entities known used).1) :
    ∃ entity ∈ entities, entity' = entity ∨ ∃ n, entity' = setId (ids n) entity := by
  induction entities generalizing known used with
  | nil => cases member
  | cons entity rest ih =>
    by_cases kept : trim (id entity) ≠ [] ∧ id entity ∉ known
    · rw [ensureIds_cons_kept kept] at member
      rcases List.mem_cons.mp member with rfl | later
      · exact ⟨entity', List.mem_cons_self, .inl rfl⟩
      · obtain ⟨original, inside, same⟩ := ih later
        exact ⟨original, List.mem_cons_of_mem _ inside, same⟩
    · rw [ensureIds_cons_replaced kept] at member
      rcases List.mem_cons.mp member with rfl | later
      · exact ⟨entity, List.mem_cons_self, .inr ⟨used, rfl⟩⟩
      · obtain ⟨original, inside, same⟩ := ih later
        exact ⟨original, List.mem_cons_of_mem _ inside, same⟩

/-- What becomes of the entity at a place. -/
theorem ensureIds_getElem? {entities : List α} {known : List Text} {used i : Nat} {entity : α}
    (here : entities[i]? = some entity) (unused : ids.Unused used (entities.map id)) :
    ∃ entity', (ensureIds id setId ids entities known used).1[i]? = some entity' ∧
      (KeepsId id known (entities.take i) entity → entity' = entity) ∧
      (¬ KeepsId id known (entities.take i) entity → ∃ n, used ≤ n ∧ entity' = setId (ids n) entity) := by
  induction entities generalizing known used i with
  | nil => cases here
  | cons first rest ih =>
    have later : ids.Unused used (rest.map id) := unused.of_cons
    cases i with
    | zero =>
      obtain rfl := Option.some.inj here
      by_cases kept : trim (id first) ≠ [] ∧ id first ∉ known
      · rw [ensureIds_cons_kept kept]
        exact ⟨first, rfl, fun _ => rfl, fun replaced => absurd ⟨kept.1, kept.2, nofun⟩ replaced⟩
      · rw [ensureIds_cons_replaced kept]
        exact ⟨_, rfl, fun keeps => absurd ⟨keeps.1, keeps.2.1⟩ kept, fun _ => ⟨used, Nat.le_refl _, rfl⟩⟩
    | succ i =>
      have there : rest[i]? = some entity := here
      by_cases kept : trim (id first) ≠ [] ∧ id first ∉ known
      · obtain ⟨entity', found, keeps, replaced⟩ := @ih (id first :: known) used i there later
        have same : KeepsId id (id first :: known) (rest.take i) entity ↔
            KeepsId id known ((first :: rest).take (i + 1)) entity := by
          simp only [KeepsId, List.take_succ_cons, List.mem_cons, forall_eq_or_imp]
          tauto
        rw [ensureIds_cons_kept kept]
        exact ⟨entity', found, fun h => keeps (same.mpr h), fun h => replaced (fun k => h (same.mp k))⟩
      · obtain ⟨entity', found, keeps, replaced⟩ := @ih (ids used :: known) (used + 1) i there
          (later.mono (Nat.le_succ used) fun _ member => member)
        have other : ids used ≠ id entity := by
          intro equal
          exact later used (Nat.le_refl _) (List.mem_map.mpr ⟨entity, List.mem_of_getElem? there, equal.symm⟩)
        have same : KeepsId id (ids used :: known) (rest.take i) entity ↔
            KeepsId id known ((first :: rest).take (i + 1)) entity := by
          have blank : trim (id first) = [] ∨ id first ∈ known := by tauto
          simp only [KeepsId, List.take_succ_cons, List.mem_cons, forall_eq_or_imp, not_or]
          constructor
          · rintro ⟨full, ⟨-, new⟩, apart⟩
            refine ⟨full, new, ?_, apart⟩
            intro equal
            rcases blank with empty | old
            · exact full (equal ▸ empty)
            · exact new (equal ▸ old)
          · rintro ⟨full, new, -, apart⟩
            exact ⟨full, ⟨Ne.symm other, new⟩, apart⟩
        rw [ensureIds_cons_replaced kept]
        refine ⟨entity', found, fun h => keeps (same.mpr h), fun h => ?_⟩
        obtain ⟨n, least, given⟩ := replaced (fun k => h (same.mp k))
        exact ⟨n, Nat.le_of_succ_le least, given⟩

/-- The first entity with an id is the one that keeps it. -/
theorem exists_keepsId {entities : List α} {k : Nat} {entity : α} (here : entities[k]? = some entity)
    (full : trim (id entity) ≠ []) :
    ∃ i first, i ≤ k ∧ entities[i]? = some first ∧ id first = id entity ∧ KeepsId id [] (entities.take i) first := by
  induction entities generalizing k with
  | nil => cases here
  | cons head rest ih =>
    by_cases same : id head = id entity
    · exact ⟨0, head, Nat.zero_le k, rfl, same, same ▸ full, nofun, nofun⟩
    · cases k with
      | zero => exact absurd (congrArg id (Option.some.inj here)) same
      | succ k =>
        obtain ⟨i, first, below, there, equal, keeps⟩ := ih here
        refine ⟨i + 1, first, Nat.succ_le_succ below, there, equal, keeps.1, nofun, ?_⟩
        rw [List.take_succ_cons, List.forall_mem_cons, equal]
        exact ⟨same, fun other inside => equal ▸ keeps.2.2 other inside⟩

/-- Afterwards the ids are distinct, not blank and not those known before. -/
theorem ensureIds_own (set_id : ∀ given entity, id (setId given entity) = given) {entities : List α}
    {known : List Text} {used : Nat} (proper : ids.Proper) (unused : ids.Unused used (entities.map id))
    (new : ids.Unused used known) :
    ((ensureIds id setId ids entities known used).1.map id).Nodup ∧
      ∀ given ∈ (ensureIds id setId ids entities known used).1.map id, given ∉ known ∧ trim given ≠ [] := by
  induction entities generalizing known used with
  | nil => exact ⟨List.nodup_nil, nofun⟩
  | cons entity rest ih =>
    have later : ids.Unused used (rest.map id) := unused.of_cons
    by_cases kept : trim (id entity) ≠ [] ∧ id entity ∉ known
    · obtain ⟨nodup, apart⟩ := @ih (id entity :: known) used later
        (new.cons fun n least same => unused n least (same ▸ List.mem_cons_self))
      rw [ensureIds_cons_kept kept]
      refine ⟨List.nodup_cons.mpr ⟨fun member => (apart _ member).1 List.mem_cons_self, nodup⟩, ?_⟩
      refine List.forall_mem_cons.mpr ⟨⟨kept.2, kept.1⟩, fun given member => ?_⟩
      exact ⟨fun old => (apart given member).1 (List.mem_cons_of_mem _ old), (apart given member).2⟩
    · obtain ⟨nodup, apart⟩ := @ih (ids used :: known) (used + 1)
        (later.mono (Nat.le_succ used) fun _ member => member)
        ((new.mono (Nat.le_succ used) fun _ member => member).cons fun n least same => by
          have equal := proper.injective same
          omega)
      rw [ensureIds_cons_replaced kept, List.map_cons, set_id]
      refine ⟨List.nodup_cons.mpr ⟨fun member => (apart _ member).1 List.mem_cons_self, nodup⟩, ?_⟩
      refine List.forall_mem_cons.mpr ⟨⟨new used (Nat.le_refl _), ?_⟩, fun given member => ?_⟩
      · rw [proper.trimmed]
        exact proper.full used
      · exact ⟨fun old => (apart given member).1 (List.mem_cons_of_mem _ old), (apart given member).2⟩

theorem ensureIds_of_own {entities : List α} {known : List Text} {used : Nat} (nodup : (entities.map id).Nodup)
    (own : ∀ given ∈ entities.map id, given ∉ known ∧ trim given ≠ []) :
    ensureIds id setId ids entities known used = (entities, used) := by
  induction entities generalizing known with
  | nil => rfl
  | cons entity rest ih =>
    obtain ⟨alone, nodup⟩ := List.nodup_cons.mp nodup
    obtain ⟨first, later⟩ := List.forall_mem_cons.mp own
    rw [ensureIds_cons_kept first.symm, ih nodup]
    intro given member
    rw [List.mem_cons, not_or]
    exact ⟨⟨fun same => alone (same ▸ member), (later given member).1⟩, (later given member).2⟩

theorem ensureIds_append {entities more : List α} {known : List Text} {used : Nat}
    (nodup : (more.map id).Nodup) (full : ∀ given ∈ more.map id, trim given ≠ [])
    (apart : ∀ given ∈ more.map id, given ∉ known ∧ given ∉ entities.map id ∧ ∀ n, used ≤ n → ids n ≠ given) :
    ensureIds id setId ids (entities ++ more) known used =
      ((ensureIds id setId ids entities known used).1 ++ more, (ensureIds id setId ids entities known used).2) := by
  induction entities generalizing known used with
  | nil =>
    rw [List.nil_append, ensureIds_of_own nodup fun given member => ⟨(apart given member).1, full given member⟩]
    rfl
  | cons entity rest ih =>
    by_cases kept : trim (id entity) ≠ [] ∧ id entity ∉ known
    · rw [List.cons_append, ensureIds_cons_kept kept, ensureIds_cons_kept kept, ih]
      · rfl
      · intro given member
        obtain ⟨new, other, later⟩ := apart given member
        rw [List.map_cons, List.mem_cons, not_or] at other
        refine ⟨?_, other.2, later⟩
        rw [List.mem_cons, not_or]
        exact ⟨other.1, new⟩
    · rw [List.cons_append, ensureIds_cons_replaced kept, ensureIds_cons_replaced kept, ih]
      · rfl
      · intro given member
        obtain ⟨new, other, later⟩ := apart given member
        rw [List.map_cons, List.mem_cons, not_or] at other
        refine ⟨?_, other.2, fun n least => later n (Nat.le_of_succ_le least)⟩
        rw [List.mem_cons, not_or]
        exact ⟨Ne.symm (later used (Nat.le_refl _)), new⟩

end Ids

/-- An output names the publisher with its id, or has no id and no publisher has its name. -/
def OutputResolved (publishers : List PublisherClient) : ConsumerOutputConfig → Prop
  | .publisher name (some id) => ∃ publisher ∈ publishers, publisher.id = id ∧ publisher.name = name
  | .publisher name none => ∀ publisher ∈ publishers, publisher.name ≠ name
  | .none | .response _ => True

/-- A publisher's name, by its id. The last publisher with the id counts. -/
def nameOfId (publishers : List PublisherClient) (id : Text) : Option Text :=
  (publishers.map fun publisher => (publisher.id, publisher.name)).reverse.lookup id

def idOfName (publishers : List PublisherClient) (name : Text) : Option Text :=
  (publishers.map fun publisher => (publisher.name, publisher.id)).reverse.lookup name

theorem normalizeConsumerPublisherOutputs_eq (config : AppConfig) :
    config.normalizeConsumerPublisherOutputs = { config with
      consumers := config.consumers.map fun consumer =>
        { consumer with
          output := normalizePublisherOutput (nameOfId config.publishers) (idOfName config.publishers)
            consumer.output } } := rfl

theorem mem_of_nameOfId {publishers : List PublisherClient} {id name : Text}
    (found : nameOfId publishers id = some name) :
    ∃ publisher ∈ publishers, publisher.id = id ∧ publisher.name = name := by
  obtain ⟨publisher, member, same⟩ := List.mem_map.mp (List.mem_reverse.mp (Assoc.mem_of_lookup found))
  obtain ⟨rfl, rfl⟩ := Prod.mk.inj same
  exact ⟨publisher, member, rfl, rfl⟩

theorem mem_of_idOfName {publishers : List PublisherClient} {id name : Text}
    (found : idOfName publishers name = some id) :
    ∃ publisher ∈ publishers, publisher.id = id ∧ publisher.name = name := by
  obtain ⟨publisher, member, same⟩ := List.mem_map.mp (List.mem_reverse.mp (Assoc.mem_of_lookup found))
  obtain ⟨rfl, rfl⟩ := Prod.mk.inj same
  exact ⟨publisher, member, rfl, rfl⟩

theorem idOfName_eq_none {publishers : List PublisherClient} {name : Text} :
    idOfName publishers name = none ↔ ∀ publisher ∈ publishers, publisher.name ≠ name := by
  rw [idOfName, Assoc.lookup_eq_none]
  constructor
  · rintro absent publisher member rfl
    exact absent publisher.id (List.mem_reverse.mpr (List.mem_map_of_mem member))
  · rintro other id inside
    obtain ⟨publisher, member, same⟩ := List.mem_map.mp (List.mem_reverse.mp inside)
    exact other publisher member (Prod.mk.inj same).1

theorem nameOfId_of_mem {publishers : List PublisherClient} (distinct : (publishers.map (·.id)).Nodup)
    {publisher : PublisherClient} (member : publisher ∈ publishers) :
    nameOfId publishers publisher.id = some publisher.name := by
  apply Assoc.lookup_of_mem
  · rw [List.map_reverse, List.map_map]
    exact List.nodup_reverse.mpr distinct
  · exact List.mem_reverse.mpr (List.mem_map_of_mem member)

theorem normalizePublisherOutput_publisher (publishers : List PublisherClient) (name : Text)
    (publisherId : Option Text) :
    normalizePublisherOutput (nameOfId publishers) (idOfName publishers) (.publisher name publisherId) =
      match publisherId.bind (nameOfId publishers) with
      | some found => .publisher found publisherId
      | none => .publisher (trim name) (idOfName publishers (trim name)) := rfl

theorem outputResolved_normalize (publishers : List PublisherClient) (output : ConsumerOutputConfig) :
    OutputResolved publishers
      (normalizePublisherOutput (nameOfId publishers) (idOfName publishers) output) := by
  cases output with
  | none => trivial
  | response answer => trivial
  | publisher name publisherId =>
    rw [normalizePublisherOutput_publisher]
    cases byId : publisherId.bind (nameOfId publishers) with
    | some found =>
      obtain ⟨id, rfl, named⟩ := Option.bind_eq_some_iff.mp byId
      exact mem_of_nameOfId named
    | none =>
      show OutputResolved publishers (.publisher (trim name) (idOfName publishers (trim name)))
      cases byName : idOfName publishers (trim name) with
      | some id => exact mem_of_idOfName byName
      | none => exact idOfName_eq_none.mp byName

/-! ### Routes -/

section Routes
variable {ids : IdSupply} {publishers : List PublisherClient} {consumers : List ConsumerConfig} {used : Nat}
  {routeName : Text} {config : RouteConfig}

def routeConsumer (id : Text) (consumers : List ConsumerConfig) (routeName : Text) (config : RouteConfig)
    (output : ConsumerOutputConfig) : ConsumerConfig :=
  { id
    name := nextUniqueName (trim routeName) (consumers.map (·.name))
    enabled := config.enabled
    endpoint := config.route.input
    output
    messageCapture := { enabled := false }
    options := config.route.options }

/-- The publisher made for an output that no publisher has. -/
def routePublisher (id : Text) (publishers : List PublisherClient) (routeName : Text) (config : RouteConfig) :
    PublisherClient :=
  { id
    name := nextUniqueName (trim routeName ++ "_publisher") (publishers.map (·.name))
    endpoint := config.route.output }

def sameOutput (publishers : List PublisherClient) (config : RouteConfig) : Option PublisherClient :=
  publishers.find? fun publisher => sameEndpointValue publisher.endpoint config.route.output

theorem migrateRoute_null (null : EndpointType.isNull config.route.output.endpointType = true) :
    migrateRoute ids publishers consumers used routeName config =
      (publishers, consumers ++ [routeConsumer (ids used) consumers routeName config .none], used + 1) := by
  rw [migrateRoute, if_pos null]
  rfl

theorem migrateRoute_existing (full : EndpointType.isNull config.route.output.endpointType = false)
    {existing : PublisherClient} (same : sameOutput publishers config = some existing) :
    migrateRoute ids publishers consumers used routeName config =
      (publishers, consumers ++ [routeConsumer (ids used) consumers routeName config
        (.publisher existing.name (some existing.id))], used + 1) := by
  rw [sameOutput] at same
  rw [migrateRoute, if_neg (by simp [full]), same]
  rfl

theorem migrateRoute_new (full : EndpointType.isNull config.route.output.endpointType = false)
    (new : sameOutput publishers config = none) :
    migrateRoute ids publishers consumers used routeName config =
      (publishers ++ [routePublisher (ids used) publishers routeName config],
        consumers ++ [routeConsumer (ids (used + 1)) consumers routeName config
          (.publisher (routePublisher (ids used) publishers routeName config).name (some (ids used)))],
        used + 2) := by
  rw [sameOutput] at new
  rw [migrateRoute, if_neg (by simp [full]), new]
  rfl

/-- What is there stays, and what is added has a generated id. -/
theorem migrateRoute_adds : ∃ newPublishers newConsumers,
    (migrateRoute ids publishers consumers used routeName config).1 = publishers ++ newPublishers ∧
      (migrateRoute ids publishers consumers used routeName config).2.1 = consumers ++ newConsumers ∧
      newPublishers.length ≤ 1 ∧ newConsumers.length = 1 ∧
      used ≤ (migrateRoute ids publishers consumers used routeName config).2.2 ∧
      ∀ id ∈ newPublishers.map (·.id) ++ newConsumers.map (·.id),
        ∃ n, used ≤ n ∧ n < (migrateRoute ids publishers consumers used routeName config).2.2 ∧ id = ids n := by
  cases null : EndpointType.isNull config.route.output.endpointType with
  | true =>
    rw [migrateRoute_null null]
    refine ⟨[], _, (List.append_nil _).symm, rfl, Nat.zero_le 1, rfl, Nat.le_succ used, fun id member => ?_⟩
    obtain rfl := List.mem_singleton.mp member
    exact ⟨used, Nat.le_refl _, Nat.lt_succ_self _, rfl⟩
  | false =>
    cases same : sameOutput publishers config with
    | some existing =>
      rw [migrateRoute_existing null same]
      refine ⟨[], _, (List.append_nil _).symm, rfl, Nat.zero_le 1, rfl, Nat.le_succ used, fun id member => ?_⟩
      obtain rfl := List.mem_singleton.mp member
      exact ⟨used, Nat.le_refl _, Nat.lt_succ_self _, rfl⟩
    | none =>
      rw [migrateRoute_new null same]
      refine ⟨_, _, rfl, rfl, Nat.le_refl 1, rfl, Nat.le_add_right _ _, fun id member => ?_⟩
      rcases List.mem_pair.mp member with rfl | rfl
      · exact ⟨used, Nat.le_refl _, Nat.lt_add_of_pos_right (by omega), rfl⟩
      · exact ⟨used + 1, Nat.le_succ _, Nat.lt_succ_self _, rfl⟩

theorem migrateRoute_consumer : ∃ id output,
    (migrateRoute ids publishers consumers used routeName config).2.1 =
      consumers ++ [routeConsumer id consumers routeName config output] := by
  cases null : EndpointType.isNull config.route.output.endpointType with
  | true => exact ⟨_, _, by rw [migrateRoute_null null]⟩
  | false =>
    cases same : sameOutput publishers config with
    | some existing => exact ⟨_, _, by rw [migrateRoute_existing null same]⟩
    | none => exact ⟨_, _, by rw [migrateRoute_new null same]⟩

theorem migrateRoutes_cons (route : Text × RouteConfig) (rest : List (Text × RouteConfig)) :
    migrateRoutes ids (route :: rest) publishers consumers used =
      migrateRoutes ids rest (migrateRoute ids publishers consumers used route.1 route.2).1
        (migrateRoute ids publishers consumers used route.1 route.2).2.1
        (migrateRoute ids publishers consumers used route.1 route.2).2.2 := rfl

/-- What holds of the consumers there were and of those made for routes holds of all. -/
theorem forall_migrateRoutes {P : ConsumerConfig → Prop} {routes : List (Text × RouteConfig)}
    (made : ∀ id consumers routeName config output, P (routeConsumer id consumers routeName config output))
    (all : ∀ consumer ∈ consumers, P consumer) :
    ∀ consumer ∈ (migrateRoutes ids routes publishers consumers used).2.1, P consumer := by
  induction routes generalizing publishers consumers used with
  | nil => exact all
  | cons route rest ih =>
    rw [migrateRoutes_cons]
    obtain ⟨id, output, split⟩ := @migrateRoute_consumer ids publishers consumers used route.1 route.2
    apply ih
    intro consumer member
    rw [split] at member
    rcases List.mem_append.mp member with old | new
    · exact all consumer old
    · rw [List.mem_singleton.mp new]
      exact made _ _ _ _ _

theorem migrateRoutes_adds (routes : List (Text × RouteConfig)) : ∃ newPublishers newConsumers,
    (migrateRoutes ids routes publishers consumers used).1 = publishers ++ newPublishers ∧
      (migrateRoutes ids routes publishers consumers used).2.1 = consumers ++ newConsumers ∧
      used ≤ (migrateRoutes ids routes publishers consumers used).2.2 ∧
      ∀ id ∈ newPublishers.map (·.id) ++ newConsumers.map (·.id),
        ∃ n, used ≤ n ∧ n < (migrateRoutes ids routes publishers consumers used).2.2 ∧ id = ids n := by
  induction routes generalizing publishers consumers used with
  | nil => exact ⟨[], [], (List.append_nil _).symm, (List.append_nil _).symm, Nat.le_refl _, nofun⟩
  | cons route rest ih =>
    obtain ⟨name, config⟩ := route
    obtain ⟨addedP, addedC, firstP, firstC, -, -, least, given⟩ :=
      @migrateRoute_adds ids publishers consumers used name config
    obtain ⟨moreP, moreC, restP, restC, later, givenLater⟩ :=
      @ih (migrateRoute ids publishers consumers used name config).1
        (migrateRoute ids publishers consumers used name config).2.1
        (migrateRoute ids publishers consumers used name config).2.2
    refine ⟨addedP ++ moreP, addedC ++ moreC, ?_, ?_, Nat.le_trans least later, fun id member => ?_⟩
    · rw [← List.append_assoc, ← firstP, ← restP, migrateRoutes_cons]
    · rw [← List.append_assoc, ← firstC, ← restC, migrateRoutes_cons]
    · have either : id ∈ addedP.map (·.id) ++ addedC.map (·.id) ∨ id ∈ moreP.map (·.id) ++ moreC.map (·.id) := by
        simp only [List.map_append, List.mem_append] at member ⊢
        tauto
      rcases either with early | late
      · obtain ⟨n, low, high, same⟩ := given id early
        exact ⟨n, low, Nat.lt_of_lt_of_le high later, same⟩
      · obtain ⟨n, low, high, same⟩ := givenLater id late
        exact ⟨n, Nat.le_trans least low, high, same⟩

theorem migrateRoutes_distinct (injective : Function.Injective ids) {routes : List (Text × RouteConfig)}
    {newPublishers : List PublisherClient} {newConsumers : List ConsumerConfig}
    (addedPublishers : (migrateRoutes ids routes publishers consumers used).1 = publishers ++ newPublishers)
    (addedConsumers : (migrateRoutes ids routes publishers consumers used).2.1 = consumers ++ newConsumers) :
    (newPublishers.map (·.id)).Nodup ∧ (newConsumers.map (·.id)).Nodup := by
  induction routes generalizing publishers consumers used newPublishers newConsumers with
  | nil =>
    have noP := List.append_right_eq_self.mp addedPublishers.symm
    have noC := List.append_right_eq_self.mp addedConsumers.symm
    rw [noP, noC]
    exact ⟨List.nodup_nil, List.nodup_nil⟩
  | cons route rest ih =>
    obtain ⟨oneP, oneC, firstP, firstC, shortP, shortC, -, given⟩ :=
      @migrateRoute_adds ids publishers consumers used route.1 route.2
    obtain ⟨moreP, moreC, restP, restC, -, givenLater⟩ :=
      @migrateRoutes_adds ids (migrateRoute ids publishers consumers used route.1 route.2).1
        (migrateRoute ids publishers consumers used route.1 route.2).2.1
        (migrateRoute ids publishers consumers used route.1 route.2).2.2 rest
    obtain ⟨laterP, laterC⟩ := ih restP restC
    rw [migrateRoutes_cons, restP, firstP, List.append_assoc, List.append_cancel_left_eq] at addedPublishers
    rw [migrateRoutes_cons, restC, firstC, List.append_assoc, List.append_cancel_left_eq] at addedConsumers
    -- the ids of one route come before those of the rest
    have apart : ∀ {id : Text}, id ∈ oneP.map (·.id) ++ oneC.map (·.id) →
        ∀ {later : Text}, later ∈ moreP.map (·.id) ++ moreC.map (·.id) → id ≠ later := by
      intro id early later late same
      obtain ⟨n, -, below, rfl⟩ := given id early
      obtain ⟨m, above, -, equal⟩ := givenLater later late
      have := injective (same.trans equal)
      omega
    rw [← addedPublishers, ← addedConsumers, List.map_append, List.map_append, List.nodup_append, List.nodup_append]
    refine ⟨⟨Lists.nodup_of_length_le_one (by simpa using shortP), laterP, fun id early later late => ?_⟩,
      ⟨Lists.nodup_of_length_le_one (by simp [shortC]), laterC, fun id early later late => ?_⟩⟩
    · exact apart (List.mem_append_left _ early) (List.mem_append_left _ late)
    · exact apart (List.mem_append_right _ early) (List.mem_append_right _ late)

end Routes

/-! ### A configuration -/

def AppConfig.entityIds (config : AppConfig) : List Text :=
  config.publishers.map (·.id) ++ config.consumers.map (·.id)

def AppConfig.drained (ids : IdSupply) (config : AppConfig) : List PublisherClient × List ConsumerConfig × Nat :=
  migrateRoutes ids config.routes config.publishers (config.consumers.map migrateConsumerResponse) 0

/-- The publishers of a migrated configuration, and how many ids are used up then. -/
def AppConfig.withIds (ids : IdSupply) (config : AppConfig) : List PublisherClient × Nat :=
  ensureIds PublisherClient.id (fun id entity => { entity with id }) ids (config.drained ids).1 []
    (config.drained ids).2.2

/-- The consumers of a migrated configuration, before their outputs are resolved. -/
def AppConfig.identified (ids : IdSupply) (config : AppConfig) : List ConsumerConfig :=
  (ensureIds ConsumerConfig.id (fun id entity => { entity with id }) ids (config.drained ids).2.1 []
    (config.withIds ids).2).1

theorem migrateLegacyRoutes_eq (ids : IdSupply) (config : AppConfig) :
    config.migrateLegacyRoutes ids = { config with
      configSecurity := some { mode := config.securityMode }
      extractSecrets := false
      defaultTab := if trim config.defaultTab == ("routes" : Text) then "consumers" else config.defaultTab
      routes := []
      publishers := (config.withIds ids).1
      consumers := (config.identified ids).map fun consumer =>
          { consumer with
            output := normalizePublisherOutput (nameOfId (config.withIds ids).1)
              (idOfName (config.withIds ids).1) consumer.output } } := by
  unfold AppConfig.migrateLegacyRoutes AppConfig.identified AppConfig.withIds AppConfig.drained
  have tab : config.migrateLegacySecurityMode.migrateLegacyConsumerResponse.defaultTab = config.defaultTab := rfl
  by_cases routesTab : (trim config.defaultTab == ("routes" : Text)) = true
  · simp only [tab, routesTab, if_true]
    rfl
  · simp only [tab, routesTab]
    rfl

theorem migrateConsumerResponse_id (consumer : ConsumerConfig) :
    (migrateConsumerResponse consumer).id = consumer.id ∧ (migrateConsumerResponse consumer).name = consumer.name := by
  unfold migrateConsumerResponse
  split <;> exact ⟨rfl, rfl⟩

theorem map_id_migrateConsumerResponse (consumers : List ConsumerConfig) :
    (consumers.map migrateConsumerResponse).map (·.id) = consumers.map (·.id) := by
  rw [List.map_map]
  exact List.map_congr_left fun consumer _ => (migrateConsumerResponse_id consumer).1

theorem drained_adds (ids : IdSupply) (config : AppConfig) : ∃ newPublishers newConsumers,
    (config.drained ids).1 = config.publishers ++ newPublishers ∧
      (config.drained ids).2.1 = config.consumers.map migrateConsumerResponse ++ newConsumers ∧
      ∀ id ∈ newPublishers.map (·.id) ++ newConsumers.map (·.id), ∃ n, n < (config.drained ids).2.2 ∧ id = ids n := by
  obtain ⟨newP, newC, publishers, consumers, -, given⟩ := @migrateRoutes_adds ids config.publishers
    (config.consumers.map migrateConsumerResponse) 0 config.routes
  refine ⟨newP, newC, publishers, consumers, fun id member => ?_⟩
  obtain ⟨n, -, below, same⟩ := given id member
  exact ⟨n, below, same⟩

theorem drained_unused {ids : IdSupply} {config : AppConfig} (fresh : ids.Fresh config.entityIds) :
    ids.Unused (config.drained ids).2.2 ((config.drained ids).1.map (·.id)) ∧
      ids.Unused (config.drained ids).2.2 ((config.drained ids).2.1.map (·.id)) := by
  obtain ⟨newP, newC, publishers, consumers, given⟩ := drained_adds ids config
  have kept := map_id_migrateConsumerResponse config.consumers
  have generated : ids.Unused (config.drained ids).2.2 (newP.map (·.id) ++ newC.map (·.id)) := by
    intro n least member
    obtain ⟨m, below, same⟩ := given _ member
    have equal := fresh.injective same
    omega
  have there := fresh.unused.mono (Nat.zero_le (config.drained ids).2.2) fun _ member => member
  have both : ∀ {old new : List Text}, ids.Unused (config.drained ids).2.2 old →
      ids.Unused (config.drained ids).2.2 new → ids.Unused (config.drained ids).2.2 (old ++ new) := by
    intro old new first second n least member
    rcases List.mem_append.mp member with inside | inside
    · exact first n least inside
    · exact second n least inside
  constructor
  · rw [publishers, List.map_append]
    exact both (there.mono (Nat.le_refl _) fun _ => List.mem_append_left _)
      (generated.mono (Nat.le_refl _) fun _ => List.mem_append_left _)
  · rw [consumers, List.map_append, kept]
    exact both (there.mono (Nat.le_refl _) fun _ => List.mem_append_right _)
      (generated.mono (Nat.le_refl _) fun _ => List.mem_append_right _)

theorem consumers_unused {ids : IdSupply} {config : AppConfig} (fresh : ids.Fresh config.entityIds) :
    ids.Unused (config.withIds ids).2 ((config.drained ids).2.1.map (·.id)) :=
  (drained_unused fresh).2.mono (ensureIds_used_le _ _ _) fun _ member => member

/-- What every lookup relies on. -/
structure AppConfig.Resolved (config : AppConfig) : Prop where
  routes : config.routes = []
  publisherIds : (config.publishers.map (·.id)).Nodup
  publisherIdsFull : ∀ publisher ∈ config.publishers, trim publisher.id ≠ []
  consumerIds : (config.consumers.map (·.id)).Nodup
  consumerIdsFull : ∀ consumer ∈ config.consumers, trim consumer.id ≠ []
  outputs : ∀ consumer ∈ config.consumers, OutputResolved config.publishers consumer.output

theorem resolved_migrate {ids : IdSupply} {config : AppConfig} (fresh : ids.Fresh config.entityIds) :
    (config.migrateLegacyRoutes ids).Resolved := by
  obtain ⟨distinctP, ownP⟩ := @ensureIds_own _ PublisherClient.id (fun id entity => { entity with id }) ids
    (fun _ _ => rfl) (config.drained ids).1 [] (config.drained ids).2.2 fresh.toProper (drained_unused fresh).1 (fun _ _ => nofun)
  obtain ⟨distinctC, ownC⟩ := @ensureIds_own _ ConsumerConfig.id (fun id entity => { entity with id }) ids
    (fun _ _ => rfl) (config.drained ids).2.1 [] (config.withIds ids).2 fresh.toProper
    (consumers_unused fresh) (fun _ _ => nofun)
  rw [migrateLegacyRoutes_eq]
  refine ⟨rfl, distinctP, fun publisher member => (ownP _ (List.mem_map_of_mem member)).2, ?_, ?_, ?_⟩
  · rw [List.map_map]
    exact distinctC
  · intro consumer member
    obtain ⟨original, inside, rfl⟩ := List.mem_map.mp member
    exact (ownC _ (List.mem_map_of_mem inside)).2
  · intro consumer member
    obtain ⟨original, inside, rfl⟩ := List.mem_map.mp member
    exact outputResolved_normalize _ _

theorem normalizePublisherOutput_of_resolved {publishers : List PublisherClient}
    (distinct : (publishers.map (·.id)).Nodup) {output : ConsumerOutputConfig}
    (resolved : OutputResolved publishers output) (trimmed : ∀ name, output = .publisher name none → trim name = name) :
    normalizePublisherOutput (nameOfId publishers) (idOfName publishers) output = output := by
  cases output with
  | none => rfl
  | response answer => rfl
  | publisher name publisherId =>
    rw [normalizePublisherOutput_publisher]
    cases publisherId with
    | some id =>
      obtain ⟨publisher, member, rfl, rfl⟩ := resolved
      rw [Option.bind_some, nameOfId_of_mem distinct member]
    | none =>
      rw [Option.bind_none, trimmed name rfl]
      rw [idOfName_eq_none.mpr resolved]

/-- The name an output without an id has after migration has no blanks around it. -/
theorem trimmed_of_normalize {publishers : List PublisherClient} {output : ConsumerOutputConfig} {name : Text}
    (unresolved : normalizePublisherOutput (nameOfId publishers) (idOfName publishers) output =
      .publisher name none) : trim name = name := by
  cases output with
  | none => cases unresolved
  | response answer => cases unresolved
  | publisher given publisherId =>
    rw [normalizePublisherOutput_publisher] at unresolved
    cases byId : publisherId.bind (nameOfId publishers) with
    | some found =>
      rw [byId] at unresolved
      obtain ⟨-, rfl⟩ := ConsumerOutputConfig.publisher.inj unresolved
      cases byId
    | none =>
      rw [byId] at unresolved
      obtain ⟨rfl, -⟩ := ConsumerOutputConfig.publisher.inj unresolved
      exact trim_trim given

theorem migrateConsumerResponse_of {consumer : ConsumerConfig}
    (moved : consumer.output = .none → consumer.response = .none) : migrateConsumerResponse consumer = consumer := by
  unfold migrateConsumerResponse
  split
  · next response output given =>
    rw [moved output] at given
    cases given
  · rfl

theorem response_moved {ids : IdSupply} {config : AppConfig} {consumer : ConsumerConfig}
    (member : consumer ∈ (config.migrateLegacyRoutes ids).consumers) (none : consumer.output = .none) :
    consumer.response = .none := by
  have start : ∀ consumer ∈ config.consumers.map migrateConsumerResponse,
      consumer.output = .none → consumer.response = .none := by
    intro consumer inside
    obtain ⟨original, -, rfl⟩ := List.mem_map.mp inside
    unfold migrateConsumerResponse
    split
    · exact nofun
    · next others =>
      intro output
      cases response : original.response with
      | none => rfl
      | some answer => exact absurd response (others answer output)
  rw [migrateLegacyRoutes_eq] at member
  obtain ⟨identified, inside, rfl⟩ := List.mem_map.mp member
  obtain ⟨drained, there, which⟩ := mem_ensureIds inside
  have output : identified.output = .none := by
    cases given : identified.output with
    | none => rfl
    | response answer =>
      rw [given] at none
      cases none
    | publisher name publisherId =>
      rw [given, normalizePublisherOutput_publisher] at none
      split at none <;> cases none
  have response := forall_migrateRoutes (P := fun consumer => consumer.output = .none → consumer.response = .none)
    (fun _ _ _ _ _ _ => rfl) start drained there
  rcases which with rfl | ⟨n, rfl⟩
  · exact response output
  · exact response output

/-- Only the names in outputs are left to migrate. -/
structure AppConfig.Settled (config : AppConfig) : Prop where
  routes : config.routes = []
  publisherIds : (config.publishers.map (·.id)).Nodup
  publisherIdsFull : ∀ publisher ∈ config.publishers, trim publisher.id ≠ []
  consumerIds : (config.consumers.map (·.id)).Nodup
  consumerIdsFull : ∀ consumer ∈ config.consumers, trim consumer.id ≠ []
  responses : ∀ consumer ∈ config.consumers, consumer.output = .none → consumer.response = .none
  tab : (trim config.defaultTab == ("routes" : Text)) = false

theorem migrate_settled {config : AppConfig} (settled : config.Settled) (later : IdSupply) :
    config.migrateLegacyRoutes later = { config with
      configSecurity := some { mode := config.securityMode }
      extractSecrets := false
      consumers := config.consumers.map fun consumer =>
        { consumer with
          output := normalizePublisherOutput (nameOfId config.publishers) (idOfName config.publishers) consumer.output } } := by
  have responses : config.consumers.map migrateConsumerResponse = config.consumers := by
    rw [List.map_congr_left fun consumer member => migrateConsumerResponse_of (settled.responses consumer member),
      List.map_id']
  have drained : config.drained later = (config.publishers, config.consumers, 0) := by
    rw [AppConfig.drained, settled.routes, responses]
    rfl
  have publishers : config.withIds later = (config.publishers, 0) := by
    rw [AppConfig.withIds, drained]
    apply ensureIds_of_own settled.publisherIds
    intro given member
    obtain ⟨publisher, inside, rfl⟩ := List.mem_map.mp member
    exact ⟨nofun, settled.publisherIdsFull publisher inside⟩
  have consumers : config.identified later = config.consumers := by
    rw [AppConfig.identified, drained, publishers, ensureIds_of_own settled.consumerIds]
    intro given member
    obtain ⟨consumer, inside, rfl⟩ := List.mem_map.mp member
    exact ⟨nofun, settled.consumerIdsFull consumer inside⟩
  rw [migrateLegacyRoutes_eq later, publishers, consumers, if_neg (by simp [settled.tab]), ← settled.routes]

theorem settled_migrate {ids : IdSupply} {config : AppConfig} (fresh : ids.Fresh config.entityIds) :
    (config.migrateLegacyRoutes ids).Settled := by
  have resolved := resolved_migrate fresh
  refine ⟨resolved.routes, resolved.publisherIds, resolved.publisherIdsFull, resolved.consumerIds,
    resolved.consumerIdsFull, fun consumer => response_moved, ?_⟩
  rw [migrateLegacyRoutes_eq]
  show (trim (if _ then _ else _) == _) = false
  split
  · decide
  · next other => exact Bool.eq_false_iff.mpr other

theorem unresolved_trimmed {ids : IdSupply} {config : AppConfig} {consumer : ConsumerConfig}
    (member : consumer ∈ (config.migrateLegacyRoutes ids).consumers) {name : Text}
    (output : consumer.output = .publisher name none) : trim name = name := by
  rw [migrateLegacyRoutes_eq] at member
  obtain ⟨original, -, rfl⟩ := List.mem_map.mp member
  exact trimmed_of_normalize output

theorem migrate_migrated {ids : IdSupply} {config : AppConfig} (fresh : ids.Fresh config.entityIds) (later : IdSupply) :
    (config.migrateLegacyRoutes ids).migrateLegacyRoutes later = config.migrateLegacyRoutes ids := by
  have resolved := resolved_migrate fresh
  have outputs : ((config.migrateLegacyRoutes ids).consumers.map fun consumer =>
      { consumer with
        output := normalizePublisherOutput (nameOfId (config.migrateLegacyRoutes ids).publishers)
          (idOfName (config.migrateLegacyRoutes ids).publishers) consumer.output }) =
      (config.migrateLegacyRoutes ids).consumers := by
    have same : ∀ consumer ∈ (config.migrateLegacyRoutes ids).consumers,
        { consumer with
          output := normalizePublisherOutput (nameOfId (config.migrateLegacyRoutes ids).publishers)
            (idOfName (config.migrateLegacyRoutes ids).publishers) consumer.output } = consumer := by
      intro consumer member
      rw [normalizePublisherOutput_of_resolved resolved.publisherIds (resolved.outputs consumer member)
        fun name output => unresolved_trimmed member output]
    rw [List.map_congr_left same, List.map_id']
  rw [migrate_settled (settled_migrate fresh), outputs, migrateLegacyRoutes_eq ids]
  rfl

/-- Migration resolves every reference, and there is nothing left to migrate. -/
theorem migrateLegacyRoutes_resolved (ids : IdSupply) (config : AppConfig) (fresh : ids.Fresh config.entityIds) :
    (config.migrateLegacyRoutes ids).Resolved ∧
      ∀ later : IdSupply, (config.migrateLegacyRoutes ids).migrateLegacyRoutes later = config.migrateLegacyRoutes ids :=
  ⟨resolved_migrate fresh, migrate_migrated fresh⟩

def tallyIds : IdSupply := fun n => List.replicate (n + 1) 'i'

theorem tallyIds_proper : tallyIds.Proper where
  injective := by
    intro m n same
    have lengths := congrArg List.length same
    simpa [tallyIds] using lengths
  trimmed n := by
    apply trim_of_plain
    intro c member
    rw [(List.mem_replicate.mp member).2]
    decide
  full n := by simp [tallyIds]

theorem tallyIds_fresh {taken : List Text} (other : (taken.all fun id => id.any (· != 'i')) = true) :
    tallyIds.Fresh taken where
  toProper := tallyIds_proper
  unused n _ member := by
    obtain ⟨c, inside, different⟩ := List.any_eq_true.mp (List.all_eq_true.mp other _ member)
    exact bne_iff_ne.mp different (List.mem_replicate.mp inside).2

/-- A route from memory, and two publishers with one id. -/
def legacyConfig : AppConfig where
  routes := [("orders", { route :=
    ⟨.new (.connector .memory (.record [("topic", .str "in")])), .new (.connector .memory (.record [("topic", .str "out")])), {}⟩ })]
  publishers := [{ id := "p1", name := "mirror", endpoint := .new .null }, { id := "p1", endpoint := .new .response }]

theorem migrateLegacyRoutes_resolved_legacy :
    (legacyConfig.migrateLegacyRoutes tallyIds).Resolved ∧
      ∀ later : IdSupply,
        (legacyConfig.migrateLegacyRoutes tallyIds).migrateLegacyRoutes later = legacyConfig.migrateLegacyRoutes tallyIds :=
  migrateLegacyRoutes_resolved tallyIds legacyConfig (tallyIds_fresh (by decide))

end MqBridge.Config
