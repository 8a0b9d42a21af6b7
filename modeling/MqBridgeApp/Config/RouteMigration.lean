import MqBridgeApp.Config.EntityIds
import MqBridgeApp.Lib.JsonAgree
import MqBridgeApp.Lib.Lists
import Mathlib.Data.List.Perm.Subperm

/-!
# What legacy routes become

A route becomes a consumer, and its output a publisher unless there is one already. The id of a
publisher that is there is noted before blank and repeated ids are replaced, which is where a
consumer can lose its publisher.
-/

namespace MqBridge.Config
open Text

/-- The names that are tried for a base, in order. -/
def candidateName (base : Text) : Nat → Text
  | 0 => base
  | k + 1 => base ++ "_" ++ ofNat (k + 1)

theorem candidateName_succ_injective (base : Text) : Function.Injective fun k => candidateName base (k + 1) := by
  intro j k same
  have numbers : ofNat (j + 1) = ofNat (k + 1) := List.append_cancel_left same
  have equal := ofNat_injective numbers
  omega

/-- One of the candidates is free: there is one more of them than there are names. -/
theorem find?_candidates {candidate : Nat → Text} (injective : Function.Injective candidate) (existing : List Text) :
    ∃ i, (((List.range (existing.length + 1)).map candidate).find? fun name => name ∉ existing) = some (candidate i) ∧
      candidate i ∉ existing ∧ ∀ j < i, candidate j ∈ existing := by
  cases found : ((List.range (existing.length + 1)).map candidate).find? fun name => name ∉ existing with
  | none =>
    have all : ((List.range (existing.length + 1)).map candidate) ⊆ existing := by
      intro name member
      have missed := List.find?_eq_none.mp found name member
      simpa using missed
    have short := ((List.nodup_range.map injective).subperm all).length_le
    rw [List.length_map, List.length_range] at short
    omega
  | some name =>
    obtain ⟨new, i, inside, rfl, earlier⟩ := List.find?_eq_some_iff_getElem.mp found
    rw [List.getElem_map, List.getElem_range] at *
    refine ⟨i, rfl, by simpa using new, fun j below => ?_⟩
    have missed := earlier j (by omega)
    rw [List.getElem_map, List.getElem_range] at missed
    simpa using missed

theorem nextUniqueName_spec (base : Text) (existing : List Text) : ∃ k,
    nextUniqueName base existing = candidateName base k ∧ candidateName base k ∉ existing ∧
      ∀ j < k, candidateName base j ∈ existing := by
  unfold nextUniqueName
  by_cases taken : base ∈ existing
  · obtain ⟨i, found, new, earlier⟩ := find?_candidates (candidateName_succ_injective base) existing
    have first : (((List.range (existing.length + 1)).map fun i => base ++ "_" ++ ofNat (i + 1)).find?
        fun candidate => candidate ∉ existing) = some (candidateName base (i + 1)) := found
    rw [if_pos taken, first]
    refine ⟨i + 1, rfl, new, fun j below => ?_⟩
    cases j with
    | zero => exact taken
    | succ j => exact earlier j (by omega)
  · rw [if_neg taken]
    exact ⟨0, rfl, taken, nofun⟩

theorem nextUniqueName_not_mem (base : Text) (existing : List Text) : nextUniqueName base existing ∉ existing := by
  obtain ⟨k, same, new, -⟩ := nextUniqueName_spec base existing
  rw [same]
  exact new

theorem nextUniqueName_append {base : Text} {existing more : List Text}
    (apart : nextUniqueName base existing ∉ more) :
    nextUniqueName base (existing ++ more) = nextUniqueName base existing := by
  obtain ⟨k, same, new, earlier⟩ := nextUniqueName_spec base existing
  obtain ⟨l, same', new', earlier'⟩ := nextUniqueName_spec base (existing ++ more)
  rw [same] at apart
  have equal : l = k := by
    rcases Nat.lt_trichotomy l k with below | equal | above
    · exact absurd (List.mem_append_left _ (earlier l below)) new'
    · exact equal
    · rcases List.mem_append.mp (earlier' k above) with old | added
      · exact absurd old new
      · exact absurd added apart
  rw [same, same', equal]

/-! ### The drained routes -/

section Drained
variable {ids : IdSupply}

/-- The output a route's consumer gets: that of the first publisher with its output, which is in
`publishers` or is one of those made for a route. -/
def RouteOutput (publishers made : List PublisherClient) (config : RouteConfig) (output : ConsumerOutputConfig) :
    Prop :=
  if EndpointType.isNull config.route.output.endpointType then output = .none
  else ∃ publisher, output = .publisher publisher.name (some publisher.id) ∧
    (sameOutput publishers config = some publisher ∨
      sameOutput publishers config = none ∧ publisher ∈ made ∧
        (sameEndpointValue publisher.endpoint config.route.output = true ∨
          publisher.endpoint = config.route.output))

structure RouteConsumer (publishers made : List PublisherClient) (config : RouteConfig) (consumer : ConsumerConfig) :
    Prop where
  endpoint : consumer.endpoint = config.route.input
  options : consumer.options = config.route.options
  enabled : consumer.enabled = config.enabled
  output : RouteOutput publishers made config consumer.output

/-- A publisher made for a route: no publisher had its name or its endpoint. -/
structure MadePublisher (publishers : List PublisherClient) (routes : List (Text × RouteConfig))
    (publisher : PublisherClient) : Prop where
  name : publisher.name ∉ publishers.map (·.name)
  endpoint : ∀ other ∈ publishers, sameEndpointValue other.endpoint publisher.endpoint = false
  route : ∃ route ∈ routes, publisher.endpoint = route.2.route.output

theorem RouteConsumer.mono {publishers made more : List PublisherClient} {config : RouteConfig}
    {consumer : ConsumerConfig} (subset : ∀ publisher ∈ made, publisher ∈ more)
    (route : RouteConsumer publishers made config consumer) : RouteConsumer publishers more config consumer := by
  refine ⟨route.endpoint, route.options, route.enabled, ?_⟩
  have output := route.output
  unfold RouteOutput at output ⊢
  split
  · next null => rwa [if_pos null] at output
  · next full =>
    rw [if_neg full] at output
    obtain ⟨publisher, same, old | ⟨new, member, equal⟩⟩ := output
    · exact ⟨publisher, same, .inl old⟩
    · exact ⟨publisher, same, .inr ⟨new, subset _ member, equal⟩⟩

theorem MadePublisher.mono {publishers : List PublisherClient} {routes more : List (Text × RouteConfig)}
    {publisher : PublisherClient} (subset : ∀ route ∈ routes, route ∈ more)
    (made : MadePublisher publishers routes publisher) : MadePublisher publishers more publisher := by
  obtain ⟨route, member, same⟩ := made.route
  exact ⟨made.name, made.endpoint, route, subset _ member, same⟩

theorem sameOutput_some {publishers : List PublisherClient} {config : RouteConfig} {existing : PublisherClient}
    (same : sameOutput publishers config = some existing) :
    existing ∈ publishers ∧ sameEndpointValue existing.endpoint config.route.output = true := by
  unfold sameOutput at same
  have hit := List.find?_some same
  exact ⟨List.mem_of_find?_eq_some same, hit⟩

/-- What one route adds, when `made` was made for routes before it. -/
theorem migrateRoute_spec {publishers made : List PublisherClient} {consumers : List ConsumerConfig} {used : Nat}
    (name : Text) (config : RouteConfig) : ∃ newPublishers consumer,
      (migrateRoute ids (publishers ++ made) consumers used name config).1 = publishers ++ (made ++ newPublishers) ∧
        (migrateRoute ids (publishers ++ made) consumers used name config).2.1 = consumers ++ [consumer] ∧
        (∀ publisher ∈ newPublishers, MadePublisher publishers [(name, config)] publisher) ∧
        RouteConsumer publishers (made ++ newPublishers) config consumer := by
  cases null : EndpointType.isNull config.route.output.endpointType with
  | true =>
    refine ⟨[], _, by rw [migrateRoute_null null, List.append_nil], by rw [migrateRoute_null null], nofun, rfl, rfl, rfl, ?_⟩
    rw [RouteOutput, if_pos null]
    rfl
  | false =>
    have found : sameOutput (publishers ++ made) config = (sameOutput publishers config).or (sameOutput made config) :=
      List.find?_append
    cases same : sameOutput (publishers ++ made) config with
    | some existing =>
      refine ⟨[], _, by rw [migrateRoute_existing null same, List.append_nil], by rw [migrateRoute_existing null same],
        nofun, rfl, rfl, rfl, ?_⟩
      rw [RouteOutput, if_neg (by simp [null])]
      refine ⟨existing, rfl, ?_⟩
      rw [found] at same
      cases old : sameOutput publishers config with
      | some first =>
        rw [old, Option.some_or] at same
        exact .inl same
      | none =>
        rw [old, Option.none_or] at same
        obtain ⟨member, equal⟩ := sameOutput_some same
        exact .inr ⟨rfl, List.mem_append_left _ member, .inl equal⟩
    | none =>
      refine ⟨_, _, by rw [migrateRoute_new null same, List.append_assoc], by rw [migrateRoute_new null same],
        ?_, rfl, rfl, rfl, ?_⟩
      · intro publisher member
        obtain rfl := List.mem_singleton.mp member
        refine ⟨fun taken => ?_, fun other inside => ?_, _, List.mem_singleton_self _, rfl⟩
        · exact nextUniqueName_not_mem (trim name ++ "_publisher") ((publishers ++ made).map (·.name))
            (List.map_subset _ (List.subset_append_left publishers made) taken)
        · have missed := List.find?_eq_none.mp same other (List.mem_append_left _ inside)
          show sameEndpointValue other.endpoint config.route.output = false
          simpa using missed
      · rw [RouteOutput, if_neg (by simp [null])]
        rw [found, Option.or_eq_none_iff] at same
        refine ⟨_, rfl, .inr ⟨same.1, List.mem_append_right _ (List.mem_singleton_self _), .inr rfl⟩⟩

theorem migrateRoutes_spec {publishers made : List PublisherClient} {consumers : List ConsumerConfig} {used : Nat}
    (routes : List (Text × RouteConfig)) : ∃ newPublishers newConsumers,
      (migrateRoutes ids routes (publishers ++ made) consumers used).1 = publishers ++ (made ++ newPublishers) ∧
        (migrateRoutes ids routes (publishers ++ made) consumers used).2.1 = consumers ++ newConsumers ∧
        (∀ publisher ∈ newPublishers, MadePublisher publishers routes publisher) ∧
        List.Forall₂ (fun route consumer => RouteConsumer publishers (made ++ newPublishers) route.2 consumer)
          routes newConsumers := by
  induction routes generalizing made consumers used with
  | nil => exact ⟨[], [], by rw [List.append_nil]; rfl, (List.append_nil _).symm, nofun, .nil⟩
  | cons route rest ih =>
    obtain ⟨one, consumer, firstP, firstC, madeOne, isRoute⟩ :=
      @migrateRoute_spec ids publishers made consumers used route.1 route.2
    obtain ⟨more, newC, restP, restC, madeMore, areRoutes⟩ := @ih (made ++ one)
      (consumers ++ [consumer]) (migrateRoute ids (publishers ++ made) consumers used route.1 route.2).2.2
    refine ⟨one ++ more, consumer :: newC, ?_, ?_, ?_, ?_⟩
    · rw [migrateRoutes_cons, firstP, firstC, restP, List.append_assoc made]
    · rw [migrateRoutes_cons, firstP, firstC, restC, List.append_assoc]
      rfl
    · intro publisher member
      rcases List.mem_append.mp member with early | late
      · exact (madeOne publisher early).mono fun other same => List.mem_singleton.mp same ▸ List.mem_cons_self
      · exact (madeMore publisher late).mono fun _ => List.mem_cons_of_mem _
    · rw [← List.append_assoc made]
      exact .cons (isRoute.mono fun _ => List.mem_append_left _) areRoutes

end Drained

theorem idOfName_eq (publishers : List PublisherClient) (name : Text) :
    idOfName publishers name =
      (Assoc.lastIndex (fun publisher => publisher.name == name) publishers).bind fun i => publishers[i]?.map (·.id) :=
  Assoc.lookup_reverse_map PublisherClient.name PublisherClient.id publishers name

/-- The place of the publisher a reference stands for: as for an update, the last with its id, and
otherwise the last with its name. -/
def referencedIndex (publishers : List PublisherClient) (name : Text) (publisherId : Option Text) : Option Nat :=
  (publisherId.bind fun id => Assoc.lastIndex (fun publisher => publisher.id == id) publishers).or
    (Assoc.lastIndex (fun publisher => publisher.name == trim name) publishers)

/-! ### A migrated configuration -/

section Migrated
variable {ids : IdSupply} {config : AppConfig}

/-- What is made for routes keeps its ids when the ids there were are repaired. -/
theorem withIds_append (fresh : ids.Fresh config.entityIds) {newPublishers : List PublisherClient}
    {newConsumers : List ConsumerConfig} (drainedP : (config.drained ids).1 = config.publishers ++ newPublishers)
    (drainedC : (config.drained ids).2.1 = config.consumers.map migrateConsumerResponse ++ newConsumers) :
    config.withIds ids = ((ensureIds PublisherClient.id (fun id entity => { entity with id }) ids config.publishers []
        (config.drained ids).2.2).1 ++ newPublishers, (ensureIds PublisherClient.id
        (fun id entity => { entity with id }) ids config.publishers [] (config.drained ids).2.2).2) ∧
      config.identified ids = (ensureIds ConsumerConfig.id (fun id entity => { entity with id }) ids
        (config.consumers.map migrateConsumerResponse) [] (config.withIds ids).2).1 ++ newConsumers := by
  obtain ⟨distinctP, distinctC⟩ := migrateRoutes_distinct fresh.injective drainedP drainedC
  obtain ⟨newP, newC, sameP, sameC, given⟩ := drained_adds ids config
  rw [drainedP, List.append_cancel_left_eq] at sameP
  rw [drainedC, List.append_cancel_left_eq] at sameC
  subst sameP sameC
  have kept := map_id_migrateConsumerResponse config.consumers
  have generated : ∀ id ∈ newPublishers.map (·.id) ++ newConsumers.map (·.id), trim id ≠ [] ∧ id ∉ config.entityIds ∧
      ∀ n, (config.drained ids).2.2 ≤ n → ids n ≠ id := by
    intro id member
    obtain ⟨m, below, rfl⟩ := given id member
    refine ⟨?_, fresh.unused m (Nat.zero_le m), fun n least same => ?_⟩
    · rw [fresh.trimmed]
      exact fresh.full m
    · have equal := fresh.injective same
      omega
  constructor
  · rw [AppConfig.withIds, drainedP]
    apply ensureIds_append distinctP
    · exact fun id member => (generated id (List.mem_append_left _ member)).1
    · intro id member
      obtain ⟨-, other, later⟩ := generated id (List.mem_append_left _ member)
      exact ⟨List.not_mem_nil, fun old => other (List.mem_append_left _ old), later⟩
  · rw [AppConfig.identified, drainedC, ensureIds_append distinctC]
    · exact fun id member => (generated id (List.mem_append_right _ member)).1
    · intro id member
      obtain ⟨-, other, later⟩ := generated id (List.mem_append_right _ member)
      refine ⟨List.not_mem_nil, fun old => other (List.mem_append_right _ (kept ▸ old)), fun n least => later n ?_⟩
      exact Nat.le_trans (ensureIds_used_le _ _ _) least

/-- The publishers a migrated configuration has, and the consumers before their outputs are resolved:
those there were, with ids of their own, and those made for the routes. -/
theorem migrated_shape (fresh : ids.Fresh config.entityIds) : ∃ oldPublishers newPublishers oldConsumers newConsumers,
    (config.withIds ids).1 = oldPublishers ++ newPublishers ∧
      config.identified ids = oldConsumers ++ newConsumers ∧
      oldPublishers = (ensureIds PublisherClient.id (fun id entity => { entity with id }) ids config.publishers []
        (config.drained ids).2.2).1 ∧
      oldConsumers = (ensureIds ConsumerConfig.id (fun id entity => { entity with id }) ids
        (config.consumers.map migrateConsumerResponse) [] (config.withIds ids).2).1 ∧
      (∀ publisher ∈ newPublishers, MadePublisher config.publishers config.routes publisher ∧
        ∃ n, publisher.id = ids n) ∧
      List.Forall₂ (fun route consumer => RouteConsumer config.publishers newPublishers route.2 consumer)
        config.routes newConsumers := by
  obtain ⟨newP, newC, drainedP, drainedC, made, areRoutes⟩ := @migrateRoutes_spec ids config.publishers []
    (config.consumers.map migrateConsumerResponse) 0 config.routes
  rw [List.append_nil, List.nil_append] at drainedP
  rw [List.append_nil] at drainedC
  obtain ⟨publishers, consumers⟩ := withIds_append fresh drainedP drainedC
  refine ⟨_, newP, _, newC, by rw [publishers], consumers, rfl, rfl, fun publisher member => ⟨made publisher member, ?_⟩,
    areRoutes⟩
  obtain ⟨newP', newC', sameP, sameC, given⟩ := drained_adds ids config
  have drainedP' : (config.drained ids).1 = config.publishers ++ newP := drainedP
  rw [drainedP', List.append_cancel_left_eq] at sameP
  subst sameP
  obtain ⟨n, -, same⟩ := given publisher.id (List.mem_append_left _ (List.mem_map_of_mem member))
  exact ⟨n, same⟩

/-- What becomes of a publisher that was there: it keeps everything but its id. -/
theorem migrated_publisher (fresh : ids.Fresh config.entityIds) {i : Nat} {publisher : PublisherClient}
    (here : config.publishers[i]? = some publisher) :
    ∃ id : Text, (config.migrateLegacyRoutes ids).publishers[i]? = some { publisher with id } ∧
      (KeepsId PublisherClient.id [] (config.publishers.take i) publisher → id = publisher.id) ∧
      (¬ KeepsId PublisherClient.id [] (config.publishers.take i) publisher → ∃ n, id = ids n) := by
  obtain ⟨oldP, newP, -, -, shape, -, isOld, -⟩ := migrated_shape fresh
  have unused : ids.Unused (config.drained ids).2.2 (config.publishers.map (·.id)) :=
    fresh.unused.mono (Nat.zero_le _) fun _ => List.mem_append_left _
  obtain ⟨publisher', there, keeps, replaced⟩ := @ensureIds_getElem? _ PublisherClient.id
    (fun id entity => { entity with id }) ids _ [] _ i _ here unused
  have inside : (config.migrateLegacyRoutes ids).publishers[i]? = some publisher' := by
    rw [← isOld] at there
    rw [migrateLegacyRoutes_eq, shape, List.getElem?_append_left (List.getElem?_eq_some_iff.mp there).1, there]
  by_cases kept : KeepsId PublisherClient.id [] (config.publishers.take i) publisher
  · obtain rfl := keeps kept
    exact ⟨_, inside, fun _ => rfl, fun given => absurd kept given⟩
  · obtain ⟨n, -, rfl⟩ := replaced kept
    exact ⟨_, inside, fun given => absurd given kept, fun _ => ⟨n, rfl⟩⟩

theorem mem_migrated_publishers {publisher : PublisherClient}
    (member : publisher ∈ (config.migrateLegacyRoutes ids).publishers) :
    publisher ∈ config.publishers ∨ ∃ n, publisher.id = ids n := by
  rw [migrateLegacyRoutes_eq] at member
  obtain ⟨original, inside, same | ⟨n, rfl⟩⟩ := mem_ensureIds member
  · subst same
    obtain ⟨newP, newC, publishers, -, given⟩ := drained_adds ids config
    rw [publishers] at inside
    rcases List.mem_append.mp inside with old | new
    · exact Or.inl old
    · obtain ⟨n, -, same⟩ := given _ (List.mem_append_left _ (List.mem_map_of_mem new))
      exact Or.inr ⟨n, same⟩
  · exact Or.inr ⟨n, rfl⟩

structure FinalPublishers (ids : IdSupply) (config : AppConfig) (final : List PublisherClient) : Prop where
  distinct : (final.map (·.id)).Nodup
  full : ∀ publisher ∈ final, trim publisher.id ≠ []
  old : ∀ i publisher, config.publishers[i]? = some publisher → ∃ publisher', final[i]? = some publisher' ∧
    publisher'.name = publisher.name ∧ publisher'.endpoint = publisher.endpoint ∧
    (KeepsId PublisherClient.id [] (config.publishers.take i) publisher → publisher'.id = publisher.id) ∧
    (¬ KeepsId PublisherClient.id [] (config.publishers.take i) publisher → ∃ n, publisher'.id = ids n)
  new : ∀ i publisher', final[i]? = some publisher' → config.publishers.length ≤ i →
    MadePublisher config.publishers config.routes publisher' ∧ ∃ n, publisher'.id = ids n
  lastName : ∀ name last, last < config.publishers.length →
    (Assoc.lastIndex (fun publisher => publisher.name == name) final = some last ↔
      Assoc.lastIndex (fun publisher => publisher.name == name) config.publishers = some last)

theorem map_name_ensureIds {entities : List PublisherClient} {known : List Text} {used : Nat} :
    (ensureIds PublisherClient.id (fun id entity => { entity with id }) ids entities known used).1.map (·.name) =
      entities.map (·.name) := by
  induction entities generalizing known used with
  | nil => rfl
  | cons entity rest ih =>
    by_cases kept : trim entity.id ≠ [] ∧ entity.id ∉ known
    · rw [ensureIds_cons_kept kept, List.map_cons, List.map_cons, ih]
    · rw [ensureIds_cons_replaced kept, List.map_cons, List.map_cons, ih]

theorem finalPublishers (fresh : ids.Fresh config.entityIds) :
    FinalPublishers ids config (config.migrateLegacyRoutes ids).publishers := by
  have resolved := resolved_migrate fresh
  obtain ⟨oldP, newP, -, -, shape, -, isOld, -, made, -⟩ := migrated_shape fresh
  have publishers : (config.migrateLegacyRoutes ids).publishers = oldP ++ newP := by
    rw [migrateLegacyRoutes_eq, ← shape]
  have long : oldP.length = config.publishers.length := by rw [isOld, ensureIds_length]
  have names : oldP.map (·.name) = config.publishers.map (·.name) := by rw [isOld, map_name_ensureIds]
  refine ⟨resolved.publisherIds, resolved.publisherIdsFull, fun i publisher here => ?_, fun i publisher' here later => ?_,
    fun name last below => ?_⟩
  · obtain ⟨id, there, keeps, replaced⟩ := migrated_publisher fresh here
    exact ⟨_, there, rfl, rfl, keeps, replaced⟩
  · rw [publishers, List.getElem?_append_right (long ▸ later)] at here
    exact made publisher' (List.mem_of_getElem? here)
  · have same : Assoc.lastIndex (fun publisher : PublisherClient => publisher.name == name) oldP =
        Assoc.lastIndex (fun publisher : PublisherClient => publisher.name == name) config.publishers := by
      apply Assoc.lastIndex_congr
      have both := congrArg (List.map (· == name)) names
      rwa [List.map_map, List.map_map] at both
    rw [publishers, Assoc.lastIndex_append, same]
    cases added : Assoc.lastIndex (fun publisher : PublisherClient => publisher.name == name) newP with
    | none => rw [Option.map_none, Option.none_or]
    | some i =>
      -- a name of a new publisher is not one of those before
      obtain ⟨⟨publisher, here, named⟩, -⟩ := Assoc.lastIndex_eq_some added
      rw [Option.map_some, Option.some_or]
      constructor
      · intro equal
        have := Option.some.inj equal
        omega
      · intro found
        obtain ⟨⟨other, there, named'⟩, -⟩ := Assoc.lastIndex_eq_some found
        have taken : publisher.name ∈ config.publishers.map (·.name) := by
          rw [eq_of_beq named, ← eq_of_beq named']
          exact List.mem_map_of_mem (List.mem_of_getElem? there)
        exact absurd taken (made publisher (List.mem_of_getElem? here)).1.name

theorem FinalPublishers.unique {final : List PublisherClient} (publishers : FinalPublishers ids config final)
    {a b : PublisherClient} (inA : a ∈ final) (inB : b ∈ final) (same : a.id = b.id) : a = b :=
  List.inj_on_of_nodup_map publishers.distinct inA inB same

theorem FinalPublishers.first {final : List PublisherClient} (publishers : FinalPublishers ids config final) {k : Nat}
    {publisher : PublisherClient} (here : config.publishers[k]? = some publisher) (full : trim publisher.id ≠ []) :
    ∃ i first first', i ≤ k ∧ config.publishers[i]? = some first ∧ final[i]? = some first' ∧
      first'.id = publisher.id ∧ first'.endpoint = first.endpoint ∧
      config.publishers.find? (fun other => other.id == publisher.id) = some first := by
  obtain ⟨i, first, below, there, equal, keeps⟩ := exists_keepsId here full
  obtain ⟨first', found, -, endpoint, kept, -⟩ := publishers.old i first there
  refine ⟨i, first, first', below, there, found, (kept keeps).trans equal, endpoint, ?_⟩
  obtain ⟨inside, same⟩ := List.getElem?_eq_some_iff.mp there
  apply List.find?_eq_some_iff_getElem.mpr
  refine ⟨by simpa using equal, i, inside, same, fun j earlier => ?_⟩
  have other := keeps.2.2 config.publishers[j] (by
    apply List.mem_iff_getElem?.mpr
    exact ⟨j, by rw [List.getElem?_take_of_lt earlier, List.getElem?_eq_getElem]⟩)
  rw [equal] at other
  simpa using other

end Migrated

/-! ### Routes and references -/

/-- A route's output is null, or the one its consumer's reference leads to. -/
def OutputLeads (publishers : List PublisherClient) (config : RouteConfig) (output : ConsumerOutputConfig) : Prop :=
  if EndpointType.isNull config.route.output.endpointType then output = .none
  else ∃ publisher ∈ publishers, (∃ name, output = .publisher name (some publisher.id)) ∧
    sameEndpointValue publisher.endpoint config.route.output = true

/-- Every route is a consumer, nothing that was there is lost, and every reference still leads where it
led. -/
structure RoutesMigrated (config migrated : AppConfig) : Prop where
  publishers : ∀ (i : Nat) (publisher : PublisherClient), config.publishers[i]? = some publisher →
    ∃ publisher' : PublisherClient, migrated.publishers[i]? = some publisher' ∧ publisher'.endpoint = publisher.endpoint
  consumers : ∀ (i : Nat) (consumer : ConsumerConfig), config.consumers[i]? = some consumer →
    ∃ consumer' : ConsumerConfig, migrated.consumers[i]? = some consumer' ∧ consumer'.endpoint = consumer.endpoint
  routes : List.Forall₂ (fun route consumer => consumer.endpoint = route.2.route.input ∧
      consumer.options = route.2.route.options ∧ consumer.enabled = route.2.enabled ∧
      OutputLeads migrated.publishers route.2 consumer.output)
    config.routes (migrated.consumers.drop config.consumers.length)
  references : ∀ (i : Nat) (consumer : ConsumerConfig) (name : Text) (publisherId : Option Text),
    config.consumers[i]? = some consumer → consumer.output = .publisher name publisherId →
    ∀ place, referencedIndex config.publishers name publisherId = some place →
      ∃ (consumer' : ConsumerConfig) (name' : Text) (publisher' : PublisherClient), migrated.consumers[i]? = some consumer' ∧
        migrated.publishers[place]? = some publisher' ∧ consumer'.output = .publisher name' (some publisher'.id)

/-- The publisher with a route's output keeps its id, or its id or name leads to another with the same
output. -/
def RouteOutputKept (publishers : List PublisherClient) (config : RouteConfig) : Prop :=
  ∀ existing, sameOutput publishers config = some existing →
    if trim existing.id = [] then
      ∃ last named, Assoc.lastIndex (fun publisher => publisher.name == trim existing.name) publishers = some last ∧
        publishers[last]? = some named ∧ sameEndpointValue named.endpoint config.route.output = true
    else
      ∃ first, publishers.find? (fun publisher => publisher.id == existing.id) = some first ∧
        sameEndpointValue first.endpoint config.route.output = true

/-- No reference carries an id that two publishers have, or a blank one that its name does not make up for. -/
def ReferenceKept (publishers : List PublisherClient) (name id : Text) : Prop :=
  ∀ last, Assoc.lastIndex (fun publisher => publisher.id == id) publishers = some last →
    if trim id = [] then Assoc.lastIndex (fun publisher => publisher.name == trim name) publishers = some last
    else ∀ i publisher, publishers[i]? = some publisher → publisher.id = id → i = last

def AppConfig.outputEndpoints (config : AppConfig) : List Endpoint :=
  config.publishers.map (·.endpoint) ++ config.routes.map (·.2.route.output)

def AppConfig.referencedIds (config : AppConfig) : List Text :=
  config.consumers.flatMap fun consumer =>
    match consumer.output with
    | .publisher _ (some id) => [id]
    | _ => []

section Kept
variable {ids : IdSupply} {config : AppConfig} {final : List PublisherClient}

theorem normalize_byName {name : Text} {publisherId : Option Text} (missing : publisherId.bind (nameOfId final) = none) :
    normalizePublisherOutput (nameOfId final) (idOfName final) (.publisher name publisherId) =
      .publisher (trim name) (idOfName final (trim name)) := by
  rw [normalizePublisherOutput_publisher, missing]

theorem nameOfId_eq_none {id : Text} (absent : ∀ publisher ∈ final, publisher.id ≠ id) : nameOfId final id = none := by
  rw [Option.eq_none_iff_forall_ne_some]
  intro name found
  obtain ⟨publisher, member, same, -⟩ := mem_of_nameOfId found
  exact absent publisher member same

theorem idOfName_of_last {name : Text} {last : Nat} {publisher : PublisherClient}
    (found : Assoc.lastIndex (fun publisher => publisher.name == name) final = some last)
    (here : final[last]? = some publisher) : idOfName final name = some publisher.id := by
  rw [idOfName_eq, found, Option.bind_some, here]
  rfl

theorem routeOutput_leads_iff (final_ : FinalPublishers ids config final)
    (distinctKeys : ∀ endpoint ∈ config.outputEndpoints, endpoint.toValue.Distinct) {made : List PublisherClient}
    (subset : ∀ publisher ∈ made, publisher ∈ final) {route : Text × RouteConfig} (member : route ∈ config.routes)
    {output : ConsumerOutputConfig} (given : RouteOutput config.publishers made route.2 output) :
    OutputLeads final route.2 (normalizePublisherOutput (nameOfId final) (idOfName final) output) ↔
      (EndpointType.isNull route.2.route.output.endpointType = false → RouteOutputKept config.publishers route.2) := by
  have outputDistinct : route.2.route.output.toValue.Distinct :=
    distinctKeys _ (List.mem_append_right _ (List.mem_map.mpr ⟨route, member, rfl⟩))
  unfold OutputLeads
  unfold RouteOutput at given
  cases null : EndpointType.isNull route.2.route.output.endpointType with
  | true =>
    rw [null, if_pos rfl] at given
    rw [if_pos rfl, given]
    exact iff_of_true rfl nofun
  | false =>
    rw [null, if_neg (by decide)] at given
    rw [if_neg (by decide)]
    obtain ⟨existing, rfl, old | ⟨new, inMade, same⟩⟩ := given
    · obtain ⟨isPublisher, equal⟩ := sameOutput_some old
      obtain ⟨k, here⟩ := List.mem_iff_getElem?.mp isPublisher
      have kept : RouteOutputKept config.publishers route.2 ↔
          if trim existing.id = [] then
            ∃ last named, Assoc.lastIndex (fun publisher => publisher.name == trim existing.name) config.publishers =
              some last ∧ config.publishers[last]? = some named ∧
              sameEndpointValue named.endpoint route.2.route.output = true
          else ∃ first, config.publishers.find? (fun publisher => publisher.id == existing.id) = some first ∧
            sameEndpointValue first.endpoint route.2.route.output = true := by
        unfold RouteOutputKept
        rw [old]
        exact ⟨fun all => all existing rfl, fun holds other found => Option.some.inj found ▸ holds⟩
      rw [kept]
      simp only [forall_const]
      by_cases blank : trim existing.id = []
      · rw [if_pos blank]
        have missing : (some existing.id).bind (nameOfId final) = none :=
          nameOfId_eq_none fun publisher inside same => final_.full publisher inside (same ▸ blank)
        rw [normalize_byName missing]
        constructor
        · rintro ⟨publisher, inside, ⟨name, leads⟩, equal'⟩
          obtain ⟨-, found⟩ := ConsumerOutputConfig.publisher.inj leads
          cases last : Assoc.lastIndex (fun publisher => publisher.name == trim existing.name) final with
          | none =>
            rw [idOfName_eq, last] at found
            cases found
          | some i =>
            obtain ⟨⟨named, there, -⟩, -⟩ := Assoc.lastIndex_eq_some last
            rw [idOfName_of_last last there] at found
            obtain rfl := final_.unique (List.mem_of_getElem? there) inside (Option.some.inj found)
            by_cases below : i < config.publishers.length
            · obtain ⟨publisher', found', -, endpoint, -⟩ := final_.old i _ (List.getElem?_eq_getElem below)
              obtain rfl := Option.some.inj (found'.symm.trans there)
              exact ⟨i, _, (final_.lastName _ i below).mp last, List.getElem?_eq_getElem below, endpoint ▸ equal'⟩
            · -- a new publisher under the name has another endpoint
              obtain ⟨madeFor, -⟩ := final_.new i _ there (Nat.le_of_not_lt below)
              obtain ⟨source, inRoutes, same⟩ := madeFor.route
              have distinctMade : named.endpoint.toValue.Distinct :=
                same ▸ distinctKeys _ (List.mem_append_right _ (List.mem_map.mpr ⟨source, inRoutes, rfl⟩))
              have back := Json.same_symm distinctMade outputDistinct equal'
              have through : sameEndpointValue existing.endpoint named.endpoint = true := Json.same_trans equal back
              rw [madeFor.endpoint existing isPublisher] at through
              cases through
        · rintro ⟨last, named, found, here', equal'⟩
          have below : last < config.publishers.length := (List.getElem?_eq_some_iff.mp here').1
          obtain ⟨publisher', there, -, endpoint, -⟩ := final_.old last named here'
          have found' := (final_.lastName _ last below).mpr found
          rw [idOfName_of_last found' there]
          exact ⟨publisher', List.mem_of_getElem? there, ⟨_, rfl⟩, endpoint ▸ equal'⟩
      · rw [if_neg blank]
        obtain ⟨i, first, first', -, -, there, sameId, endpoint, found⟩ := final_.first here blank
        have inside := List.mem_of_getElem? there
        have byId : (some existing.id).bind (nameOfId final) = some first'.name := by
          rw [Option.bind_some, ← sameId, nameOfId_of_mem final_.distinct inside]
        rw [normalizePublisherOutput_publisher, byId]
        constructor
        · rintro ⟨publisher, isFinal, ⟨name, leads⟩, equal'⟩
          obtain ⟨-, same⟩ := ConsumerOutputConfig.publisher.inj leads
          obtain rfl := final_.unique inside isFinal (sameId.trans (Option.some.inj same))
          exact ⟨first, found, endpoint ▸ equal'⟩
        · rintro ⟨other, found', equal'⟩
          obtain rfl := Option.some.inj (found.symm.trans found')
          exact ⟨first', inside, ⟨_, by rw [sameId]⟩, endpoint ▸ equal'⟩
    · have inside := subset existing inMade
      have byId : (some existing.id).bind (nameOfId final) = some existing.name := by
        rw [Option.bind_some, nameOfId_of_mem final_.distinct inside]
      rw [normalizePublisherOutput_publisher, byId]
      refine iff_of_true ⟨existing, inside, ⟨_, rfl⟩, ?_⟩ fun _ other found => ?_
      · rcases same with same | same
        · exact same
        · rw [same]
          exact Json.same_refl outputDistinct
      · rw [new] at found
        cases found

theorem leads_byName (final_ : FinalPublishers ids config final) {name : Text} {publisherId : Option Text} {last : Nat}
    (missing : publisherId.bind (nameOfId final) = none)
    (found : Assoc.lastIndex (fun publisher => publisher.name == trim name) config.publishers = some last) :
    ∃ name' publisher', final[last]? = some publisher' ∧
      normalizePublisherOutput (nameOfId final) (idOfName final) (.publisher name publisherId) =
        .publisher name' (some publisher'.id) := by
  obtain ⟨⟨publisher, here, -⟩, -⟩ := Assoc.lastIndex_eq_some found
  obtain ⟨publisher', there, -⟩ := final_.old last publisher here
  refine ⟨trim name, publisher', there, ?_⟩
  have found' := (final_.lastName _ last (List.getElem?_eq_some_iff.mp here).1).mpr found
  rw [normalize_byName missing, idOfName_of_last found' there]

theorem reference_leads_iff (final_ : FinalPublishers ids config final) {name : Text} {publisherId : Option Text}
    (apart : ∀ id, publisherId = some id → ∀ n, ids n ≠ id) :
    (∀ place, referencedIndex config.publishers name publisherId = some place → ∃ name' publisher',
        final[place]? = some publisher' ∧
          normalizePublisherOutput (nameOfId final) (idOfName final) (.publisher name publisherId) =
            .publisher name' (some publisher'.id)) ↔
      ∀ id, publisherId = some id → ReferenceKept config.publishers name id := by
  have distinct : ∀ {i j : Nat} {a b : PublisherClient}, final[i]? = some a → final[j]? = some b → a.id = b.id → i = j := by
    intro i j a b hereA hereB same
    obtain ⟨longI, atI⟩ := List.getElem?_eq_some_iff.mp hereA
    obtain ⟨longJ, atJ⟩ := List.getElem?_eq_some_iff.mp hereB
    have inI : i < (final.map (·.id)).length := by simpa using longI
    have inJ : j < (final.map (·.id)).length := by simpa using longJ
    exact (@List.Nodup.getElem_inj_iff _ _ final_.distinct i inI j inJ).mp (by simp [atI, atJ, same])
  constructor
  · rintro leads id rfl last found
    have place : referencedIndex config.publishers name (some id) = some last := by
      rw [referencedIndex, Option.bind_some, found, Option.some_or]
    obtain ⟨name', publisher', there, normal⟩ := leads last place
    obtain ⟨⟨holder, here, holds⟩, most⟩ := Assoc.lastIndex_eq_some found
    obtain rfl : holder.id = id := eq_of_beq holds
    split
    · next blank =>
      have missing : (some holder.id).bind (nameOfId final) = none :=
        nameOfId_eq_none fun publisher inside same => final_.full publisher inside (same ▸ blank)
      rw [normalize_byName missing] at normal
      have byName := (ConsumerOutputConfig.publisher.inj normal).2
      cases named : Assoc.lastIndex (fun publisher => publisher.name == trim name) final with
      | none =>
        rw [idOfName_eq, named] at byName
        cases byName
      | some i =>
        obtain ⟨⟨publisher, atI, -⟩, -⟩ := Assoc.lastIndex_eq_some named
        rw [idOfName_of_last named atI] at byName
        obtain rfl := distinct atI there (Option.some.inj byName)
        exact (final_.lastName _ i (List.getElem?_eq_some_iff.mp here).1).mp named
    · next full =>
      intro k publisher atK same
      obtain ⟨i, first, first', below, -, found', sameId, -, -⟩ := final_.first atK (same ▸ full)
      have byId : (some holder.id).bind (nameOfId final) = some first'.name := by
        rw [Option.bind_some, ← same, ← sameId, nameOfId_of_mem final_.distinct (List.mem_of_getElem? found')]
      rw [normalizePublisherOutput_publisher, byId] at normal
      have equal := Option.some.inj (ConsumerOutputConfig.publisher.inj normal).2
      have atLast := distinct found' there (sameId.trans (same.trans equal))
      have latest := most k publisher atK (by simpa using same)
      omega
  · intro kept place placed
    cases held : publisherId.bind fun id => Assoc.lastIndex (fun publisher => publisher.id == id) config.publishers with
    | some last =>
      obtain ⟨id, rfl, found⟩ := Option.bind_eq_some_iff.mp held
      rw [referencedIndex, held, Option.some_or] at placed
      obtain rfl := Option.some.inj placed
      have holds := kept id rfl last found
      obtain ⟨⟨holder, here, isHit⟩, -⟩ := Assoc.lastIndex_eq_some found
      obtain rfl : holder.id = id := eq_of_beq isHit
      split at holds
      · next blank =>
        exact leads_byName final_
          (nameOfId_eq_none fun publisher inside same => final_.full publisher inside (same ▸ blank)) holds
      · next full =>
        obtain ⟨i, first, first', -, atI, there, sameId, -, found'⟩ := final_.first here full
        have same : first.id = holder.id := by simpa using List.find?_some found'
        obtain rfl := holds i first atI same
        refine ⟨first'.name, first', there, ?_⟩
        have byId : (some holder.id).bind (nameOfId final) = some first'.name := by
          rw [Option.bind_some, ← sameId, nameOfId_of_mem final_.distinct (List.mem_of_getElem? there)]
        rw [normalizePublisherOutput_publisher, byId, sameId]
    | none =>
      rw [referencedIndex, held, Option.none_or] at placed
      refine leads_byName final_ ?_ placed
      rw [Option.bind_eq_none_iff]
      intro id given
      have absent := Option.bind_eq_none_iff.mp held id given
      have unheld := Assoc.lastIndex_eq_none.mp absent
      apply nameOfId_eq_none
      intro publisher inside same
      obtain ⟨i, there⟩ := List.mem_iff_getElem?.mp inside
      by_cases below : i < config.publishers.length
      · obtain ⟨publisher', found, -, -, keeps, replaced⟩ := final_.old i _ (List.getElem?_eq_getElem below)
        obtain rfl := Option.some.inj (found.symm.trans there)
        by_cases keep : KeepsId PublisherClient.id [] (config.publishers.take i) config.publishers[i]
        · have missed := unheld _ (List.getElem_mem below)
          rw [← keeps keep, same] at missed
          simp at missed
        · obtain ⟨n, generated⟩ := replaced keep
          exact apart id given n (generated.symm.trans same)
      · obtain ⟨-, n, generated⟩ := final_.new i _ there (Nat.le_of_not_lt below)
        exact apart id given n (generated.symm.trans same)

end Kept

/-! ### Every route and every reference -/

section Main
variable {ids : IdSupply} {config : AppConfig}

theorem migrateConsumerResponse_publisher {consumer : ConsumerConfig} {name : Text} {publisherId : Option Text}
    (output : consumer.output = .publisher name publisherId) :
    (migrateConsumerResponse consumer).output = .publisher name publisherId := by
  unfold migrateConsumerResponse
  split
  · next none _ =>
    rw [none] at output
    cases output
  · exact output

/-- What becomes of a consumer that was there: its legacy response moves, and its output is resolved. -/
theorem migrated_consumer_eq (fresh : ids.Fresh config.entityIds) {i : Nat} {consumer : ConsumerConfig}
    (here : config.consumers[i]? = some consumer) :
    ∃ id : Text, (config.migrateLegacyRoutes ids).consumers[i]? = some { migrateConsumerResponse consumer with
        id
        output := normalizePublisherOutput (nameOfId (config.migrateLegacyRoutes ids).publishers)
          (idOfName (config.migrateLegacyRoutes ids).publishers) (migrateConsumerResponse consumer).output } ∧
      (KeepsId ConsumerConfig.id [] (config.consumers.take i) consumer → id = consumer.id) := by
  obtain ⟨-, -, oldC, newC, -, consumers, -, isOld, -, -⟩ := migrated_shape fresh
  have unused : ids.Unused (config.withIds ids).2 ((config.consumers.map migrateConsumerResponse).map (·.id)) := by
    rw [map_id_migrateConsumerResponse]
    exact fresh.unused.mono (Nat.zero_le _) fun _ => List.mem_append_right _
  have moved : (config.consumers.map migrateConsumerResponse)[i]? = some (migrateConsumerResponse consumer) := by
    rw [List.getElem?_map, here]
    rfl
  obtain ⟨consumer', there, keeps, replaced⟩ := @ensureIds_getElem? _ ConsumerConfig.id
    (fun id entity => { entity with id }) ids _ [] _ i _ moved unused
  have inside : (config.identified ids)[i]? = some consumer' := by
    rw [← isOld] at there
    rw [consumers, List.getElem?_append_left (List.getElem?_eq_some_iff.mp there).1, there]
  rw [migrateLegacyRoutes_eq]
  by_cases same : KeepsId ConsumerConfig.id [] ((config.consumers.map migrateConsumerResponse).take i)
      (migrateConsumerResponse consumer)
  · obtain rfl := keeps same
    exact ⟨_, by rw [List.getElem?_map, inside]; rfl, fun _ => (migrateConsumerResponse_id consumer).1⟩
  · obtain ⟨n, -, rfl⟩ := replaced same
    refine ⟨ids n, by rw [List.getElem?_map, inside]; rfl, fun keeps => absurd ?_ same⟩
    obtain ⟨full, -, apart⟩ := keeps
    rw [KeepsId, (migrateConsumerResponse_id consumer).1]
    refine ⟨full, List.not_mem_nil, fun other inside => ?_⟩
    rw [← List.map_take] at inside
    obtain ⟨original, before, rfl⟩ := List.mem_map.mp inside
    rw [(migrateConsumerResponse_id original).1]
    exact apart original before

theorem migrated_consumer (fresh : ids.Fresh config.entityIds) {i : Nat} {consumer : ConsumerConfig}
    (here : config.consumers[i]? = some consumer) :
    ∃ consumer' : ConsumerConfig, (config.migrateLegacyRoutes ids).consumers[i]? = some consumer' ∧
      consumer'.endpoint = consumer.endpoint ∧
      consumer'.output = normalizePublisherOutput (nameOfId (config.migrateLegacyRoutes ids).publishers)
        (idOfName (config.migrateLegacyRoutes ids).publishers) (migrateConsumerResponse consumer).output := by
  obtain ⟨id, there, -⟩ := migrated_consumer_eq fresh here
  refine ⟨_, there, ?_, rfl⟩
  unfold migrateConsumerResponse
  split <;> rfl

theorem mem_migrated_consumers {consumer : ConsumerConfig}
    (member : consumer ∈ (config.migrateLegacyRoutes ids).consumers) :
    (∃ original ∈ config.consumers, consumer.id = original.id ∧ consumer.name = original.name) ∨
      ∃ n, consumer.id = ids n := by
  rw [migrateLegacyRoutes_eq] at member
  obtain ⟨identified, inside, rfl⟩ := List.mem_map.mp member
  obtain ⟨drained, there, same | ⟨n, rfl⟩⟩ := mem_ensureIds inside
  · subst same
    obtain ⟨newP, newC, -, consumers, given⟩ := drained_adds ids config
    rw [consumers] at there
    rcases List.mem_append.mp there with old | new
    · obtain ⟨original, before, rfl⟩ := List.mem_map.mp old
      exact Or.inl ⟨original, before, migrateConsumerResponse_id original⟩
    · obtain ⟨n, -, same⟩ := given _ (List.mem_append_right _ (List.mem_map_of_mem new))
      exact Or.inr ⟨n, same⟩
  · exact Or.inr ⟨n, rfl⟩

theorem migrated_routes (fresh : ids.Fresh config.entityIds) : ∃ made newConsumers,
    (∀ publisher ∈ made, publisher ∈ (config.migrateLegacyRoutes ids).publishers) ∧
      List.Forall₂ (fun route consumer => RouteConsumer config.publishers made route.2 consumer)
        config.routes newConsumers ∧
      (config.migrateLegacyRoutes ids).consumers.drop config.consumers.length =
        newConsumers.map fun consumer =>
          { consumer with
            output := normalizePublisherOutput (nameOfId (config.migrateLegacyRoutes ids).publishers)
              (idOfName (config.migrateLegacyRoutes ids).publishers) consumer.output } := by
  obtain ⟨oldP, newP, oldC, newC, publishers, consumers, -, isOld, -, areRoutes⟩ := migrated_shape fresh
  have long : oldC.length = config.consumers.length := by rw [isOld, ensureIds_length, List.length_map]
  refine ⟨newP, newC, fun publisher member => ?_, areRoutes, ?_⟩
  · rw [migrateLegacyRoutes_eq, publishers]
    exact List.mem_append_right _ member
  · rw [migrateLegacyRoutes_eq, consumers, ← List.map_drop, List.drop_left' long]

/-- Migration turns every route into its consumer and keeps every reference, exactly when the ids it
replaces are in the way of none. Objects have every key once. -/
theorem routesMigrated_iff (ids : IdSupply) (config : AppConfig)
    (fresh : ids.Fresh (config.entityIds ++ config.referencedIds))
    (distinctKeys : ∀ endpoint ∈ config.outputEndpoints, endpoint.toValue.Distinct) :
    RoutesMigrated config (config.migrateLegacyRoutes ids) ↔
      (∀ route ∈ config.routes, EndpointType.isNull route.2.route.output.endpointType = false →
        RouteOutputKept config.publishers route.2) ∧
      ∀ consumer ∈ config.consumers, ∀ name id, consumer.output = .publisher name (some id) →
        ReferenceKept config.publishers name id := by
  have freshIds : ids.Fresh config.entityIds :=
    { fresh with unused := fresh.unused.mono (Nat.zero_le _) fun _ => List.mem_append_left _ }
  have final_ := finalPublishers freshIds
  obtain ⟨made, newC, subset, areRoutes, added⟩ := migrated_routes freshIds
  have routes : List.Forall₂ (fun route consumer => consumer.endpoint = route.2.route.input ∧
      consumer.options = route.2.route.options ∧ consumer.enabled = route.2.enabled ∧
      OutputLeads (config.migrateLegacyRoutes ids).publishers route.2 consumer.output) config.routes
      ((config.migrateLegacyRoutes ids).consumers.drop config.consumers.length) ↔
      ∀ route ∈ config.routes, EndpointType.isNull route.2.route.output.endpointType = false →
        RouteOutputKept config.publishers route.2 := by
    rw [added, List.forall₂_map_right_iff]
    apply Lists.forall₂_iff_forall areRoutes
    intro route member consumer isRoute
    rw [← routeOutput_leads_iff final_ distinctKeys subset member isRoute.output]
    exact ⟨fun holds => holds.2.2.2, fun leads => ⟨isRoute.endpoint, isRoute.options, isRoute.enabled, leads⟩⟩
  have apart : ∀ consumer ∈ config.consumers, ∀ name publisherId, consumer.output = .publisher name publisherId →
      ∀ id, publisherId = some id → ∀ n, ids n ≠ id := by
    rintro consumer member name publisherId output id rfl n rfl
    apply fresh.unused n (Nat.zero_le n)
    apply List.mem_append_right
    refine List.mem_flatMap.mpr ⟨consumer, member, ?_⟩
    rw [output]
    exact List.mem_singleton_self _
  constructor
  · intro migrated
    refine ⟨routes.mp migrated.routes, fun consumer member name id output => ?_⟩
    obtain ⟨i, here⟩ := List.mem_iff_getElem?.mp member
    refine (reference_leads_iff final_ (apart consumer member name (some id) output)).mp ?_ id rfl
    intro place placed
    obtain ⟨consumer', name', publisher', there, found, leads⟩ :=
      migrated.references i consumer name (some id) here output place placed
    obtain ⟨consumer'', there', -, normal⟩ := migrated_consumer freshIds here
    obtain rfl := Option.some.inj (there.symm.trans there')
    rw [migrateConsumerResponse_publisher output] at normal
    exact ⟨name', publisher', found, normal.symm.trans leads⟩
  · rintro ⟨outputs, kept⟩
    refine ⟨fun i publisher here => ?_, fun i consumer here => ?_, routes.mpr outputs, ?_⟩
    · obtain ⟨publisher', there, -, endpoint, -⟩ := final_.old i publisher here
      exact ⟨publisher', there, endpoint⟩
    · obtain ⟨consumer', there, endpoint, -⟩ := migrated_consumer freshIds here
      exact ⟨consumer', there, endpoint⟩
    · intro i consumer name publisherId here output place placed
      have member := List.mem_of_getElem? here
      have leads := (reference_leads_iff final_ (apart consumer member name publisherId output)).mpr
        (fun id given => kept consumer member name id (given ▸ output)) place placed
      obtain ⟨name', publisher', found, normal'⟩ := leads
      obtain ⟨consumer', there, -, normal⟩ := migrated_consumer freshIds here
      rw [migrateConsumerResponse_publisher output, normal'] at normal
      exact ⟨consumer', name', publisher', there, found, normal⟩

end Main

def twoPublishers (second : Text) : AppConfig where
  routes := [("orders", { route :=
    ⟨.new (.connector .memory (.record [("topic", .str "in")])), .new (.connector .memory (.record [("topic", .str "out")])), {}⟩ })]
  consumers := [{ id := "c1", name := "audit", endpoint := .new .null, output := .publisher "mirror" (some "p1") }]
  publishers := [{ id := "p1", name := "mirror", endpoint := .new .response },
    { id := second, name := "out", endpoint := .new (.connector .memory (.record [("topic", .str "out")])) }]

theorem routesMigrated_twoPublishers :
    RoutesMigrated (twoPublishers "p2") ((twoPublishers "p2").migrateLegacyRoutes tallyIds) := by
  refine (routesMigrated_iff tallyIds (twoPublishers "p2") (tallyIds_fresh (by decide)) ?_).mpr ⟨?_, ?_⟩
  · intro endpoint member
    simp only [AppConfig.outputEndpoints, twoPublishers, List.map_cons, List.map_nil, List.cons_append,
      List.nil_append, List.mem_cons, List.not_mem_nil, or_false] at member
    rcases member with rfl | rfl | rfl
    · exact ⟨by decide, trivial, ⟨by decide, trivial⟩, trivial⟩
    · exact ⟨by decide, trivial, ⟨by decide, trivial, trivial⟩, trivial⟩
    · exact ⟨by decide, trivial, ⟨by decide, trivial, trivial⟩, trivial⟩
  · intro route member _ existing same
    obtain rfl := List.mem_singleton.mp member
    have isOut : existing = (twoPublishers "p2").publishers[1] := Option.some.inj (same.symm.trans rfl)
    rw [isOut, if_neg (by decide)]
    exact ⟨_, rfl, rfl⟩
  · intro consumer member name id output
    obtain rfl := List.mem_singleton.mp member
    obtain rfl := Option.some.inj (ConsumerOutputConfig.publisher.inj output).2
    intro last found
    obtain rfl : 0 = last := Option.some.inj (Eq.trans (Eq.symm (by decide)) found)
    rw [if_neg (by decide)]
    intro i publisher here same
    match i with
    | 0 => rfl
    | 1 =>
      obtain rfl := Option.some.inj here
      exact absurd same (by decide)
    | i + 2 => cases here

/-- With the same id on both, the route's consumer writes to the first. -/
theorem not_routesMigrated_twoPublishers :
    tallyIds.Fresh ((twoPublishers "p1").entityIds ++ (twoPublishers "p1").referencedIds) ∧
      ¬ RoutesMigrated (twoPublishers "p1") ((twoPublishers "p1").migrateLegacyRoutes tallyIds) := by
  refine ⟨tallyIds_fresh (by decide), fun migrated => ?_⟩
  obtain ⟨-, -, -, leads⟩ := (List.forall₂_cons.mp migrated.routes).1
  rw [OutputLeads, if_neg (by decide)] at leads
  obtain ⟨publisher, member, ⟨name, output⟩, same⟩ := leads
  have first : ("p1" : Text) = publisher.id := Option.some.inj (ConsumerOutputConfig.publisher.inj output).2
  have others : ∀ publisher ∈ ((twoPublishers "p1").migrateLegacyRoutes tallyIds).publishers, ("p1" : Text) = publisher.id →
      sameEndpointValue publisher.endpoint (.new (.connector .memory (.record [("topic", .str "out")]))) = false := by
    decide +kernel
  rw [others publisher member first] at same
  cases same

end MqBridge.Config
