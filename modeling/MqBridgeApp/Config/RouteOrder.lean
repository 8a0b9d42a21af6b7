import MqBridgeApp.Config.RouteMigration
import MqBridgeApp.Lib.Layout

/-!
# The order of the routes

Legacy routes are kept in a hash map, and migration takes them in its order. A route's names are chosen
among those that are left, and the first of the routes with an output names its publisher.
-/

namespace MqBridge.Config
open Text

theorem rsplitOnce_candidateName (base : Text) (k : Nat) :
    rsplitOnce '_' (candidateName (base ++ "_publisher") k) =
      match k with
      | 0 => some (base, "publisher")
      | k + 1 => some (base ++ "_publisher", ofNat (k + 1)) := by
  cases k with
  | zero => exact rsplitOnce_append (by decide)
  | succ k =>
    have digits : '_' ∉ ofNat (k + 1) := fun member => absurd (isDigit_of_mem_ofNat member) (by decide)
    have shape : candidateName (base ++ "_publisher") (k + 1) = (base ++ "_publisher") ++ '_' :: ofNat (k + 1) := by
      rw [candidateName, List.append_assoc _ ("_" : Text)]
      rfl
    rw [shape, rsplitOnce_append digits]

theorem publisherName_injective {a b : Text} {existing : List Text}
    (same : nextUniqueName (a ++ "_publisher") existing = nextUniqueName (b ++ "_publisher") existing) : a = b := by
  obtain ⟨j, nameA, -, -⟩ := nextUniqueName_spec (a ++ "_publisher") existing
  obtain ⟨k, nameB, -, -⟩ := nextUniqueName_spec (b ++ "_publisher") existing
  have split := congrArg (rsplitOnce '_') ((nameA.symm.trans same).trans nameB)
  rw [rsplitOnce_candidateName, rsplitOnce_candidateName] at split
  have noNumber : ∀ n, ("publisher" : Text) ≠ ofNat n := by
    intro n equal
    have letter : 'p' ∈ ofNat n := by
      rw [← equal]
      decide
    exact absurd (isDigit_of_mem_ofNat letter) (by decide)
  cases j with
  | zero =>
    cases k with
    | zero => exact (Prod.mk.inj (Option.some.inj split)).1
    | succ k => exact absurd (Prod.mk.inj (Option.some.inj split)).2 (noNumber _)
  | succ j =>
    cases k with
    | zero => exact absurd (Prod.mk.inj (Option.some.inj split)).2.symm (noNumber _)
    | succ k => exact List.append_cancel_right (Prod.mk.inj (Option.some.inj split)).1

/-! ### Routes on their own -/

/-- The name a route's consumer gets when no route is migrated before it. -/
def AppConfig.consumerName (config : AppConfig) (route : Text × RouteConfig) : Text :=
  nextUniqueName (trim route.1) (config.consumers.map (·.name))

/-- The output of a route is not null, and no publisher has it. -/
def AppConfig.makesPublisher (config : AppConfig) (route : Text × RouteConfig) : Bool :=
  !EndpointType.isNull route.2.route.output.endpointType && (sameOutput config.publishers route.2).isNone

/-- Two routes that compete neither for a name nor for an output. -/
structure AppConfig.Apart (config : AppConfig) (route other : Text × RouteConfig) : Prop where
  names : config.consumerName route ≠ config.consumerName other
  outputs : config.makesPublisher route = true → config.makesPublisher other = true →
    sameEndpointValue route.2.route.output other.2.route.output = false ∧
      sameEndpointValue other.2.route.output route.2.route.output = false

theorem AppConfig.Apart.symm {config : AppConfig} {route other : Text × RouteConfig} (apart : config.Apart route other) :
    config.Apart other route :=
  ⟨apart.names.symm, fun makes makes' => (apart.outputs makes' makes).symm⟩

section Alone
variable (ids : IdSupply) (config : AppConfig)

def AppConfig.idsFor (route : Text × RouteConfig) : Nat := if config.makesPublisher route then 2 else 1

/-- The publisher made for a route when its ids are taken from a place on. -/
def AppConfig.madePublisher (entry : (Text × RouteConfig) × Nat) : Option PublisherClient :=
  if config.makesPublisher entry.1 then some (routePublisher (ids entry.2) config.publishers entry.1.1 entry.1.2)
  else none

def AppConfig.madeOutput (entry : (Text × RouteConfig) × Nat) : ConsumerOutputConfig :=
  if EndpointType.isNull entry.1.2.route.output.endpointType then .none
  else
    match sameOutput config.publishers entry.1.2 with
    | some existing => .publisher existing.name (some existing.id)
    | none => .publisher (routePublisher (ids entry.2) config.publishers entry.1.1 entry.1.2).name (some (ids entry.2))

def AppConfig.madeConsumer (entry : (Text × RouteConfig) × Nat) : ConsumerConfig :=
  routeConsumer (ids (entry.2 + config.idsFor entry.1 - 1)) config.consumers entry.1.1 entry.1.2
    (config.madeOutput ids entry)

variable {ids config}

theorem routeConsumer_apart {consumers extra : List ConsumerConfig} {route : Text × RouteConfig} {id : Text}
    {output : ConsumerOutputConfig} (names : consumers.map (·.name) = config.consumers.map (·.name))
    (new : config.consumerName route ∉ extra.map (·.name)) :
    routeConsumer id (consumers ++ extra) route.1 route.2 output =
      routeConsumer id config.consumers route.1 route.2 output := by
  have same : nextUniqueName (trim route.1) ((consumers ++ extra).map (·.name)) =
      nextUniqueName (trim route.1) (config.consumers.map (·.name)) := by
    rw [List.map_append, names]
    exact nextUniqueName_append new
  rw [routeConsumer, routeConsumer, same]

/-- A route that competes with none of those before it becomes what it becomes on its own. -/
theorem migrateRoute_apart {made : List PublisherClient} {consumers extra : List ConsumerConfig} {used : Nat}
    {route : Text × RouteConfig} (names : consumers.map (·.name) = config.consumers.map (·.name))
    (new : config.consumerName route ∉ extra.map (·.name))
    (newPublisher : nextUniqueName (trim route.1 ++ "_publisher") (config.publishers.map (·.name)) ∉ made.map (·.name))
    (outputs : config.makesPublisher route = true →
      ∀ publisher ∈ made, sameEndpointValue publisher.endpoint route.2.route.output = false) :
    migrateRoute ids (config.publishers ++ made) (consumers ++ extra) used route.1 route.2 =
      (config.publishers ++ (made ++ (config.madePublisher ids (route, used)).toList),
        consumers ++ (extra ++ [config.madeConsumer ids (route, used)]), used + config.idsFor route) := by
  cases null : EndpointType.isNull route.2.route.output.endpointType with
  | true =>
    have makes : config.makesPublisher route = false := by rw [AppConfig.makesPublisher, null]; rfl
    have output : config.madeOutput ids (route, used) = .none := if_pos null
    rw [migrateRoute_null null, routeConsumer_apart names new, AppConfig.madeConsumer, AppConfig.madePublisher,
      AppConfig.idsFor, makes, output]
    simp
  | false =>
    cases same : sameOutput config.publishers route.2 with
    | some existing =>
      have makes : config.makesPublisher route = false := by rw [AppConfig.makesPublisher, null, same]; rfl
      have output : config.madeOutput ids (route, used) = .publisher existing.name (some existing.id) := by
        rw [AppConfig.madeOutput, if_neg (by simp [null]), same]
      have found : sameOutput (config.publishers ++ made) route.2 = some existing := by
        rw [sameOutput] at same
        rw [sameOutput, List.find?_append, same, Option.some_or]
      rw [migrateRoute_existing null found, routeConsumer_apart names new, AppConfig.madeConsumer,
        AppConfig.madePublisher, AppConfig.idsFor, makes, output]
      simp
    | none =>
      have makes : config.makesPublisher route = true := by rw [AppConfig.makesPublisher, null, same]; rfl
      have output : config.madeOutput ids (route, used) =
          .publisher (routePublisher (ids used) config.publishers route.1 route.2).name (some (ids used)) := by
        rw [AppConfig.madeOutput, if_neg (by simp [null]), same]
      have missed : sameOutput (config.publishers ++ made) route.2 = none := by
        rw [sameOutput] at same
        rw [sameOutput, List.find?_append, same, Option.none_or, List.find?_eq_none]
        intro publisher member
        simp [outputs makes publisher member]
      have name : nextUniqueName (trim route.1 ++ "_publisher") ((config.publishers ++ made).map (·.name)) =
          nextUniqueName (trim route.1 ++ "_publisher") (config.publishers.map (·.name)) := by
        rw [List.map_append]
        exact nextUniqueName_append newPublisher
      have publisher : routePublisher (ids used) (config.publishers ++ made) route.1 route.2 =
          routePublisher (ids used) config.publishers route.1 route.2 := by rw [routePublisher, routePublisher, name]
      rw [migrateRoute_new null missed, publisher, routeConsumer_apart names new, AppConfig.madeConsumer,
        AppConfig.madePublisher, AppConfig.idsFor, makes, output]
      simp

theorem AppConfig.Apart.publisherNames {route other : Text × RouteConfig} (apart : config.Apart route other) :
    nextUniqueName (trim route.1 ++ "_publisher") (config.publishers.map (·.name)) ≠
      nextUniqueName (trim other.1 ++ "_publisher") (config.publishers.map (·.name)) := by
  intro same
  apply apart.names
  rw [AppConfig.consumerName, AppConfig.consumerName, publisherName_injective same]

/-- What routes become that compete with each other for nothing, and with none before them. -/
theorem migrateRoutes_apart {consumers : List ConsumerConfig}
    (names : consumers.map (·.name) = config.consumers.map (·.name)) {routes : List (Text × RouteConfig)}
    {made : List PublisherClient} {extra : List ConsumerConfig} {used : Nat} (apart : routes.Pairwise config.Apart)
    (new : ∀ route ∈ routes, config.consumerName route ∉ extra.map (·.name))
    (newPublishers : ∀ route ∈ routes,
      nextUniqueName (trim route.1 ++ "_publisher") (config.publishers.map (·.name)) ∉ made.map (·.name))
    (outputs : ∀ route ∈ routes, config.makesPublisher route = true →
      ∀ publisher ∈ made, sameEndpointValue publisher.endpoint route.2.route.output = false) :
    migrateRoutes ids routes (config.publishers ++ made) (consumers ++ extra) used =
      (config.publishers ++ (made ++ (Layout.layout config.idsFor routes used).filterMap (config.madePublisher ids)),
        consumers ++ (extra ++ (Layout.layout config.idsFor routes used).map (config.madeConsumer ids)),
        used + Layout.total config.idsFor routes) := by
  induction routes generalizing made extra used with
  | nil => simp [migrateRoutes, Layout.layout, Layout.total]
  | cons route rest ih =>
    obtain ⟨first, others⟩ := List.pairwise_cons.mp apart
    have step := @migrateRoute_apart ids config made consumers extra used route names (new route List.mem_cons_self)
      (newPublishers route List.mem_cons_self) (outputs route List.mem_cons_self)
    have ofRoute : ∀ publisher ∈ (config.madePublisher ids (route, used)).toList, config.makesPublisher route = true ∧
        publisher = routePublisher (ids used) config.publishers route.1 route.2 := by
      intro publisher member
      rw [AppConfig.madePublisher] at member
      split at member
      · next makes => exact ⟨makes, List.mem_singleton.mp member⟩
      · cases member
    rw [migrateRoutes_cons, step, ih others]
    · rw [Layout.layout, Layout.total_cons, List.map_cons, List.filterMap_cons, Nat.add_assoc, List.append_assoc extra]
      cases config.madePublisher ids (route, used) <;> simp
    · intro other member taken
      rw [List.map_append, List.mem_append] at taken
      rcases taken with early | late
      · exact new other (List.mem_cons_of_mem _ member) early
      · have equal : config.consumerName other = config.consumerName route := List.mem_singleton.mp late
        exact (first other member).names equal.symm
    · intro other member taken
      rw [List.map_append, List.mem_append] at taken
      rcases taken with early | late
      · exact newPublishers other (List.mem_cons_of_mem _ member) early
      · obtain ⟨publisher, inside, named⟩ := List.mem_map.mp late
        obtain ⟨-, rfl⟩ := ofRoute publisher inside
        exact (first other member).publisherNames named
    · intro other member makes publisher inside
      rcases List.mem_append.mp inside with early | late
      · exact outputs other (List.mem_cons_of_mem _ member) makes publisher early
      · obtain ⟨makesFirst, rfl⟩ := ofRoute publisher late
        exact ((first other member).outputs makesFirst makes).1

theorem drained_apart (apart : config.routes.Pairwise config.Apart) :
    config.drained ids =
      (config.publishers ++ (Layout.layout config.idsFor config.routes 0).filterMap (config.madePublisher ids),
        config.consumers.map migrateConsumerResponse ++
          (Layout.layout config.idsFor config.routes 0).map (config.madeConsumer ids),
        Layout.total config.idsFor config.routes) := by
  have names : (config.consumers.map migrateConsumerResponse).map (·.name) = config.consumers.map (·.name) := by
    rw [List.map_map]
    exact List.map_congr_left fun consumer _ => (migrateConsumerResponse_id consumer).2
  have all := @migrateRoutes_apart ids config _ names config.routes [] [] 0 apart
    (fun _ _ => nofun) (fun _ _ => nofun) (fun _ _ _ => nofun)
  rw [List.append_nil, List.append_nil, List.nil_append, List.nil_append, Nat.zero_add] at all
  exact all

end Alone

/-! ### Renaming ids -/

def PublisherClient.renamed (rename : Text → Text) (publisher : PublisherClient) : PublisherClient :=
  { publisher with id := rename publisher.id }

def ConsumerOutputConfig.renamed (rename : Text → Text) : ConsumerOutputConfig → ConsumerOutputConfig
  | .publisher name publisherId => .publisher name (publisherId.map rename)
  | output => output

def ConsumerConfig.renamed (rename : Text → Text) (consumer : ConsumerConfig) : ConsumerConfig :=
  { consumer with id := rename consumer.id, output := consumer.output.renamed rename }

/-- Takes the ids one process generates to those another does, and no other id anywhere. -/
structure Renames (ids ids' : IdSupply) (rename : Text → Text) : Prop where
  generated : ∃ place : Equiv.Perm Nat, ∀ n, rename (ids n) = ids' (place n)
  others : ∀ id, (∀ n, ids n ≠ id) → rename id = id

/-- An id of a run: one it generates, or one that neither it nor the other run does. -/
def OwnId (ids ids' : IdSupply) (id : Text) : Prop :=
  (∃ n, id = ids n) ∨ (∀ n, ids n ≠ id) ∧ ∀ n, ids' n ≠ id

section Renaming
variable {ids ids' : IdSupply} {rename : Text → Text}

theorem Renames.injOn (renames : Renames ids ids' rename) (injective : Function.Injective ids') {a b : Text}
    (ownA : OwnId ids ids' a) (ownB : OwnId ids ids' b) (same : rename a = rename b) : a = b := by
  obtain ⟨place, generated⟩ := renames.generated
  rcases ownA with ⟨m, rfl⟩ | ⟨otherA, otherA'⟩
  · rcases ownB with ⟨n, rfl⟩ | ⟨otherB, otherB'⟩
    · rw [generated, generated] at same
      rw [place.injective (injective same)]
    · rw [generated, renames.others b otherB] at same
      exact absurd same (otherB' _)
  · rcases ownB with ⟨n, rfl⟩ | ⟨otherB, otherB'⟩
    · rw [generated, renames.others a otherA] at same
      exact absurd same.symm (otherA' _)
    · rwa [renames.others a otherA, renames.others b otherB] at same

theorem nameOfId_renamed (renames : Renames ids ids' rename) (injective : Function.Injective ids')
    {final final' : List PublisherClient} (perm : (final.map (·.renamed rename)).Perm final')
    (distinct : (final.map (·.id)).Nodup) (distinct' : (final'.map (·.id)).Nodup)
    (own : ∀ publisher ∈ final, OwnId ids ids' publisher.id) {id : Text} (ownId : OwnId ids ids' id) :
    nameOfId final' (rename id) = nameOfId final id := by
  cases found : nameOfId final id with
  | some name =>
    obtain ⟨publisher, member, rfl, rfl⟩ := mem_of_nameOfId found
    exact nameOfId_of_mem distinct' (perm.subset (List.mem_map_of_mem member))
  | none =>
    apply nameOfId_eq_none
    intro publisher' member same
    obtain ⟨publisher, inside, rfl⟩ := List.mem_map.mp (perm.symm.subset member)
    have equal := renames.injOn injective (own publisher inside) ownId same
    rw [← equal, nameOfId_of_mem distinct inside] at found
    cases found

theorem idOfName_append (old new : List PublisherClient) (name : Text) :
    idOfName (old ++ new) name = (idOfName new name).or (idOfName old name) := by
  rw [idOfName, List.map_append, List.reverse_append, Assoc.lookup_append]
  rfl

theorem idOfName_map_renamed (publishers : List PublisherClient) (name : Text) :
    idOfName (publishers.map (·.renamed rename)) name = (idOfName publishers name).map rename := by
  have last : Assoc.lastIndex (fun publisher : PublisherClient => publisher.name == name)
      (publishers.map (·.renamed rename)) = Assoc.lastIndex (fun publisher => publisher.name == name) publishers := by
    apply Assoc.lastIndex_congr
    rw [List.map_map]
    rfl
  rw [idOfName_eq, idOfName_eq, last, Option.map_bind]
  congr
  funext i
  rw [List.getElem?_map, Option.map_map, Function.comp_apply, Option.map_map]
  rfl

theorem idOfName_of_mem {publishers : List PublisherClient} (distinct : (publishers.map (·.name)).Nodup)
    {publisher : PublisherClient} (member : publisher ∈ publishers) :
    idOfName publishers publisher.name = some publisher.id := by
  apply Assoc.lookup_of_mem
  · rw [List.map_reverse, List.map_map]
    exact List.nodup_reverse.mpr distinct
  · exact List.mem_reverse.mpr (List.mem_map_of_mem member)

theorem idOfName_perm {publishers publishers' : List PublisherClient} (perm : publishers.Perm publishers')
    (distinct : (publishers.map (·.name)).Nodup) (name : Text) :
    idOfName publishers' name = idOfName publishers name := by
  cases found : idOfName publishers name with
  | some id =>
    obtain ⟨publisher, member, rfl, rfl⟩ := mem_of_idOfName found
    exact idOfName_of_mem ((perm.map _).nodup_iff.mp distinct) (perm.subset member)
  | none =>
    rw [idOfName_eq_none] at found ⊢
    exact fun publisher member => found publisher (perm.symm.subset member)

theorem idOfName_renamed {old new new' : List PublisherClient} (perm : (new.map (·.renamed rename)).Perm new')
    (distinct : (new.map (·.name)).Nodup) (name : Text) :
    idOfName (old.map (·.renamed rename) ++ new') name = (idOfName (old ++ new) name).map rename := by
  have distinct' : ((new.map (·.renamed rename)).map (·.name)).Nodup := by
    rw [List.map_map]
    exact distinct
  rw [idOfName_append, idOfName_append, idOfName_perm perm distinct', idOfName_map_renamed, idOfName_map_renamed,
    Option.map_or]

theorem normalize_renamed {final final' : List PublisherClient} {output : ConsumerOutputConfig}
    (names : ∀ id name, output = .publisher name (some id) → nameOfId final' (rename id) = nameOfId final id)
    (byName : ∀ name, idOfName final' name = (idOfName final name).map rename) :
    normalizePublisherOutput (nameOfId final') (idOfName final') (output.renamed rename) =
      (normalizePublisherOutput (nameOfId final) (idOfName final) output).renamed rename := by
  cases output with
  | none => rfl
  | response answer => rfl
  | publisher name publisherId =>
    have same : (publisherId.map rename).bind (nameOfId final') = publisherId.bind (nameOfId final) := by
      cases publisherId with
      | none => rfl
      | some id => exact names id name rfl
    rw [ConsumerOutputConfig.renamed, normalizePublisherOutput_publisher, normalizePublisherOutput_publisher, same]
    cases publisherId.bind (nameOfId final) with
    | some found => rfl
    | none =>
      rw [byName]
      rfl

/-- Ids are given out alike under a renaming that keeps the ids that were there. -/
theorem ensureIds_renamed {α : Type*} {id : α → Text} {setId : Text → α → α} (set_self : ∀ entity, setId (id entity) entity = entity)
    (set_set : ∀ a b entity, setId a (setId b entity) = setId a entity) (id_set : ∀ given entity, id (setId given entity) = given)
    {entities : List α} {known known' : List Text} {used : Nat} (kept : ∀ entity ∈ entities, rename (id entity) = id entity)
    (generated : ∀ n, used ≤ n → rename (ids n) = ids' n) (unused : ids.Unused used (entities.map id))
    (unused' : ids'.Unused used (entities.map id))
    (same : ∀ entity ∈ entities, id entity ∈ known ↔ id entity ∈ known') :
    ensureIds id setId ids' entities known' used =
      ((ensureIds id setId ids entities known used).1.map fun entity => setId (rename (id entity)) entity,
        (ensureIds id setId ids entities known used).2) := by
  induction entities generalizing known known' used with
  | nil => rfl
  | cons entity rest ih =>
    obtain ⟨keepFirst, keepRest⟩ := List.forall_mem_cons.mp kept
    obtain ⟨first, others⟩ := List.forall_mem_cons.mp same
    by_cases keep : trim (id entity) ≠ [] ∧ id entity ∉ known
    · have keep' : trim (id entity) ≠ [] ∧ id entity ∉ known' := ⟨keep.1, fun inside => keep.2 (first.mpr inside)⟩
      rw [ensureIds_cons_kept keep, ensureIds_cons_kept keep',
        @ih (id entity :: known) (id entity :: known') used keepRest generated unused.of_cons unused'.of_cons fun other member => by
          rw [List.mem_cons, List.mem_cons, others other member],
        List.map_cons, keepFirst, set_self]
    · have keep' : ¬(trim (id entity) ≠ [] ∧ id entity ∉ known') := fun both =>
        keep ⟨both.1, fun inside => both.2 (first.mp inside)⟩
      have later := unused.of_cons.mono (Nat.le_succ used) fun _ member => member
      have later' := unused'.of_cons.mono (Nat.le_succ used) fun _ member => member
      rw [ensureIds_cons_replaced keep, ensureIds_cons_replaced keep',
        @ih (ids used :: known) (ids' used :: known') (used + 1) keepRest (fun n least => generated n (Nat.le_of_succ_le least)) later later'
          fun other member => by
            have apart : id other ≠ ids used := fun equal =>
              unused.of_cons used (Nat.le_refl used) (equal ▸ List.mem_map_of_mem member)
            have apart' : id other ≠ ids' used := fun equal =>
              unused'.of_cons used (Nat.le_refl used) (equal ▸ List.mem_map_of_mem member)
            rw [List.mem_cons, List.mem_cons, others other member]
            tauto,
        List.map_cons, id_set, set_set, generated used (Nat.le_refl used)]

end Renaming

section Made
variable {ids ids' : IdSupply} {config : AppConfig} {rename : Text → Text} {place : Equiv.Perm Nat}

theorem madePublisher_renamed (generated : ∀ n, rename (ids n) = ids' (place n)) (entry : (Text × RouteConfig) × Nat) :
    config.madePublisher ids' (entry.1, place entry.2) = (config.madePublisher ids entry).map (·.renamed rename) := by
  unfold AppConfig.madePublisher
  split
  · show some (routePublisher (ids' (place entry.2)) config.publishers entry.1.1 entry.1.2) = _
    rw [← generated]
    rfl
  · rfl

theorem madeOutput_renamed (generated : ∀ n, rename (ids n) = ids' (place n))
    (kept : ∀ publisher ∈ config.publishers, rename publisher.id = publisher.id) (entry : (Text × RouteConfig) × Nat) :
    config.madeOutput ids' (entry.1, place entry.2) = (config.madeOutput ids entry).renamed rename := by
  unfold AppConfig.madeOutput
  split
  · rfl
  · cases same : sameOutput config.publishers entry.1.2 with
    | some existing =>
      show ConsumerOutputConfig.publisher _ _ = .publisher _ (some (rename existing.id))
      rw [kept existing (sameOutput_some same).1]
    | none =>
      show ConsumerOutputConfig.publisher _ _ = .publisher _ (some (rename (ids entry.2)))
      rw [generated]
      rfl

theorem madeConsumer_renamed (generated : ∀ n, rename (ids n) = ids' (place n))
    (kept : ∀ publisher ∈ config.publishers, rename publisher.id = publisher.id) {entry : (Text × RouteConfig) × Nat}
    (block : ∀ i < config.idsFor entry.1, place (entry.2 + i) = place entry.2 + i) :
    config.madeConsumer ids' (entry.1, place entry.2) = (config.madeConsumer ids entry).renamed rename := by
  have positive : 0 < config.idsFor entry.1 := by
    unfold AppConfig.idsFor
    split <;> omega
  have last := block (config.idsFor entry.1 - 1) (by omega)
  rw [← Nat.add_sub_assoc positive, ← Nat.add_sub_assoc positive] at last
  rw [AppConfig.madeConsumer, AppConfig.madeConsumer, madeOutput_renamed generated kept, ← last, ← generated]
  rfl

theorem madePublisher_names {routes : List (Text × RouteConfig)} {used : Nat} (apart : routes.Pairwise config.Apart) :
    (((Layout.layout config.idsFor routes used).filterMap (config.madePublisher ids)).map (·.name)).Nodup := by
  induction routes generalizing used with
  | nil => exact List.nodup_nil
  | cons route rest ih =>
    obtain ⟨first, others⟩ := List.pairwise_cons.mp apart
    have later := @ih (used + config.idsFor route) others
    rw [Layout.layout, List.filterMap_cons]
    cases made : config.madePublisher ids (route, used) with
    | none => exact later
    | some publisher =>
      rw [List.map_cons, List.nodup_cons]
      refine ⟨fun taken => ?_, later⟩
      obtain ⟨other, member, same⟩ := List.mem_map.mp taken
      obtain ⟨entry, inside, madeOther⟩ := List.mem_filterMap.mp member
      unfold AppConfig.madePublisher at made madeOther
      split at made
      · split at madeOther
        · obtain rfl := Option.some.inj made
          obtain rfl := Option.some.inj madeOther
          exact (first entry.1 (Layout.mem_of_mem_layout inside)).publisherNames same.symm
        · cases madeOther
      · cases made

theorem madeOutput_id {entry : (Text × RouteConfig) × Nat} {name id : Text}
    (output : config.madeOutput ids entry = .publisher name (some id)) : id ∈ config.entityIds ∨ ∃ n, id = ids n := by
  unfold AppConfig.madeOutput at output
  split at output
  · cases output
  · split at output
    · next existing same =>
      obtain rfl := Option.some.inj (ConsumerOutputConfig.publisher.inj output).2
      exact .inl (List.mem_append_left _ (List.mem_map_of_mem (sameOutput_some same).1))
    · exact .inr ⟨entry.2, (Option.some.inj (ConsumerOutputConfig.publisher.inj output).2).symm⟩

theorem mem_referencedIds {consumer : ConsumerConfig} (member : consumer ∈ config.consumers.map migrateConsumerResponse)
    {name id : Text} (output : consumer.output = .publisher name (some id)) : id ∈ config.referencedIds := by
  obtain ⟨original, inside, rfl⟩ := List.mem_map.mp member
  have same : original.output = .publisher name (some id) := by
    unfold migrateConsumerResponse at output
    split at output
    · cases output
    · exact output
  refine List.mem_flatMap.mpr ⟨original, inside, ?_⟩
  rw [same]
  exact List.mem_singleton_self _

end Made

/-! ### Two orders -/

/-- `left` with its ids renamed is `right`, but for the order of what is appended to `config`. -/
structure RenamedTo (rename : Text → Text) (config left right : AppConfig) : Prop where
  publishers : (left.publishers.take config.publishers.length).map (·.renamed rename) =
    right.publishers.take config.publishers.length
  newPublishers : ((left.publishers.drop config.publishers.length).map (·.renamed rename)).Perm
    (right.publishers.drop config.publishers.length)
  consumers : (left.consumers.take config.consumers.length).map (·.renamed rename) =
    right.consumers.take config.consumers.length
  newConsumers : ((left.consumers.drop config.consumers.length).map (·.renamed rename)).Perm
    (right.consumers.drop config.consumers.length)
  rest : { left with publishers := [], consumers := [] } = { right with publishers := [], consumers := [] }

/-- Equal up to the generated ids and the order of what is appended to `config`. -/
def SameUpToIds (ids ids' : IdSupply) (config left right : AppConfig) : Prop :=
  ∃ rename, Renames ids ids' rename ∧ RenamedTo rename config left right

section Orders
variable {ids ids' : IdSupply} {config : AppConfig}

theorem migrated_lists (fresh : ids.Fresh config.entityIds) (apart : config.routes.Pairwise config.Apart) :
    config.withIds ids =
        ((ensureIds PublisherClient.id (fun id entity => { entity with id }) ids config.publishers []
            (Layout.total config.idsFor config.routes)).1 ++
          (Layout.layout config.idsFor config.routes 0).filterMap (config.madePublisher ids),
          (ensureIds PublisherClient.id (fun id entity => { entity with id }) ids config.publishers []
            (Layout.total config.idsFor config.routes)).2) ∧
      config.identified ids =
        (ensureIds ConsumerConfig.id (fun id entity => { entity with id }) ids
          (config.consumers.map migrateConsumerResponse) [] (config.withIds ids).2).1 ++
          (Layout.layout config.idsFor config.routes 0).map (config.madeConsumer ids) := by
  have drained := @drained_apart ids config apart
  obtain ⟨publishers, consumers⟩ := withIds_append fresh (congrArg Prod.fst drained)
    (congrArg (·.2.1) drained)
  have used : (config.drained ids).2.2 = Layout.total config.idsFor config.routes := congrArg (·.2.2) drained
  rw [used] at publishers
  exact ⟨publishers, consumers⟩

theorem ownId_publishers (fresh : ids.Fresh config.entityIds) (fresh' : ids'.Fresh config.entityIds)
    {publisher : PublisherClient} (member : publisher ∈ (config.migrateLegacyRoutes ids).publishers) :
    OwnId ids ids' publisher.id := by
  have final_ := finalPublishers fresh
  obtain ⟨i, here⟩ := List.mem_iff_getElem?.mp member
  by_cases below : i < config.publishers.length
  · obtain ⟨publisher', there, -, -, keeps, replaced⟩ := final_.old i _ (List.getElem?_eq_getElem below)
    obtain rfl := Option.some.inj (there.symm.trans here)
    by_cases keep : KeepsId PublisherClient.id [] (config.publishers.take i) config.publishers[i]
    · have inside : config.publishers[i].id ∈ config.entityIds :=
        List.mem_append_left _ (List.mem_map_of_mem (List.getElem_mem below))
      rw [keeps keep]
      exact .inr ⟨fun n same => fresh.unused n (Nat.zero_le n) (same ▸ inside),
        fun n same => fresh'.unused n (Nat.zero_le n) (same ▸ inside)⟩
    · exact .inl (replaced keep)
  · exact .inl (final_.new i _ here (Nat.le_of_not_lt below)).2

/-- What a renaming does that takes the places of one order's ids to those of another's. -/
structure Reordered (ids ids' : IdSupply) (config : AppConfig) (routes : List (Text × RouteConfig))
    (rename : Text → Text) (place : Equiv.Perm Nat) : Prop where
  moves : Layout.Moves config.idsFor config.routes routes 0 place
  generated : ∀ n, rename (ids n) = ids' (place n)
  kept : ∀ id ∈ config.entityIds ++ config.referencedIds, rename id = id
  fresh : ids.Fresh (config.entityIds ++ config.referencedIds)
  fresh' : ids'.Fresh (config.entityIds ++ config.referencedIds)

section Reordered
variable {routes : List (Text × RouteConfig)} {rename : Text → Text} {place : Equiv.Perm Nat}

theorem Reordered.keptPublisher (change : Reordered ids ids' config routes rename place) {publisher : PublisherClient}
    (member : publisher ∈ config.publishers) : rename publisher.id = publisher.id :=
  change.kept _ (List.mem_append_left _ (List.mem_append_left _ (List.mem_map_of_mem member)))

theorem Reordered.newPublishers (change : Reordered ids ids' config routes rename place) :
    (((Layout.layout config.idsFor config.routes 0).filterMap (config.madePublisher ids)).map (·.renamed rename)).Perm
      ((Layout.layout config.idsFor routes 0).filterMap (config.madePublisher ids')) := by
  have moved := change.moves.moved.filterMap (config.madePublisher ids')
  rw [List.filterMap_map] at moved
  rw [List.map_filterMap]
  have same : (fun entry => (config.madePublisher ids entry).map (·.renamed rename)) =
      config.madePublisher ids' ∘ fun entry => (entry.1, place entry.2) := by
    funext entry
    exact (madePublisher_renamed change.generated entry).symm
  rw [same]
  exact moved

theorem Reordered.newConsumers (change : Reordered ids ids' config routes rename place) :
    (((Layout.layout config.idsFor config.routes 0).map (config.madeConsumer ids)).map (·.renamed rename)).Perm
      ((Layout.layout config.idsFor routes 0).map (config.madeConsumer ids')) := by
  have moved := change.moves.moved.map (config.madeConsumer ids')
  rw [List.map_map] at moved
  rw [List.map_map]
  have same : ∀ entry ∈ Layout.layout config.idsFor config.routes 0,
      ((·.renamed rename) ∘ config.madeConsumer ids) entry =
        (config.madeConsumer ids' ∘ fun entry => (entry.1, place entry.2)) entry := by
    intro entry member
    exact (madeConsumer_renamed change.generated (fun _ => change.keptPublisher) (change.moves.blocks entry member)).symm
  rw [List.map_congr_left same]
  exact moved

theorem Reordered.later (change : Reordered ids ids' config routes rename place) {n : Nat}
    (least : Layout.total config.idsFor config.routes ≤ n) : rename (ids n) = ids' n := by
  rw [change.generated, change.moves.after n (by omega)]

theorem Reordered.oldPublishers (change : Reordered ids ids' config routes rename place) :
    ensureIds PublisherClient.id (fun id entity => { entity with id }) ids' config.publishers []
        (Layout.total config.idsFor config.routes) =
      ((ensureIds PublisherClient.id (fun id entity => { entity with id }) ids config.publishers []
          (Layout.total config.idsFor config.routes)).1.map (·.renamed rename),
        (ensureIds PublisherClient.id (fun id entity => { entity with id }) ids config.publishers []
          (Layout.total config.idsFor config.routes)).2) := by
  have inside : ∀ id ∈ config.publishers.map (·.id), id ∈ config.entityIds ++ config.referencedIds :=
    fun _ member => List.mem_append_left _ (List.mem_append_left _ member)
  exact @ensureIds_renamed ids ids' rename _ PublisherClient.id (fun id entity => { entity with id }) (fun _ => rfl)
    (fun _ _ _ => rfl) (fun _ _ => rfl) config.publishers [] [] _ (fun publisher member => change.keptPublisher member) (fun n least => change.later least)
    (change.fresh.unused.mono (Nat.zero_le _) inside) (change.fresh'.unused.mono (Nat.zero_le _) inside)
    (fun _ _ => Iff.rfl)

theorem Reordered.oldConsumers (change : Reordered ids ids' config routes rename place) {used : Nat}
    (least : Layout.total config.idsFor config.routes ≤ used) :
    (ensureIds ConsumerConfig.id (fun id entity => { entity with id }) ids' (config.consumers.map migrateConsumerResponse)
        [] used).1 =
      (ensureIds ConsumerConfig.id (fun id entity => { entity with id }) ids
        (config.consumers.map migrateConsumerResponse) [] used).1.map fun consumer =>
          { consumer with id := rename consumer.id } := by
  have kept := map_id_migrateConsumerResponse config.consumers
  have inside : ∀ id ∈ (config.consumers.map migrateConsumerResponse).map (·.id),
      id ∈ config.entityIds ++ config.referencedIds := by
    rw [kept]
    exact fun _ member => List.mem_append_left _ (List.mem_append_right _ member)
  have all := @ensureIds_renamed ids ids' rename _ ConsumerConfig.id (fun id entity => { entity with id }) (fun _ => rfl)
    (fun _ _ _ => rfl) (fun _ _ => rfl) (config.consumers.map migrateConsumerResponse) [] [] used (fun consumer member => change.kept _ (inside _ (List.mem_map_of_mem member)))
    (fun n later => change.later (Nat.le_trans least later))
    (change.fresh.unused.mono (Nat.zero_le used) inside) (change.fresh'.unused.mono (Nat.zero_le used) inside)
    (fun _ _ => Iff.rfl)
  exact congrArg Prod.fst all

end Reordered

/-- Two results are the same up to a renaming when what was there, what is new and the references are. -/
theorem renamedTo_of_lists {routes : List (Text × RouteConfig)} {rename : Text → Text} (renames : Renames ids ids' rename)
    (injective : Function.Injective ids') {oldP newP newP' : List PublisherClient} {oldC newC newC' : List ConsumerConfig}
    (publishers : (config.withIds ids).1 = oldP ++ newP)
    (publishers' : (AppConfig.withIds ids' { config with routes }).1 = oldP.map (·.renamed rename) ++ newP')
    (consumers : config.identified ids = oldC ++ newC)
    (consumers' : AppConfig.identified ids' { config with routes } =
      (oldC.map fun consumer => { consumer with id := rename consumer.id }) ++ newC')
    (longP : oldP.length = config.publishers.length) (longC : oldC.length = config.consumers.length)
    (permP : (newP.map (·.renamed rename)).Perm newP') (permC : (newC.map (·.renamed rename)).Perm newC')
    (names : (newP.map (·.name)).Nodup) (distinct : ((oldP ++ newP).map (·.id)).Nodup)
    (distinct' : ((oldP.map (·.renamed rename) ++ newP').map (·.id)).Nodup)
    (own : ∀ publisher ∈ oldP ++ newP, OwnId ids ids' publisher.id)
    (oldReferences : ∀ consumer ∈ oldC, ∀ name id, consumer.output = .publisher name (some id) →
      rename id = id ∧ OwnId ids ids' id)
    (newReferences : ∀ consumer ∈ newC, ∀ name id, consumer.output = .publisher name (some id) → OwnId ids ids' id) :
    RenamedTo rename config (config.migrateLegacyRoutes ids) ({ config with routes }.migrateLegacyRoutes ids') := by
  have perm : ((oldP ++ newP).map (·.renamed rename)).Perm (oldP.map (·.renamed rename) ++ newP') := by
    rw [List.map_append]
    exact permP.append_left _
  have byId : ∀ id, OwnId ids ids' id →
      nameOfId ((oldP.map fun publisher : PublisherClient => publisher.renamed rename) ++ newP') (rename id) = nameOfId (oldP ++ newP) id :=
    fun id ownId => nameOfId_renamed renames injective perm distinct distinct' own ownId
  have byName : ∀ name, idOfName ((oldP.map fun publisher : PublisherClient => publisher.renamed rename) ++ newP') name =
      (idOfName (oldP ++ newP) name).map rename := idOfName_renamed permP names
  rw [migrateLegacyRoutes_eq ids, migrateLegacyRoutes_eq ids', publishers, publishers', consumers, consumers']
  refine ⟨?_, ?_, ?_, ?_, rfl⟩
  · show ((oldP ++ newP).take _).map _ = (_ ++ newP').take _
    rw [List.take_left' longP, List.take_left' (by rw [List.length_map, longP])]
  · show (((oldP ++ newP).drop _).map _).Perm ((_ ++ newP').drop _)
    rw [List.drop_left' longP, List.drop_left' (by rw [List.length_map, longP])]
    exact permP
  · simp only [List.map_append]
    rw [List.take_left' (by rw [List.length_map, longC]), List.take_left' (by rw [List.length_map, List.length_map, longC]),
      List.map_map, List.map_map]
    apply List.map_congr_left
    intro consumer member
    have same : consumer.output.renamed rename = consumer.output := by
      cases output : consumer.output with
      | none => rfl
      | response answer => rfl
      | publisher name publisherId =>
        cases publisherId with
        | none => rfl
        | some id => rw [ConsumerOutputConfig.renamed, Option.map_some, (oldReferences consumer member name id output).1]
    have resolved := @normalize_renamed rename (oldP ++ newP) _ consumer.output
      (fun id name output => byId id (oldReferences consumer member name id output).2) byName
    rw [same] at resolved
    show ({ consumer with id := _, output := _ } : ConsumerConfig) = { consumer with id := _, output := _ }
    rw [resolved]
  · simp only [List.map_append]
    rw [List.drop_left' (by rw [List.length_map, longC]), List.drop_left' (by rw [List.length_map, List.length_map, longC]),
      List.map_map]
    have moved := permC.map fun consumer : ConsumerConfig =>
      { consumer with
        output := normalizePublisherOutput (nameOfId ((oldP.map fun publisher : PublisherClient => publisher.renamed rename) ++ newP'))
          (idOfName ((oldP.map fun publisher : PublisherClient => publisher.renamed rename) ++ newP')) consumer.output }
    rw [List.map_map] at moved
    refine List.Perm.trans (List.Perm.of_eq ?_) moved
    apply List.map_congr_left
    intro consumer member
    have resolved := @normalize_renamed rename (oldP ++ newP) _ consumer.output
      (fun id name output => byId id (newReferences consumer member name id output)) byName
    show ({ consumer with id := _, output := _ } : ConsumerConfig) = { consumer with id := _, output := _ }
    rw [← resolved]
    rfl

/-- Routes that compete neither for a name nor for an output become the same in every order. -/
theorem migrateLegacyRoutes_order (ids ids' : IdSupply) (config : AppConfig) (routes : List (Text × RouteConfig))
    (order : routes.Perm config.routes) (fresh : ids.Fresh (config.entityIds ++ config.referencedIds))
    (fresh' : ids'.Fresh (config.entityIds ++ config.referencedIds)) (apart : config.routes.Pairwise config.Apart) :
    SameUpToIds ids ids' config (config.migrateLegacyRoutes ids)
      ({ config with routes }.migrateLegacyRoutes ids') := by
  have freshIds : ids.Fresh config.entityIds :=
    { fresh with unused := fresh.unused.mono (Nat.zero_le _) fun _ => List.mem_append_left _ }
  have freshIds' : ids'.Fresh config.entityIds :=
    { fresh' with unused := fresh'.unused.mono (Nat.zero_le _) fun _ => List.mem_append_left _ }
  have apart' : routes.Pairwise config.Apart := (order.pairwise_iff fun both => both.symm).mpr apart
  -- the places of one order's ids in the other
  have positive : ∀ route, 0 < config.idsFor route := by
    intro route
    unfold AppConfig.idsFor
    split <;> omega
  obtain ⟨place, moves⟩ := Layout.exists_moves positive order.symm 0
  have generated : ∀ n, Function.extend ids (fun n => ids' (place n)) id (ids n) = ids' (place n) :=
    fresh.injective.extend_apply _ _
  have renames : Renames ids ids' (Function.extend ids (fun n => ids' (place n)) id) := by
    refine ⟨⟨place, generated⟩, fun id other => ?_⟩
    exact Function.extend_apply' _ _ id fun ⟨n, same⟩ => other n same
  generalize Function.extend ids (fun n => ids' (place n)) id = rename at renames generated
  have kept : ∀ id ∈ config.entityIds ++ config.referencedIds, rename id = id := fun id member =>
    renames.others id fun n same => fresh.unused n (Nat.zero_le n) (same ▸ member)
  have change : Reordered ids ids' config routes rename place := ⟨moves, generated, kept, fresh, fresh'⟩
  -- the parts of both results
  obtain ⟨publishers, consumers⟩ := migrated_lists freshIds apart
  obtain ⟨publishers', consumers'⟩ := @migrated_lists ids' { config with routes } freshIds'
    (apart'.imp fun both => ⟨both.names, both.outputs⟩)
  have total : Layout.total config.idsFor routes = Layout.total config.idsFor config.routes := Layout.total_perm order
  have used : (AppConfig.withIds ids' { config with routes }).2 = (config.withIds ids).2 := by
    rw [publishers, publishers']
    show (ensureIds PublisherClient.id (fun id entity => { entity with id }) ids' config.publishers []
      (Layout.total config.idsFor routes)).2 = _
    rw [total, change.oldPublishers]
  have oldPublishers : (AppConfig.withIds ids' { config with routes }).1 =
      (ensureIds PublisherClient.id (fun id entity => { entity with id }) ids config.publishers []
          (Layout.total config.idsFor config.routes)).1.map (·.renamed rename) ++
        (Layout.layout config.idsFor routes 0).filterMap (config.madePublisher ids') := by
    rw [publishers']
    show (ensureIds PublisherClient.id (fun id entity => { entity with id }) ids' config.publishers []
      (Layout.total config.idsFor routes)).1 ++ _ = _
    rw [total, change.oldPublishers]
    rfl
  have oldConsumers : AppConfig.identified ids' { config with routes } =
      ((ensureIds ConsumerConfig.id (fun id entity => { entity with id }) ids
        (config.consumers.map migrateConsumerResponse) [] (config.withIds ids).2).1.map fun consumer =>
          { consumer with id := rename consumer.id }) ++
        (Layout.layout config.idsFor routes 0).map (config.madeConsumer ids') := by
    have least : Layout.total config.idsFor config.routes ≤ (config.withIds ids).2 := by
      rw [publishers]
      exact ensureIds_used_le _ _ _
    rw [consumers', used, ← change.oldConsumers least]
    rfl
  have isFinal : (config.migrateLegacyRoutes ids).publishers = (config.withIds ids).1 := by rw [migrateLegacyRoutes_eq]
  have isFinal' : ({ config with routes }.migrateLegacyRoutes ids').publishers =
      (AppConfig.withIds ids' { config with routes }).1 := by rw [migrateLegacyRoutes_eq]
  have distinct := (resolved_migrate freshIds).publisherIds
  have distinct' := (@resolved_migrate ids' { config with routes } freshIds').publisherIds
  rw [isFinal, publishers] at distinct
  rw [isFinal', oldPublishers] at distinct'
  have ownThere : ∀ id ∈ config.entityIds ++ config.referencedIds, OwnId ids ids' id := fun id member =>
    .inr ⟨fun n same => fresh.unused n (Nat.zero_le n) (same ▸ member),
      fun n same => fresh'.unused n (Nat.zero_le n) (same ▸ member)⟩
  refine ⟨rename, renames, renamedTo_of_lists renames fresh'.injective (congrArg Prod.fst publishers) oldPublishers
    consumers oldConsumers (ensureIds_length _ _ _) ?_ change.newPublishers change.newConsumers
    (madePublisher_names apart) distinct distinct' ?_ ?_ ?_⟩
  · rw [ensureIds_length, List.length_map]
  · intro publisher member
    apply ownId_publishers freshIds freshIds'
    rw [isFinal, publishers]
    exact member
  · intro consumer member name id output
    obtain ⟨original, inside, which⟩ := mem_ensureIds member
    have reference : original.output = .publisher name (some id) := by
      rcases which with rfl | ⟨n, rfl⟩ <;> exact output
    have there := List.mem_append_right config.entityIds (mem_referencedIds inside reference)
    exact ⟨kept id there, ownThere id there⟩
  · intro consumer member name id output
    obtain ⟨entry, -, rfl⟩ := List.mem_map.mp member
    rcases madeOutput_id output with old | new
    · exact ownThere id (List.mem_append_left _ old)
    · exact .inl new

end Orders

def twoRoutes (output output' : Text) : AppConfig where
  routes := [("orders", { route := ⟨.new .null, .new (.connector .memory (.record [("topic", .str output)])), {}⟩ }),
    ("audit", { route := ⟨.new .response, .new (.connector .memory (.record [("topic", .str output')])), {}⟩ })]

theorem migrateLegacyRoutes_order_twoRoutes :
    SameUpToIds tallyIds tallyIds (twoRoutes "out" "log") ((twoRoutes "out" "log").migrateLegacyRoutes tallyIds)
      ({ twoRoutes "out" "log" with routes := (twoRoutes "out" "log").routes.reverse }.migrateLegacyRoutes tallyIds) := by
  apply migrateLegacyRoutes_order tallyIds tallyIds _ _ (List.reverse_perm _)
    (tallyIds_fresh (by decide)) (tallyIds_fresh (by decide))
  refine .cons (fun other member => ?_) (.cons nofun .nil)
  obtain rfl := List.mem_singleton.mp member
  exact ⟨by decide, fun _ _ => ⟨by decide +kernel, by decide +kernel⟩⟩

/-- Of two routes with one output the first names the publisher. -/
theorem shared_output_named_by_order :
    tallyIds.Fresh ((twoRoutes "out" "out").entityIds ++ (twoRoutes "out" "out").referencedIds) ∧
      ¬ SameUpToIds tallyIds tallyIds (twoRoutes "out" "out") ((twoRoutes "out" "out").migrateLegacyRoutes tallyIds)
        ({ twoRoutes "out" "out" with routes := (twoRoutes "out" "out").routes.reverse }.migrateLegacyRoutes tallyIds) := by
  refine ⟨tallyIds_fresh (by decide), ?_⟩
  rintro ⟨rename, -, same⟩
  have names : (["orders_publisher"] : List Text).Perm ["audit_publisher"] := same.newPublishers.map PublisherClient.name
  exact absurd (List.perm_singleton.mp names) (by decide)

end MqBridge.Config
