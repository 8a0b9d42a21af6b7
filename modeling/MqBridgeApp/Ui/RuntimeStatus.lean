import MqBridgeApp.Lib.Lists
import MqBridgeApp.Registry.Status
import MqBridgeApp.Ui.CollectorKey
import MqBridgeApp.Ui.Consumers

/-!
# The runtime status

What runs is read from the handles, some of which are kept after their route ended, and from the names
of the registered routes. Where there is a handle it decides.
-/

namespace MqBridge.Ui
open Text Config Registry

inductive RouteOutcome where
  | completed
  | stopped
  | failed
deriving DecidableEq

structure EndpointStatus where
  healthy : Bool
  target : Text
  pending : Option Nat
  capacity : Option Nat
  error : Option Text
  details : Json

/-- A route the application has a handle of: its health, and how it ended. -/
structure TrackedRoute where
  status : EndpointStatus
  outcome : Option RouteOutcome

/-- What connecting to a consumer's endpoint comes to. -/
inductive EndpointProbe where
  | status (status : EndpointStatus)
  | creationFailed (error : Text)
  | timedOut

structure RuntimeState where
  consumers : List ConsumerConfig
  uiHandles : List (Text × TrackedRoute)
  distinct : (uiHandles.map Prod.fst).Nodup
  /-- The names that `list_routes` gives. -/
  routes : List Text
  throughputs : List (Text × F64)
  sequences : List (Text × Nat)
  createConsumer : ConsumerConfig → EndpointProbe
  defaultStatus : EndpointStatus

structure ConsumerStatusSnapshot where
  running : Bool
  status : EndpointStatus
  throughput : F64
  messageSequence : Nat
  captureEnabled : Bool
  captureKeepLast : Nat
  outcome : Option RouteOutcome

structure RuntimeStatusResponse where
  activeConsumers : List Text
  activeRoutes : List Text
  routeThroughput : List (Text × F64)
  consumers : List (Text × ConsumerStatusSnapshot)

section
variable (state : RuntimeState)

/-- The status of a consumer whose route the application has no handle of. -/
def RuntimeState.untrackedStatus (consumer : ConsumerConfig) (running : Bool) : EndpointStatus :=
  let isHttp := match consumer.endpoint.endpointType with
    | .http _ _ => true
    | _ => false
  if running then { state.defaultStatus with healthy := true, target := consumer.name }
  else if isHttp then { state.defaultStatus with healthy := false, target := consumer.name }
  else if (trim consumer.name).isEmpty then
    { state.defaultStatus with healthy := false, target := "Unnamed Consumer" }
  else
    match state.createConsumer consumer with
    | .status status => status
    | .creationFailed error =>
      { state.defaultStatus with
        healthy := false, target := consumer.name, error := some ("Creation failed: " ++ error) }
    | .timedOut =>
      { state.defaultStatus with
        healthy := false, target := consumer.name, error := some ("Status check timed out") }

/-- A snapshot, given whether the consumer runs when there is no handle of it. -/
def RuntimeState.consumerStatusSnapshotWithRunning (consumer : ConsumerConfig) (runningUntracked : Bool) :
    Option ConsumerStatusSnapshot :=
  let tracked := state.uiHandles.lookup (consumerRuntimeKey consumer)
  let running := match tracked with
    | some handle => handle.outcome.isNone
    | none => runningUntracked
  some {
    running
    status := match tracked with
      | some handle => { handle.status with target := consumer.name }
      | none => state.untrackedStatus consumer running
    throughput := .zero
    messageSequence := 0
    captureEnabled := consumer.messageCapture.enabled
    captureKeepLast := consumer.messageCapture.keepLast
    outcome := tracked.bind TrackedRoute.outcome }

/-- The keys in the names of collector routes. Like the decoder it may panic. -/
def collectorRouteKeys : List Text → Option (List Text)
  | [] => some []
  | name :: rest =>
    match stripPrefix collectorRoutePrefix name with
    | none => collectorRouteKeys rest
    | some encoded =>
      (decodeCollectorRouteKey encoded).bind fun found =>
        (collectorRouteKeys rest).map fun later => found.toList ++ later

def isInternalRoute (name : Text) : Bool := name == ("web_ui" : Text) || decide (collectorRoutePrefix <+: name)

/-- The keys of running consumers: those with a handle of a running route, and those of registered
collector routes without a handle of an ended one. -/
def RuntimeState.activeKeys (registered : List Text) : List Text :=
  let finished := (state.uiHandles.filter fun entry => entry.2.outcome.isSome).map Prod.fst
  let active := (state.uiHandles.filter fun entry => !entry.2.outcome.isSome).map Prod.fst
  active ++ registered.filter fun key => decide (key ∉ finished)

def RuntimeState.snapshotOf (activeConsumers : List Text) (consumer : ConsumerConfig) :
    Option (Text × ConsumerStatusSnapshot) :=
  let key := consumerRuntimeKey consumer
  (state.consumerStatusSnapshotWithRunning consumer (decide (key ∈ activeConsumers))).map fun snapshot =>
    (key, { snapshot with
      throughput := (state.throughputs.lookup key).getD .zero
      messageSequence := (state.sequences.lookup key).getD 0
      captureEnabled := consumer.messageCapture.enabled
      captureKeepLast := consumer.messageCapture.keepLast })

def RuntimeState.statusOf (registered : List Text) : RuntimeStatusResponse :=
  let active := state.activeKeys registered
  let activeConsumers := (active.mergeSort textLe).destutter (· ≠ ·)
  { activeConsumers
    activeRoutes := (state.routes.filter fun name => !isInternalRoute name).mergeSort textLe
    routeThroughput := state.throughputs.filter fun entry => decide (entry.1 ∈ active)
    consumers := Assoc.insertAll [] (state.consumers.filterMap (state.snapshotOf activeConsumers)) }

def RuntimeState.probeRuntimeStatus : Option RuntimeStatusResponse :=
  (collectorRouteKeys state.routes).map state.statusOf

end

/-! ### A consistent status -/

/-- What the parts of a status say of one another, and of the state it was read from. -/
structure RuntimeState.Consistent (state : RuntimeState) (status : RuntimeStatusResponse) : Prop where
  shown : ∀ consumer ∈ state.consumers, ∃ snapshot, status.consumers.lookup (consumerRuntimeKey consumer) = some snapshot
  running : ∀ key snapshot, status.consumers.lookup key = some snapshot →
    (snapshot.running = true ↔ key ∈ status.activeConsumers)
  sorted : status.activeConsumers.Pairwise fun a b => textLe a b = true
  once : status.activeConsumers.Nodup
  ended : ∀ key handle, state.uiHandles.lookup key = some handle → handle.outcome.isSome = true →
    key ∉ status.activeConsumers
  routes : ∀ name ∈ status.activeRoutes, isInternalRoute name = false
  throughput : ∀ key ∈ status.routeThroughput.map Prod.fst, key ∈ status.activeConsumers

section
variable {state : RuntimeState} {registered : List Text}

theorem mem_activeKeys_of_tracked {key : Text} {handle : TrackedRoute} (held : state.uiHandles.lookup key = some handle) :
    key ∈ state.activeKeys registered ↔ handle.outcome.isSome = false := by
  have only : ∀ other, (key, other) ∈ state.uiHandles → other = handle := by
    intro other member
    rw [Assoc.lookup_of_mem state.distinct member] at held
    exact Option.some.inj held
  have filtered (p : Text × TrackedRoute → Bool) :
      key ∈ (state.uiHandles.filter p).map Prod.fst ↔ p (key, handle) = true := by
    constructor
    · intro member
      obtain ⟨⟨_, other⟩, kept, rfl⟩ := List.mem_map.mp member
      obtain ⟨inside, passes⟩ := List.mem_filter.mp kept
      rwa [only other inside] at passes
    · exact fun passes => List.mem_map.mpr ⟨_, List.mem_filter.mpr ⟨Assoc.mem_of_lookup held, passes⟩, rfl⟩
  rw [RuntimeState.activeKeys, List.mem_append, List.mem_filter, decide_eq_true_eq, filtered, filtered]
  cases handle.outcome.isSome <;> simp

theorem mem_activeConsumers {key : Text} :
    key ∈ (state.statusOf registered).activeConsumers ↔ key ∈ state.activeKeys registered :=
  (Lists.destutter_mergeSort textLe (fun _ _ _ => textLe_trans) textLe_total (fun _ _ => textLe_antisymm) _).2.2 key

theorem snapshotOf_running {consumer : ConsumerConfig} {entry : Text × ConsumerStatusSnapshot}
    (taken : state.snapshotOf (state.statusOf registered).activeConsumers consumer = some entry) :
    entry.2.running = true ↔ entry.1 ∈ (state.statusOf registered).activeConsumers := by
  obtain rfl := Option.some.inj taken
  show (match state.uiHandles.lookup (consumerRuntimeKey consumer) with
    | some handle => handle.outcome.isNone
    | none => decide (consumerRuntimeKey consumer ∈ (state.statusOf registered).activeConsumers)) = true ↔ _
  cases held : state.uiHandles.lookup (consumerRuntimeKey consumer) with
  | none => exact decide_eq_true_iff
  | some handle =>
    show handle.outcome.isNone = true ↔ consumerRuntimeKey consumer ∈ _
    rw [mem_activeConsumers, mem_activeKeys_of_tracked held]
    cases handle.outcome <;> simp

theorem statusOf_consistent (state : RuntimeState) (registered : List Text) :
    state.Consistent (state.statusOf registered) := by
  obtain ⟨once, sorted, -⟩ := Lists.destutter_mergeSort textLe (fun _ _ _ => textLe_trans) textLe_total
    (fun _ _ => textLe_antisymm) (state.activeKeys registered)
  exact {
    shown := by
      intro consumer member
      apply Assoc.mem_keys.mp
      apply Assoc.mem_keys_insertAll.mpr
      exact List.mem_map.mpr ⟨_, List.mem_filterMap.mpr ⟨consumer, member, rfl⟩, rfl⟩
    running := by
      intro key snapshot found
      have inserted := (Assoc.mem_insertAll (Assoc.mem_of_lookup found)).resolve_left List.not_mem_nil
      obtain ⟨consumer, -, taken⟩ := List.mem_filterMap.mp inserted
      exact snapshotOf_running taken
    sorted
    once
    ended := by
      intro key handle held ended member
      have active := (mem_activeKeys_of_tracked held).mp (mem_activeConsumers.mp member)
      rw [ended] at active
      cases active
    routes := by
      intro name member
      have kept := (List.mem_filter.mp (List.mem_mergeSort.mp member)).2
      simpa using kept
    throughput := by
      intro key member
      obtain ⟨entry, kept, rfl⟩ := List.mem_map.mp member
      exact mem_activeConsumers.mpr (of_decide_eq_true (List.mem_filter.mp kept).2) }

end

theorem stripPrefix_eq_some {pre text rest : Text} : stripPrefix pre text = some rest ↔ text = pre ++ rest := by
  constructor
  · intro stripped
    unfold stripPrefix at stripped
    split at stripped
    · next start =>
      obtain ⟨tail, rfl⟩ := start
      rw [List.drop_left] at stripped
      rw [Option.some.inj stripped]
    · cases stripped
  · rintro rfl
    exact stripPrefix_append pre rest

theorem collectorRouteKeys_isSome {names : List Text} :
    (∃ keys, collectorRouteKeys names = some keys) ↔
      ∀ encoded, collectorRoutePrefix ++ encoded ∈ names → ¬CutsCharacter encoded := by
  induction names with
  | nil => simp [collectorRouteKeys]
  | cons name rest ih =>
    rw [collectorRouteKeys]
    cases stripped : stripPrefix collectorRoutePrefix name with
    | none =>
      have other : ∀ encoded, collectorRoutePrefix ++ encoded ≠ name := by
        intro encoded same
        rw [stripPrefix_eq_some.mpr same.symm] at stripped
        cases stripped
      simp only [List.mem_cons, other, false_or]
      exact ih
    | some encoded =>
      obtain rfl := stripPrefix_eq_some.mp stripped
      have split : (∀ other, collectorRoutePrefix ++ other ∈ (collectorRoutePrefix ++ encoded) :: rest →
          ¬CutsCharacter other) ↔
          ¬CutsCharacter encoded ∧ ∀ other, collectorRoutePrefix ++ other ∈ rest → ¬CutsCharacter other := by
        simp only [List.mem_cons, List.append_cancel_left_eq]
        exact ⟨fun all => ⟨all _ (.inl rfl), fun other member => all other (.inr member)⟩,
          fun both other member => member.elim (fun same => same ▸ both.1) (both.2 other)⟩
      rw [split, ← ih, ← decodeCollectorRouteKey_eq_none]
      cases decoded : decodeCollectorRouteKey encoded with
      | none => simp [decoded]
      | some found => simp [decoded]

/-- A probe gives a status, and a consistent one, unless the name of a registered route has a suffix that
the decoder cuts inside a character. -/
theorem probeRuntimeStatus_consistent (state : RuntimeState) :
    (∃ status, state.probeRuntimeStatus = some status ∧ state.Consistent status) ↔
      ∀ encoded, collectorRoutePrefix ++ encoded ∈ state.routes → ¬CutsCharacter encoded := by
  rw [← collectorRouteKeys_isSome, RuntimeState.probeRuntimeStatus]
  constructor
  · rintro ⟨status, probed, -⟩
    obtain ⟨keys, decoded, -⟩ := Option.map_eq_some_iff.mp probed
    exact ⟨keys, decoded⟩
  · rintro ⟨keys, decoded⟩
    rw [decoded]
    exact ⟨_, rfl, statusOf_consistent state keys⟩

/-- A state with one registered route, whose name has the prefix of collector routes. -/
def foreignRouteState : RuntimeState where
  consumers := []
  uiHandles := []
  distinct := List.nodup_nil
  routes := ["ui_collector_route_aéb"]
  throughputs := []
  sequences := []
  createConsumer := fun _ => .timedOut
  defaultStatus := { healthy := false, target := [], pending := none, capacity := none, error := none, details := .null }

theorem foreignRouteState_no_status :
    ¬∃ status, foreignRouteState.probeRuntimeStatus = some status ∧ foreignRouteState.Consistent status := by
  have cuts : CutsCharacter "aéb" := ⟨by decide, [], "aéb", rfl, .nil, .inr ⟨by decide, 'é', rfl, by decide⟩⟩
  rw [probeRuntimeStatus_consistent]
  exact fun whole => whole "aéb" List.mem_cons_self cuts

end MqBridge.Ui
