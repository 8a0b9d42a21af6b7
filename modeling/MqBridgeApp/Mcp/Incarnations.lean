import MqBridgeApp.Mcp.RouteServer

/-!
# One route of a name at a time

A name is claimed before its route starts, and a failed start keeps the claim until it has cleaned up. A
stop gives the name up first and cleans up afterwards, so a start that claims it in between shares the
metrics and the capture buffer with the stop. Without such a start each name has one owner.
-/

namespace MqBridge.Mcp
open Text

structure RouteName.Has (name : RouteName) (incarnation : Nat) : Prop where
  counter : name.counter = some incarnation
  startedAt : ∃ now, name.startedAt = some (now, incarnation)
  sample : ∀ sample, name.sample = some sample → sample.counter = incarnation

structure RouteName.Clear (name : RouteName) : Prop where
  counter : name.counter = none
  startedAt : name.startedAt = none
  sample : name.sample = none
  live : name.live = []

/-- None of what was thrown away came from a start. -/
structure RouteName.Spared (name : RouteName) (incarnation : Nat) : Prop where
  started : incarnation < name.incarnations
  discarded : ∀ captured ∈ name.discarded, captured.source ≠ incarnation

/-- The route counts on its own counter, and no other route is live. -/
structure RouteName.Alone (name : RouteName) (route : RouteProcess) : Prop where
  own : route.counter = route.incarnation
  has : name.Has route.incarnation
  live : name.live = [] ∨ name.live = [route]
  started : route.incarnation < name.incarnations

/-- What was gathered so far was gathered from one start's metrics. -/
def Gathering.From (incarnation : Nat) : Gathering → Prop
  | .nothing => True
  | .counted sequence => sequence.counter = some incarnation
  | .sampled sequence seen =>
    sequence.counter = some incarnation ∧ seen.counter = some incarnation ∧
      ∀ sample, seen.sample = some sample → sample.counter = incarnation
  | .complete reading =>
    reading.sequence.counter = some incarnation ∧ reading.sampled.counter = some incarnation ∧
      ∀ sample, reading.sampled.sample = some sample →
        sample.counter = incarnation ∧ ∃ now, reading.startedAt = some (now, incarnation)

/-- What holds of the name while a call is its owner. -/
def Call.Holds (name : RouteName) : Call → Prop
  | .startClaimed incarnation _ => name.starting = true ∧ name.Clear ∧ name.Spared incarnation
  | .startCounted incarnation _ counter | .startArmed incarnation _ counter =>
    name.starting = true ∧ counter = incarnation ∧ name.Has incarnation ∧ name.live = [] ∧ name.Spared incarnation
  | .startRan route => name.starting = true ∧ name.Alone route ∧ name.Spared route.incarnation
  | .startFailed _ => name.starting = true ∧ name.live = []
  | .startForgot _ | .startDrained => name.starting = true ∧ name.Clear
  | .stopRemoved route => name.starting = false ∧ name.Alone route
  | .stopReading route gathering =>
    name.starting = false ∧ name.Alone route ∧ name.live = [] ∧ gathering.From route.incarnation
  | .stopForgot route reading =>
    name.starting = false ∧ name.Clear ∧ (Gathering.complete reading).From route.incarnation

/-- Nobody owns the name, or a registered route does, or a call that starts or stops one. -/
inductive RouteName.Owned (name : RouteName) : Prop where
  | free (running : name.running = none) (calls : name.calls = []) (starting : name.starting = false) (clear : name.Clear)
  | route (route : RouteProcess) (running : name.running = some route) (calls : name.calls = [])
      (starting : name.starting = false) (alone : name.Alone route) (spared : name.Spared route.incarnation)
  | call (call : Call) (running : name.running = none) (calls : name.calls = [call]) (holds : call.Holds name)

/-- Every captured message came from a start that there was. -/
def RouteName.Sourced (name : RouteName) : Prop :=
  ∀ captured ∈ name.discarded ++ name.captured, captured.source < name.incarnations

/-- A call past the step that gives the name up. -/
def Call.isStop : Call → Bool
  | .stopRemoved _ | .stopReading _ _ | .stopForgot _ _ => true
  | _ => false

/-- A start that claims the name finds no stop at work on it. -/
def NoOverlap (name : RouteName) : RouteName.Action → Prop
  | .start _ => name.running = none → name.starting = false → ∀ call ∈ name.calls, call.isStop = false
  | _ => True

/-! ### Steps -/

section
variable {name after : RouteName}

theorem RouteName.Alone.at_most_one {route : RouteProcess} (alone : name.Alone route) : name.live.length ≤ 1 := by
  rcases alone.live with none | one
  · rw [none]
    exact Nat.zero_le 1
  · rw [one]
    exact Nat.le_refl 1

theorem RouteName.Owned.live (owned : name.Owned) : name.live.length ≤ 1 := by
  have empty : name.live = [] → name.live.length ≤ 1 := fun none => by
    rw [none]
    exact Nat.zero_le 1
  cases owned with
  | free _ _ _ clear => exact empty clear.live
  | route route _ _ _ alone _ => exact alone.at_most_one
  | call call _ _ holds =>
    cases call with
    | startClaimed _ _ => exact empty holds.2.1.live
    | startCounted _ _ _ | startArmed _ _ _ => exact empty holds.2.2.2.1
    | startRan _ => exact holds.2.1.at_most_one
    | startFailed _ => exact empty holds.2
    | startForgot _ | startDrained => exact empty holds.2.live
    | stopRemoved _ => exact holds.2.at_most_one
    | stopReading _ _ => exact empty holds.2.2.1
    | stopForgot _ _ => exact empty holds.2.1.live

theorem RouteName.Owned.congr (owned : name.Owned) (running : after.running = name.running)
    (calls : after.calls = name.calls) (starting : after.starting = name.starting)
    (has : ∀ incarnation, name.Has incarnation → after.Has incarnation) (clear : name.Clear → after.Clear)
    (live : ∀ route, (name.live = [] ∨ name.live = [route]) → after.live = [] ∨ after.live = [route])
    (none : name.live = [] → after.live = []) (incarnations : after.incarnations = name.incarnations)
    (discarded : after.discarded = name.discarded) : after.Owned := by
  have spared : ∀ incarnation, name.Spared incarnation → after.Spared incarnation := fun incarnation spared =>
    ⟨incarnations ▸ spared.started, discarded ▸ spared.discarded⟩
  have alone : ∀ route, name.Alone route → after.Alone route := fun route alone =>
    ⟨alone.own, has _ alone.has, live route alone.live, incarnations ▸ alone.started⟩
  cases owned with
  | free running' calls' starting' clear' =>
    exact .free (running.trans running') (calls.trans calls') (starting.trans starting') (clear clear')
  | route route running' calls' starting' alone' spared' =>
    exact .route route (running.trans running') (calls.trans calls') (starting.trans starting') (alone route alone')
      (spared _ spared')
  | call call running' calls' holds =>
    refine .call call (running.trans running') (calls.trans calls') ?_
    cases call with
    | startClaimed _ _ => exact ⟨starting.trans holds.1, clear holds.2.1, spared _ holds.2.2⟩
    | startCounted _ _ _ | startArmed _ _ _ =>
      exact ⟨starting.trans holds.1, holds.2.1, has _ holds.2.2.1, none holds.2.2.2.1, spared _ holds.2.2.2.2⟩
    | startRan _ => exact ⟨starting.trans holds.1, alone _ holds.2.1, spared _ holds.2.2⟩
    | startFailed _ => exact ⟨starting.trans holds.1, none holds.2⟩
    | startForgot _ | startDrained => exact ⟨starting.trans holds.1, clear holds.2⟩
    | stopRemoved _ => exact ⟨starting.trans holds.1, alone _ holds.2⟩
    | stopReading _ _ => exact ⟨starting.trans holds.1, alone _ holds.2.1, none holds.2.2.1, holds.2.2.2⟩
    | stopForgot _ _ => exact ⟨starting.trans holds.1, clear holds.2.1, holds.2.2⟩

theorem RouteName.Owned.live_started (owned : name.Owned) {route : RouteProcess} (member : route ∈ name.live) :
    route.incarnation < name.incarnations := by
  have empty : name.live ≠ [] := fun none => by
    rw [none] at member
    cases member
  have alone : ∀ other, name.Alone other → route.incarnation < name.incarnations := by
    intro other alone
    rw [alone.live.resolve_left empty] at member
    rw [List.mem_singleton.mp member]
    exact alone.started
  cases owned with
  | free _ _ _ clear => exact absurd clear.live empty
  | route other _ _ _ isAlone _ => exact alone other isAlone
  | call call _ _ holds =>
    cases call with
    | startClaimed _ _ => exact absurd holds.2.1.live empty
    | startCounted _ _ _ | startArmed _ _ _ => exact absurd holds.2.2.2.1 empty
    | startRan other => exact alone other holds.2.1
    | startFailed _ => exact absurd holds.2 empty
    | startForgot _ | startDrained => exact absurd holds.2.live empty
    | stopRemoved other => exact alone other holds.2
    | stopReading _ _ => exact absurd holds.2.2.1 empty
    | stopForgot _ _ => exact absurd holds.2.1.live empty

def RouteName.core (name : RouteName) :=
  (name.running, name.calls, name.starting, name.counter, name.startedAt, name.sample, name.live, name.incarnations,
    name.discarded)

theorem RouteName.Owned.frame (owned : name.Owned) (same : after.core = name.core) : after.Owned := by
  simp only [RouteName.core, Prod.mk.injEq] at same
  obtain ⟨running, calls, starting, counter, startedAt, sample, live, incarnations, discarded⟩ := same
  refine owned.congr running calls starting (fun incarnation has => ?_) (fun clear => ?_) (fun route one => ?_) (fun none => ?_)
    incarnations discarded
  · exact ⟨counter.trans has.counter, startedAt ▸ has.startedAt, sample ▸ has.sample⟩
  · exact ⟨counter.trans clear.counter, startedAt.trans clear.startedAt, sample.trans clear.sample, live.trans clear.live⟩
  · rw [live]
    exact one
  · exact live.trans none

theorem captured_openCapture (name : RouteName) (capacity : Nat) : (name.openCapture capacity).captured = name.captured := by
  unfold RouteName.openCapture RouteName.captured
  cases name.capture <;> rfl

theorem captured_drain (name : RouteName) : name.drain.captured = [] := by
  unfold RouteName.drain RouteName.captured
  cases name.capture <;> rfl

theorem gather_from {incarnation : Nat} {gathering : Gathering} (has : name.Has incarnation)
    (from_ : gathering.From incarnation) : (name.gather gathering).From incarnation := by
  cases gathering with
  | nothing => exact has.counter
  | counted sequence =>
    unfold RouteName.gather
    cases found : name.sample with
    | none => exact ⟨from_, has.counter, nofun⟩
    | some sample =>
      refine ⟨from_, has.counter, fun other same => ?_⟩
      obtain rfl := Option.some.inj same
      exact has.sample sample found
  | sampled sequence seen =>
    obtain ⟨counted, counter, sample⟩ := from_
    exact ⟨counted, counter, fun other same => ⟨sample other same, has.startedAt⟩⟩
  | complete reading => exact from_

/-- The next step of an owning call leaves the name to the call or frees it. -/
theorem owned_call {call : Call} {next : Option Call} {chance : RouteName.Chance} {moved : RouteName}
    (running : name.running = none) (holds : call.Holds name) (resumed : name.resume chance call = some (moved, next)) :
    RouteName.Owned { moved with calls := next.toList } := by
  cases call with
  | startClaimed incarnation captureLast =>
    obtain ⟨starting, clear, spared⟩ := holds
    simp only [RouteName.resume, RouteName.counterFor, clear.counter] at resumed
    obtain ⟨rfl, rfl⟩ := Prod.mk.inj (Option.some.inj resumed)
    refine .call _ running rfl ⟨starting, rfl, ⟨rfl, ⟨chance.now, ?_⟩, ?_⟩, clear.live, ⟨spared.started, spared.discarded⟩⟩
    · show name.startedAt.or _ = _
      rw [clear.startedAt, Option.none_or]
    · intro sample found
      have found : name.sample = some sample := found
      rw [clear.sample] at found
      cases found
  | startCounted incarnation captureLast counter =>
    obtain ⟨starting, own, has, live, spared⟩ := holds
    obtain ⟨rfl, rfl⟩ := Prod.mk.inj (Option.some.inj resumed)
    split
    · exact .call _ running rfl ⟨starting, own, ⟨has.counter, has.startedAt, has.sample⟩, live,
        ⟨spared.started, spared.discarded⟩⟩
    · exact .call _ running rfl ⟨starting, own, ⟨has.counter, has.startedAt, has.sample⟩, live,
        ⟨spared.started, spared.discarded⟩⟩
  | startArmed incarnation captureLast counter =>
    obtain ⟨starting, own, has, live, spared⟩ := holds
    unfold RouteName.resume at resumed
    dsimp only at resumed
    split at resumed
    · obtain ⟨rfl, rfl⟩ := Prod.mk.inj (Option.some.inj resumed)
      refine .call _ running rfl ⟨starting, ⟨own, ⟨has.counter, has.startedAt, has.sample⟩, .inr ?_, spared.started⟩,
        ⟨spared.started, spared.discarded⟩⟩
      show _ :: name.live = _
      rw [live]
    · obtain ⟨rfl, rfl⟩ := Prod.mk.inj (Option.some.inj resumed)
      exact .call _ running rfl ⟨starting, live⟩
  | startRan route =>
    obtain ⟨-, alone, spared⟩ := holds
    unfold RouteName.resume at resumed
    dsimp only at resumed
    split at resumed
    · cases resumed
    · obtain ⟨rfl, rfl⟩ := Prod.mk.inj (Option.some.inj resumed)
      have has := alone.has
      exact .route route rfl rfl rfl ⟨alone.own, ⟨has.counter, has.startedAt, has.sample⟩, alone.live, alone.started⟩
        ⟨spared.started, spared.discarded⟩
  | startFailed captureLast =>
    obtain ⟨starting, live⟩ := holds
    obtain ⟨rfl, rfl⟩ := Prod.mk.inj (Option.some.inj resumed)
    exact .call _ running rfl ⟨starting, rfl, rfl, rfl, live⟩
  | startForgot captureLast =>
    obtain ⟨starting, clear⟩ := holds
    unfold RouteName.resume at resumed
    dsimp only at resumed
    split at resumed
    · obtain ⟨rfl, rfl⟩ := Prod.mk.inj (Option.some.inj resumed)
      exact .call _ running rfl ⟨starting, clear.counter, clear.startedAt, clear.sample, clear.live⟩
    · obtain ⟨rfl, rfl⟩ := Prod.mk.inj (Option.some.inj resumed)
      exact .call _ running rfl ⟨starting, clear.counter, clear.startedAt, clear.sample, clear.live⟩
  | startDrained =>
    obtain ⟨-, clear⟩ := holds
    obtain ⟨rfl, rfl⟩ := Prod.mk.inj (Option.some.inj resumed)
    exact .free running rfl rfl ⟨clear.counter, clear.startedAt, clear.sample, clear.live⟩
  | stopRemoved route =>
    obtain ⟨starting, alone⟩ := holds
    obtain ⟨rfl, rfl⟩ := Prod.mk.inj (Option.some.inj resumed)
    have ended : (name.live.filter fun other => other.incarnation != route.incarnation) = [] := by
      rcases alone.live with none | one
      · rw [none]
        rfl
      · rw [one]
        simp
    have has := alone.has
    exact .call _ running rfl ⟨starting, ⟨alone.own, ⟨has.counter, has.startedAt, has.sample⟩, .inl ended, alone.started⟩,
      ended, trivial⟩
  | stopReading route gathering =>
    obtain ⟨starting, alone, live, from_⟩ := holds
    have has := alone.has
    cases gathering with
    | complete reading =>
      obtain ⟨rfl, rfl⟩ := Prod.mk.inj (Option.some.inj resumed)
      exact .call _ running rfl ⟨starting, ⟨rfl, rfl, rfl, live⟩, from_⟩
    | nothing | counted sequence | sampled sequence seen =>
      obtain ⟨rfl, rfl⟩ := Prod.mk.inj (Option.some.inj resumed)
      exact .call _ running rfl ⟨starting, ⟨alone.own, ⟨has.counter, has.startedAt, has.sample⟩, .inl live, alone.started⟩,
        live, gather_from has from_⟩
  | stopForgot route reading =>
    obtain ⟨starting, clear, -⟩ := holds
    obtain ⟨rfl, rfl⟩ := Prod.mk.inj (Option.some.inj resumed)
    exact .free running rfl starting ⟨clear.counter, clear.startedAt, clear.sample, clear.live⟩

theorem mem_captured_push {capture : MessageCapture} {new captured : Captured}
    (member : captured ∈ (capture.push new).messages) : captured ∈ capture.messages ∨ captured = new := by
  unfold MessageCapture.push at member
  split at member
  · rcases List.mem_append.mp member with old | last
    · exact .inl old
    · exact .inr (List.mem_singleton.mp last)
  · rcases List.mem_append.mp member with old | last
    · exact .inl (List.mem_of_mem_drop old)
    · exact .inr (List.mem_singleton.mp last)

theorem read_core {reader : Reader} {next : Option Reader} {chance : RouteName.Chance} {moved : RouteName}
    (read : name.read chance reader = some (moved, next)) :
    moved.core = name.core ∧ ∀ captured ∈ moved.captured, captured ∈ name.captured := by
  cases reader with
  | waiting =>
    unfold RouteName.read at read
    dsimp only at read
    split at read
    · cases read
    · split at read
      · obtain ⟨rfl, -⟩ := Prod.mk.inj (Option.some.inj read)
        exact ⟨rfl, fun _ member => member⟩
      · split at read
        · obtain ⟨rfl, -⟩ := Prod.mk.inj (Option.some.inj read)
          exact ⟨rfl, fun _ member => member⟩
        · split at read <;>
            · obtain ⟨rfl, -⟩ := Prod.mk.inj (Option.some.inj read)
              exact ⟨rfl, fun _ member => member⟩
  | reading route status gathering holds =>
    cases gathering with
    | complete _ | nothing | counted _ | sampled _ _ =>
      obtain ⟨rfl, -⟩ := Prod.mk.inj (Option.some.inj read)
      exact ⟨rfl, fun _ member => member⟩
  | draining =>
    obtain ⟨rfl, -⟩ := Prod.mk.inj (Option.some.inj read)
    refine ⟨rfl, fun captured member => ?_⟩
    rw [captured_drain] at member
    cases member

/-- What a call throws away and leaves was captured before, and no start is forgotten. -/
theorem call_sourced {call : Call} {next : Option Call} {chance : RouteName.Chance} {moved : RouteName}
    (sourced : name.Sourced) (resumed : name.resume chance call = some (moved, next)) : moved.Sourced := by
  have same : ∀ other : RouteName, other.captured = name.captured → other.discarded = name.discarded →
      other.incarnations = name.incarnations → other.Sourced := by
    intro other captured discarded incarnations
    unfold RouteName.Sourced
    rw [captured, discarded, incarnations]
    exact sourced
  have drained : ∀ other : RouteName, other.captured = [] → other.discarded = name.discarded ++ name.captured →
      other.incarnations = name.incarnations → other.Sourced := by
    intro other captured discarded incarnations
    unfold RouteName.Sourced
    rw [captured, discarded, incarnations, List.append_nil]
    exact sourced
  cases call with
  | startClaimed incarnation captureLast =>
    unfold RouteName.resume RouteName.counterFor at resumed
    dsimp only at resumed
    split at resumed <;>
      · obtain ⟨rfl, -⟩ := Prod.mk.inj (Option.some.inj resumed)
        exact same _ rfl rfl rfl
  | startCounted incarnation captureLast counter =>
    obtain ⟨rfl, -⟩ := Prod.mk.inj (Option.some.inj resumed)
    split
    · exact same _ (captured_openCapture _ _) rfl rfl
    · exact sourced
  | startArmed incarnation captureLast counter =>
    unfold RouteName.resume at resumed
    dsimp only at resumed
    split at resumed <;>
      · obtain ⟨rfl, -⟩ := Prod.mk.inj (Option.some.inj resumed)
        exact same _ rfl rfl rfl
  | startRan route =>
    unfold RouteName.resume at resumed
    dsimp only at resumed
    split at resumed
    · cases resumed
    · obtain ⟨rfl, -⟩ := Prod.mk.inj (Option.some.inj resumed)
      exact same _ rfl rfl rfl
  | startFailed _ | startDrained | stopRemoved _ =>
    obtain ⟨rfl, -⟩ := Prod.mk.inj (Option.some.inj resumed)
    exact same _ rfl rfl rfl
  | startForgot captureLast =>
    unfold RouteName.resume at resumed
    dsimp only at resumed
    split at resumed
    · obtain ⟨rfl, -⟩ := Prod.mk.inj (Option.some.inj resumed)
      exact drained _ (captured_drain (name.openCapture chance.capacity)) rfl rfl
    · obtain ⟨rfl, -⟩ := Prod.mk.inj (Option.some.inj resumed)
      exact sourced
  | stopReading route gathering =>
    cases gathering with
    | complete _ | nothing | counted _ | sampled _ _ =>
      obtain ⟨rfl, -⟩ := Prod.mk.inj (Option.some.inj resumed)
      exact same _ rfl rfl rfl
  | stopForgot route reading =>
    obtain ⟨rfl, -⟩ := Prod.mk.inj (Option.some.inj resumed)
    exact drained _ (captured_drain (name.openCapture chance.capacity)) rfl rfl

theorem sampled_owned (owned : name.Owned) (now : Metrics.Instant) : (name.takeSample now).Owned := by
  unfold RouteName.takeSample
  split
  · next counter here =>
    refine owned.congr rfl rfl rfl (fun incarnation has => ?_) (fun clear => ?_) (fun _ one => one) (fun none => none) rfl rfl
    · refine ⟨has.counter, has.startedAt, fun sample found => ?_⟩
      obtain rfl := Option.some.inj found
      exact Option.some.inj (here.symm.trans has.counter)
    · rw [clear.counter] at here
      cases here
  · exact owned

/-- The name keeps one owner when no start overlaps a stop. -/
theorem owned_act {action : RouteName.Action} (owned : name.Owned) (sourced : name.Sourced) (apart : NoOverlap name action)
    (acts : name.act action = some after) : after.Owned ∧ after.Sourced := by
  cases action with
  | start captureLast =>
    obtain ⟨running, starting, rfl⟩ := RouteName.act_start acts
    have noStop := apart running starting
    refine ⟨?_, fun captured member => Nat.lt_succ_of_lt (sourced captured member)⟩
    cases owned with
    | free _ calls _ clear =>
      refine .call (.startClaimed name.incarnations captureLast) running ?_ ⟨rfl, ?_, Nat.lt_succ_self _, ?_⟩
      · show _ :: name.calls = _
        rw [calls]
      · exact ⟨clear.counter, clear.startedAt, clear.sample, clear.live⟩
      · intro captured member same
        have old := sourced captured (List.mem_append_left _ member)
        omega
    | route route running' _ _ _ _ =>
      rw [running] at running'
      cases running'
    | call call _ calls holds =>
      have notStop := noStop call (by rw [calls]; exact List.mem_singleton_self _)
      have claimed : name.starting = true := by
        cases call with
        | stopRemoved _ | stopReading _ _ | stopForgot _ _ => cases notStop
        | startClaimed _ _ | startCounted _ _ _ | startArmed _ _ _ | startRan _ | startFailed _ | startForgot _
        | startDrained => exact holds.1
      rw [starting] at claimed
      cases claimed
  | stop =>
    obtain ⟨route, running, rfl⟩ := RouteName.act_running acts
    refine ⟨?_, sourced⟩
    cases owned with
    | free none _ _ _ =>
      rw [running] at none
      cases none
    | route other running' calls starting alone _ =>
      obtain rfl := Option.some.inj (running.symm.trans running')
      have has := alone.has
      refine .call (.stopRemoved route) rfl ?_ ⟨starting, alone.own, ⟨has.counter, has.startedAt, has.sample⟩, alone.live,
        alone.started⟩
      show _ :: name.calls = _
      rw [calls]
    | call _ none _ _ =>
      rw [running] at none
      cases none
  | wait =>
    obtain rfl := Option.some.inj acts
    exact ⟨owned.frame rfl, sourced⟩
  | status | messages =>
    obtain ⟨route, -, rfl⟩ := RouteName.act_running acts
    exact ⟨owned.frame rfl, sourced⟩
  | resume index chance =>
    simp only [RouteName.act, Option.bind_eq_bind, Option.bind_eq_some_iff, Option.some.injEq] at acts
    obtain ⟨call, here, ⟨moved, next⟩, resumed, rfl⟩ := acts
    refine ⟨?_, fun captured member => call_sourced sourced resumed captured member⟩
    cases owned with
    | free _ calls _ _ | route _ _ calls _ _ _ =>
      rw [calls] at here
      cases here
    | call owner running calls holds =>
      rw [calls] at here ⊢
      obtain ⟨rfl, rfl⟩ : index = 0 ∧ owner = call := by
        cases index with
        | zero => exact ⟨rfl, Option.some.inj here⟩
        | succ index => cases here
      have step := owned_call running holds resumed
      simpa using step
  | read index chance =>
    simp only [RouteName.act, Option.bind_eq_bind, Option.bind_eq_some_iff, Option.some.injEq] at acts
    obtain ⟨reader, -, ⟨moved, next⟩, read, rfl⟩ := acts
    obtain ⟨same, fewer⟩ := read_core read
    refine ⟨owned.frame same, fun captured member => ?_⟩
    simp only [RouteName.core, Prod.mk.injEq] at same
    obtain ⟨-, -, -, -, -, -, -, incarnations, discarded⟩ := same
    show captured.source < moved.incarnations
    rw [incarnations]
    apply sourced
    rcases List.mem_append.mp member with thrown | kept
    · exact List.mem_append_left _ (discarded ▸ thrown)
    · exact List.mem_append_right _ (fewer captured kept)
  | handle index message redelivery =>
    obtain ⟨route, here, rfl⟩ := Option.map_eq_some_iff.mp acts
    refine ⟨owned.frame rfl, fun captured member => ?_⟩
    rcases List.mem_append.mp member with thrown | kept
    · exact sourced captured (List.mem_append_left _ thrown)
    · have either : captured ∈ name.captured ∨ captured.source = route.incarnation := by
        unfold RouteName.captured RouteName.handled at kept
        dsimp only at kept
        split at kept
        · unfold RouteName.captured
          cases buffer : name.capture with
          | none =>
            rw [buffer] at kept
            cases kept
          | some capture =>
            rw [buffer] at kept
            rcases mem_captured_push kept with old | rfl
            · exact .inl old
            · exact .inr rfl
        · exact .inl kept
      rcases either with old | own
      · exact sourced captured (List.mem_append_right _ old)
      · rw [own]
        exact owned.live_started (List.mem_of_getElem? here)
  | ended index status =>
    obtain ⟨route, here, rfl⟩ := Option.map_eq_some_iff.mp acts
    refine ⟨?_, sourced⟩
    refine owned.congr rfl rfl rfl (fun _ has => ⟨has.counter, has.startedAt, has.sample⟩) (fun clear => ?_)
      (fun other one => ?_) (fun none => ?_) rfl rfl
    · refine ⟨clear.counter, clear.startedAt, clear.sample, ?_⟩
      show name.live.eraseIdx index = []
      rw [clear.live]
      rfl
    · show name.live.eraseIdx index = [] ∨ name.live.eraseIdx index = [other]
      rcases one with none | one
      · rw [none]
        exact .inl rfl
      · rw [one] at here ⊢
        cases index with
        | zero => exact .inl rfl
        | succ index => cases here
    · show name.live.eraseIdx index = []
      rw [none]
      rfl
  | sample now =>
    obtain rfl := Option.some.inj acts
    refine ⟨sampled_owned owned now, ?_⟩
    unfold RouteName.takeSample
    split <;> exact sourced

end

/-- Under every name at most one route is live, and a running route's counter is the one that is reported,
with nothing it captured thrown away, as long as no start claims a name that a stop is still at work on. -/
theorem one_incarnation (actions : List ServerAction) (after : Server)
    (careful : Steps.Careful Server.act (Server.Meets NoOverlap) Server.new actions)
    (played : Steps.play Server.act Server.new actions = some after) (name : Text) :
    (after name).live.length ≤ 1 ∧ ∀ route, (after name).running = some route →
      (after name).counter = some route.counter ∧ ∀ captured ∈ (after name).discarded, captured.source ≠ route.incarnation := by
  have initial : ∀ name, (Server.new name).Owned ∧ (Server.new name).Sourced := fun _ =>
    ⟨.free rfl rfl rfl ⟨rfl, rfl, rfl, rfl⟩, fun captured member => absurd member List.not_mem_nil⟩
  have kept := Steps.play_invariant (Server.act_invariant
    (fun name after action both apart acts => owned_act both.1 both.2 apart acts)
    (fun name now both => ⟨sampled_owned both.1 now, by
      unfold RouteName.takeSample
      split <;> exact both.2⟩)) initial careful played name
  obtain ⟨owned, -⟩ := kept
  refine ⟨owned.live, fun route running => ?_⟩
  cases owned with
  | free none _ _ _ =>
    rw [running] at none
    cases none
  | route other running' _ _ alone spared =>
    obtain rfl := Option.some.inj (running.symm.trans running')
    exact ⟨alone.own ▸ alone.has.counter, spared.discarded⟩
  | call _ none _ _ =>
    rw [running] at none
    cases none

/-- The first call under a name takes its next `count` steps. -/
def steps (name : Text) (count : Nat) : List ServerAction := List.replicate count (.on name (.resume 0 {}))

def startAlone (name : Text) : List ServerAction := .on name (.start 10) :: steps name 4

def stopAlone (name : Text) : List ServerAction := .on name .stop :: steps name 5

/-- A route that captures is started, has a message, is stopped and started again. -/
def restarted : List ServerAction :=
  startAlone "orders" ++ (.on "orders" (.handle 0 "hello" false) :: (stopAlone "orders" ++ startAlone "orders"))

theorem steps_careful (server : Server) (name : Text) (count : Nat) :
    Steps.Careful Server.act (Server.Meets NoOverlap) server (steps name count) := by
  refine Steps.careful_of_forall fun action member server => ?_
  rw [List.eq_of_mem_replicate member]
  trivial

theorem startAlone_careful {server : Server} {name : Text} (quiet : (server name).calls = []) :
    Steps.Careful Server.act (Server.Meets NoOverlap) server (startAlone name) := by
  refine Steps.careful_of_cons (fun _ _ call member => ?_) fun _ _ => steps_careful _ name 4
  rw [quiet] at member
  cases member

theorem stopAlone_careful (server : Server) (name : Text) :
    Steps.Careful Server.act (Server.Meets NoOverlap) server (stopAlone name) :=
  Steps.careful_of_cons trivial fun _ _ => steps_careful _ name 5

theorem restarted_careful : Steps.Careful Server.act (Server.Meets NoOverlap) Server.new restarted := by
  refine Steps.careful_append (startAlone_careful rfl) fun running played => ?_
  obtain rfl := Option.some.inj played
  refine Steps.careful_of_cons trivial fun handled stepped => ?_
  obtain rfl := Option.some.inj stepped
  refine Steps.careful_append (stopAlone_careful _ _) fun stopped played => ?_
  obtain rfl := Option.some.inj played
  exact startAlone_careful rfl

theorem one_incarnation_restarted : ∃ after, Steps.play Server.act Server.new restarted = some after ∧
    (after "orders").live.length ≤ 1 ∧ ∀ route, (after "orders").running = some route →
      (after "orders").counter = some route.counter ∧
        ∀ captured ∈ (after "orders").discarded, captured.source ≠ route.incarnation :=
  ⟨_, rfl, one_incarnation restarted _ restarted_careful rfl "orders"⟩

/-- The route is started again while the stop waits for it to end. -/
def overlapped : List ServerAction :=
  startAlone "orders" ++ (.on "orders" .stop :: .on "orders" (.start 10) :: steps "orders" 3)

/-- The second route is registered and captures a message, and the stop goes on. -/
def cleanedUp : List ServerAction :=
  overlapped ++ (steps "orders" 1 ++ .on "orders" (.handle 0 "hello" false) :: steps "orders" 5)

theorem overlapped_incarnations :
    (∃ after, Steps.play Server.act Server.new overlapped = some after ∧ ¬ (after "orders").live.length ≤ 1) ∧
      ∃ after route, Steps.play Server.act Server.new cleanedUp = some after ∧ (after "orders").running = some route ∧
        (after "orders").counter ≠ some route.counter ∧
        ∃ captured ∈ (after "orders").discarded, captured.source = route.incarnation := by
  refine ⟨⟨_, rfl, by decide⟩, ⟨_, _, rfl, rfl, by decide, by decide⟩⟩

end MqBridge.Mcp
