import MqBridgeApp.Metrics.RouteMetrics
import Mathlib.Data.Rat.Floor

/-!
# Routes of the tool server

The calls that start, stop and report on routes, each as the steps it takes one lock at a time. What the
server keeps of a route is in maps keyed by its name, so a server is a state for each name. A counter is
known by the start that made it. Numbers are exact.
-/

namespace MqBridge.Mcp
open Metrics (Instant)

/-- What a report reads of a sample, with the counter that the sample was made on. -/
structure ReportedSample where
  totalMessages : Nat
  lastChangeAt : Instant
  counter : Nat

def ReportedSample.of (counter : Nat) (sample : Metrics.RouteMetricSample) : ReportedSample :=
  ⟨sample.totalMessages, sample.lastChangeAt, counter⟩

def ReportedSample.next (previous : Option ReportedSample) (counter totalMessages : Nat) (observedAt : Instant) :
    ReportedSample where
  totalMessages
  lastChangeAt :=
    Metrics.lastChange (previous.map fun sample => (sample.totalMessages, sample.lastChangeAt)) totalMessages observedAt
  counter

theorem ReportedSample.next_eq (exp : ℚ → ℚ) (previous : Option Metrics.RouteMetricSample) (before counter totalMessages : Nat)
    (observedAt : Instant) : ReportedSample.next (previous.map (ReportedSample.of before)) counter totalMessages observedAt =
      ReportedSample.of counter (Metrics.nextRouteMetricSample exp previous totalMessages observedAt) := by
  cases previous <;> rfl

structure RouteTiming where
  messages : Nat
  elapsed : Nat

def round2 (value : ℚ) : ℚ := round (value * 100) / 100

def asSecs (span : Nat) : ℚ := span / 1000000000

def elapsedAndAverage (messages : Nat) (timing : Option RouteTiming) : Option ℚ × Option ℚ :=
  (timing.map fun timing => round2 (asSecs timing.elapsed),
    timing.map fun timing => round2 (if 0 < asSecs timing.elapsed then messages / asSecs timing.elapsed else 0))

structure Captured where
  source : Nat
  message : Text

structure MessageCapture where
  capacity : Nat
  messages : List Captured

/-- The oldest message gives way when the buffer is full. -/
def MessageCapture.push (capture : MessageCapture) (captured : Captured) : MessageCapture :=
  if capture.messages.length < capture.capacity then { capture with messages := capture.messages ++ [captured] }
  else { capture with messages := capture.messages.drop 1 ++ [captured] }

/-! ### Calls -/

/-- A route that was started, and the counter its handler writes to. -/
structure RouteProcess where
  incarnation : Nat
  counter : Nat
  captures : Bool

structure RouteStatus where
  outcome : Option Text := none
  error : Option Text := none

/-- A count, and the counter it was read from. A name without a counter counts zero. -/
structure Sequence where
  messages : Nat
  counter : Option Nat

structure SampleRead where
  sample : Option ReportedSample
  counter : Option Nat

/-- Everything a report reads of the metrics. The start is not read without a sample. -/
structure Reading where
  sequence : Sequence
  sampled : SampleRead
  startedAt : Option (Instant × Nat)

def Reading.timing (reading : Reading) : Option RouteTiming :=
  match reading.sampled.sample, reading.startedAt with
  | some sample, some (startedAt, _) => some ⟨sample.totalMessages, sample.lastChangeAt - startedAt⟩
  | _, _ => none

inductive Gathering where
  | nothing
  | counted (sequence : Sequence)
  | sampled (sequence : Sequence) (sampled : SampleRead)
  | complete (reading : Reading)

/-- What a call returns about a route: its status or outcome, and what was read of the metrics. -/
structure Report where
  route : RouteProcess
  status : RouteStatus
  reading : Reading

def Report.messages (report : Report) : Nat := report.reading.sequence.messages

def Report.elapsedS (report : Report) : Option ℚ := (elapsedAndAverage report.messages report.reading.timing).1

def Report.averageMessagesPerSecond (report : Report) : Option ℚ :=
  (elapsedAndAverage report.messages report.reading.timing).2

inductive Call where
  | startClaimed (incarnation captureLast : Nat)
  | startCounted (incarnation captureLast counter : Nat)
  | startArmed (incarnation captureLast counter : Nat)
  | startRan (route : RouteProcess)
  | startFailed (captureLast : Nat)
  | startForgot (captureLast : Nat)
  | startDrained
  | stopRemoved (route : RouteProcess)
  | stopReading (route : RouteProcess) (gathering : Gathering)
  | stopForgot (route : RouteProcess) (reading : Reading)

/-- A call that reads: one that waits, one that has seen a route and reads its metrics, holding the lock
on the routes or not, and one that is about to drain the captured messages. -/
inductive Reader where
  | waiting
  | reading (route : RouteProcess) (status : RouteStatus) (gathering : Gathering) (holds : Bool)
  | draining

structure RouteName where
  running : Option RouteProcess := none
  starting : Bool := false
  counter : Option Nat := none
  values : Nat → Nat := fun _ => 0
  startedAt : Option (Instant × Nat) := none
  sample : Option ReportedSample := none
  capture : Option MessageCapture := none
  live : List RouteProcess := []
  status : Nat → RouteStatus := fun _ => {}
  /-- The captured messages that a stop or a failed start has thrown away. -/
  discarded : List Captured := []
  incarnations : Nat := 0
  calls : List Call := []
  readers : List Reader := []
  reports : List Report := []

namespace RouteName

def counterFor (name : RouteName) (incarnation : Nat) (now : Instant) : RouteName × Nat :=
  match name.counter with
  | some counter => ({ name with startedAt := name.startedAt.or (some (now, incarnation)) }, counter)
  | none =>
    ({ name with
        counter := some incarnation
        values := Function.update name.values incarnation 0
        startedAt := name.startedAt.or (some (now, incarnation)) }, incarnation)

def sequence (name : RouteName) : Sequence := ⟨(name.counter.map name.values).getD 0, name.counter⟩

def forget (name : RouteName) : RouteName := { name with counter := none, sample := none, startedAt := none }

def takeSample (name : RouteName) (now : Instant) : RouteName :=
  match name.counter with
  | some counter =>
    { name with sample := some (ReportedSample.next name.sample counter (name.values counter) now) }
  | none => name

def openCapture (capacity : Nat) (name : RouteName) : RouteName :=
  { name with capture := some (name.capture.getD ⟨capacity, []⟩) }

def drain (name : RouteName) : RouteName :=
  { name with capture := name.capture.map fun capture => { capture with messages := [] } }

def captured (name : RouteName) : List Captured := (name.capture.map (·.messages)).getD []

def handled (name : RouteName) (route : RouteProcess) (message : Text) (redelivery : Bool) : RouteName :=
  { name with
    values := if redelivery then name.values
      else Function.update name.values route.counter (name.values route.counter + 1)
    capture := if route.captures then name.capture.map (·.push ⟨route.incarnation, message⟩) else name.capture }

def gather (name : RouteName) : Gathering → Gathering
  | .nothing => .counted name.sequence
  | .counted sequence =>
    match name.sample with
    | some sample => .sampled sequence ⟨some sample, name.counter⟩
    | none => .complete ⟨sequence, ⟨none, name.counter⟩, none⟩
  | .sampled sequence sampled => .complete ⟨sequence, sampled, name.startedAt⟩
  | .complete reading => .complete reading

def holdsRoutes : Reader → Bool
  | .reading _ _ _ holds => holds
  | _ => false

/-- A status call has the lock on the routes. -/
def locked (name : RouteName) : Bool := name.readers.any holdsRoutes

/-! ### Steps -/

/-- What the outside decides in a step: whether a route starts, the time, whether a wait is over, the status
of a route, and the capacity of a buffer that is opened without one. -/
structure Chance where
  runs : Bool := true
  now : Instant := 0
  timedOut : Bool := false
  status : RouteStatus := {}
  capacity : Nat := 100

/-- The next step of a call, and where the call stands after it. -/
def resume (name : RouteName) (chance : Chance) : Call → Option (RouteName × Option Call)
  | .startClaimed incarnation captureLast =>
    let (counted, counter) := name.counterFor incarnation chance.now
    some (counted, some (.startCounted incarnation captureLast counter))
  | .startCounted incarnation captureLast counter =>
    some (if 0 < captureLast then name.openCapture captureLast else name,
      some (.startArmed incarnation captureLast counter))
  | .startArmed incarnation captureLast counter =>
    if chance.runs then
      let route : RouteProcess := ⟨incarnation, counter, 0 < captureLast⟩
      some ({ name with
        live := route :: name.live
        status := Function.update name.status incarnation chance.status }, some (.startRan route))
    else some (name, some (.startFailed captureLast))
  | .startRan route =>
    if name.locked then none else some ({ name with starting := false, running := some route }, none)
  | .startFailed captureLast => some (name.forget, some (.startForgot captureLast))
  | .startForgot captureLast =>
    if 0 < captureLast then
      some ({ (name.openCapture chance.capacity).drain with discarded := name.discarded ++ name.captured },
        some .startDrained)
    else some (name, some .startDrained)
  | .startDrained => some ({ name with starting := false }, none)
  | .stopRemoved route =>
    some ({ name with
      live := name.live.filter fun other => other.incarnation != route.incarnation
      status := Function.update name.status route.incarnation chance.status }, some (.stopReading route .nothing))
  | .stopReading route (.complete reading) => some (name.forget, some (.stopForgot route reading))
  | .stopReading route gathering => some (name, some (.stopReading route (name.gather gathering)))
  | .stopForgot route reading =>
    some ({ (name.openCapture chance.capacity).drain with
      discarded := name.discarded ++ name.captured
      reports := name.reports ++ [⟨route, {}, reading⟩] }, none)

def read (name : RouteName) (chance : Chance) : Reader → Option (RouteName × Option Reader)
  | .waiting =>
    if name.locked then none
    else
      match name.running with
      | none => some (name, none)
      | some route =>
        if (name.status route.incarnation).outcome.isSome then
          some (name, some (.reading route (name.status route.incarnation) .nothing false))
        else if chance.timedOut then some (name, some (.reading route {} .nothing false))
        else some (name, some .waiting)
  | .reading route status (.complete reading) holds =>
    let status := if holds then name.status route.incarnation else status
    some ({ name with reports := name.reports ++ [⟨route, status, reading⟩] }, none)
  | .reading route status gathering holds =>
    some (name, some (.reading route status (name.gather gathering) holds))
  | .draining => some ((name.openCapture chance.capacity).drain, none)

inductive Action where
  | start (captureLast : Nat)
  | stop
  | wait
  | status
  | messages
  | resume (index : Nat) (chance : Chance)
  | read (index : Nat) (chance : Chance)
  | handle (index : Nat) (message : Text) (redelivery : Bool)
  | ended (index : Nat) (status : RouteStatus)
  | sample (now : Instant)

/-- One step under the name. A call that is refused leaves none in flight. -/
def act (name : RouteName) : Action → Option RouteName
  | .start captureLast =>
    if name.locked || name.running.isSome || name.starting then none
    else
      some { name with
        starting := true
        incarnations := name.incarnations + 1
        calls := .startClaimed name.incarnations captureLast :: name.calls }
  | .stop =>
    if name.locked then none
    else name.running.map fun route => { name with running := none, calls := .stopRemoved route :: name.calls }
  | .wait => some { name with readers := .waiting :: name.readers }
  | .status =>
    if name.locked then none
    else name.running.map fun route => { name with readers := .reading route {} .nothing true :: name.readers }
  | .messages =>
    if name.locked then none else name.running.map fun _ => { name with readers := .draining :: name.readers }
  | .resume index chance => do
    let call ← name.calls[index]?
    let (moved, next) ← name.resume chance call
    some { moved with calls := name.calls.take index ++ (next.toList ++ name.calls.drop (index + 1)) }
  | .read index chance => do
    let reader ← name.readers[index]?
    let (moved, next) ← name.read chance reader
    some { moved with readers := name.readers.take index ++ (next.toList ++ name.readers.drop (index + 1)) }
  | .handle index message redelivery =>
    name.live[index]?.map fun route => name.handled route message redelivery
  | .ended index status =>
    name.live[index]?.map fun route =>
      { name with live := name.live.eraseIdx index, status := Function.update name.status route.incarnation status }
  | .sample now => some (name.takeSample now)

section
variable {name after : RouteName}

theorem act_start {captureLast : Nat} (acts : name.act (.start captureLast) = some after) :
    name.running = none ∧ name.starting = false ∧
      after = { name with
        starting := true
        incarnations := name.incarnations + 1
        calls := .startClaimed name.incarnations captureLast :: name.calls } := by
  obtain ⟨free, taken⟩ := Option.ite_none_left_eq_some.mp acts
  simp only [Bool.or_eq_true, not_or, Bool.not_eq_true, Option.isSome_eq_false_iff, Option.isNone_iff_eq_none] at free
  exact ⟨free.1.2, free.2, (Option.some.inj taken).symm⟩

theorem act_running {change : RouteProcess → RouteName}
    (acts : (if name.locked then none else name.running.map change) = some after) :
    ∃ route, name.running = some route ∧ after = change route := by
  obtain ⟨-, taken⟩ := Option.ite_none_left_eq_some.mp acts
  obtain ⟨route, running, rfl⟩ := Option.map_eq_some_iff.mp taken
  exact ⟨route, running, rfl⟩

end

end RouteName

/-- Everything the server keeps, by name. -/
abbrev Server := Text → RouteName

/-- A step under one name, or a pass of the sampler over all of them. -/
inductive ServerAction where
  | on (name : Text) (action : RouteName.Action)
  | sample (now : Instant)

def Server.act (server : Server) : ServerAction → Option Server
  | .on name action => ((server name).act action).map (Function.update server name)
  | .sample now => some fun name => (server name).takeSample now

def Server.new : Server := fun _ => {}

/-- A step under a name meets a condition on it. A pass of the sampler meets any. -/
def Server.Meets (meets : RouteName → RouteName.Action → Prop) (server : Server) : ServerAction → Prop
  | .on name action => meets (server name) action
  | .sample _ => True

/-- What the steps under a name keep is kept of every name. -/
theorem Server.act_invariant {meets : RouteName → RouteName.Action → Prop} {holds : RouteName → Prop}
    (step : ∀ (name after : RouteName) action, holds name → meets name action → name.act action = some after → holds after)
    (sample : ∀ (name : RouteName) now, holds name → holds (name.takeSample now)) {server next : Server}
    {action : ServerAction} (before : ∀ name, holds (server name)) (met : server.Meets meets action)
    (stepped : server.act action = some next) : ∀ name, holds (next name) := by
  intro name
  cases action with
  | on acted action =>
    obtain ⟨moved, acts, rfl⟩ := Option.map_eq_some_iff.mp stepped
    by_cases same : name = acted
    · subst same
      rw [Function.update_self]
      exact step _ _ action (before name) met acts
    · rw [Function.update_of_ne same]
      exact before name
  | sample now =>
    obtain rfl := Option.some.inj stepped
    exact sample _ now (before name)

end MqBridge.Mcp
