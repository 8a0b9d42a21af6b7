import MqBridgeApp.Mcp.Incarnations

/-!
# Reports on one start of a route

A report puts a route's status or outcome beside a count, a sample and a start time, each read under a
lock of its own. A stop that forgets the metrics in between leaves the report with zeros, or with what
the next start counts.
-/

namespace MqBridge.Mcp
open Text

/-- All of a report was read while the metrics were the route's own, and they were. -/
structure Report.OfOneStart (report : Report) : Prop where
  counted : report.reading.sequence.counter = some report.route.incarnation
  lookedUp : report.reading.sampled.counter = some report.route.incarnation
  sampled : ∀ sample, report.reading.sampled.sample = some sample → sample.counter = report.route.incarnation ∧
    ∃ now, report.reading.startedAt = some (now, report.route.incarnation)

def Gathering.isComplete : Gathering → Bool
  | .complete _ => true
  | _ => false

/-- A reader that has seen a start's route and has not read all of its metrics. -/
def Reader.Unfinished (incarnation : Nat) : Reader → Prop
  | .reading route _ gathering _ => route.incarnation = incarnation ∧ gathering.isComplete = false
  | _ => False

/-- No start claims a name that a stop is at work on, and no stop forgets the metrics of a route while a
report on it is unfinished. -/
def Undisturbed (name : RouteName) : RouteName.Action → Prop
  | .resume index _ => ∀ route reading, name.calls[index]? = some (.stopReading route (.complete reading)) →
    ∀ reader ∈ name.readers, ¬ reader.Unfinished route.incarnation
  | action => NoOverlap name action

theorem Undisturbed.noOverlap {name : RouteName} {action : RouteName.Action} (undisturbed : Undisturbed name action) :
    NoOverlap name action := by
  cases action with
  | resume index chance => trivial
  | start _ => exact undisturbed
  | stop | wait | status | messages | read _ _ | handle _ _ _ | ended _ _ | sample _ => trivial

/-- The route is registered, or a stop that has taken it has not forgotten its metrics. -/
def RouteName.Keeps (name : RouteName) (route : RouteProcess) : Prop :=
  name.running = some route ∨ name.calls = [.stopRemoved route] ∨ ∃ gathering, name.calls = [.stopReading route gathering]

/-- What a reader has so far is of one start, and what it is yet to read will be. -/
def Reader.Sound (name : RouteName) : Reader → Prop
  | .reading route _ gathering _ => gathering.From route.incarnation ∧
    (gathering.isComplete = false → name.Has route.incarnation ∧ name.Keeps route)
  | _ => True

/-- Readers are sound, and reports are of one start. -/
structure RouteName.Reliable (name : RouteName) : Prop where
  owned : name.Owned
  sourced : name.Sourced
  readers : ∀ reader ∈ name.readers, reader.Sound name
  reports : ∀ report ∈ name.reports, report.OfOneStart

section
variable {name after : RouteName}

theorem Reader.Sound.mono {reader : Reader} (sound : reader.Sound name)
    (keeps : ∀ route, name.Has route.incarnation → name.Keeps route → reader.Unfinished route.incarnation →
      after.Has route.incarnation ∧ after.Keeps route) : reader.Sound after := by
  cases reader with
  | waiting | draining => trivial
  | reading route status gathering holds =>
    refine ⟨sound.1, fun unfinished => ?_⟩
    obtain ⟨has, kept⟩ := sound.2 unfinished
    exact keeps route has kept ⟨rfl, unfinished⟩

theorem Reader.Sound.frame {reader : Reader} (sound : reader.Sound name) (same : after.core = name.core) :
    reader.Sound after := by
  simp only [RouteName.core, Prod.mk.injEq] at same
  obtain ⟨running, calls, -, counter, startedAt, sample, -, -, -⟩ := same
  apply sound.mono
  intro route has kept _
  refine ⟨⟨counter.trans has.counter, startedAt ▸ has.startedAt, sample ▸ has.sample⟩, ?_⟩
  unfold RouteName.Keeps
  rw [running, calls]
  exact kept

theorem RouteName.Owned.alone_of_running (owned : name.Owned) {route : RouteProcess} (running : name.running = some route) :
    name.calls = [] ∧ name.Alone route := by
  cases owned with
  | free none _ _ _ =>
    rw [running] at none
    cases none
  | route other running' calls _ alone _ =>
    obtain rfl := Option.some.inj (running.symm.trans running')
    exact ⟨calls, alone⟩
  | call _ none _ _ =>
    rw [running] at none
    cases none

/-- The next step of a reader leaves it sound, or with a report of one start. -/
theorem read_reliable {reader : Reader} {next : Option Reader} {chance : RouteName.Chance} {moved : RouteName}
    (owned : name.Owned) (reports : ∀ report ∈ name.reports, report.OfOneStart) (sound : reader.Sound name)
    (read : name.read chance reader = some (moved, next)) :
    (∀ reader ∈ next, reader.Sound moved) ∧ ∀ report ∈ moved.reports, report.OfOneStart := by
  cases reader with
  | waiting =>
    have begins : ∀ route status, name.running = some route → (Reader.reading route status .nothing false).Sound name := by
      intro route status running
      exact ⟨trivial, fun _ => ⟨(owned.alone_of_running running).2.has, .inl running⟩⟩
    unfold RouteName.read at read
    dsimp only at read
    split at read
    · cases read
    · split at read
      · obtain ⟨rfl, rfl⟩ := Prod.mk.inj (Option.some.inj read)
        exact ⟨nofun, reports⟩
      · next route running =>
        split at read
        · obtain ⟨rfl, rfl⟩ := Prod.mk.inj (Option.some.inj read)
          refine ⟨fun reader same => ?_, reports⟩
          obtain rfl := Option.some.inj same
          exact begins route _ running
        · split at read
          · obtain ⟨rfl, rfl⟩ := Prod.mk.inj (Option.some.inj read)
            refine ⟨fun reader same => ?_, reports⟩
            obtain rfl := Option.some.inj same
            exact begins route _ running
          · obtain ⟨rfl, rfl⟩ := Prod.mk.inj (Option.some.inj read)
            refine ⟨fun reader same => ?_, reports⟩
            obtain rfl := Option.some.inj same
            trivial
  | reading route status gathering holds =>
    cases gathering with
    | complete reading =>
      obtain ⟨rfl, rfl⟩ := Prod.mk.inj (Option.some.inj read)
      refine ⟨nofun, fun report member => ?_⟩
      rcases List.mem_append.mp member with old | new
      · exact reports report old
      · obtain rfl := List.mem_singleton.mp new
        obtain ⟨counted, lookedUp, sampled⟩ := sound.1
        exact ⟨counted, lookedUp, sampled⟩
    | nothing | counted sequence | sampled sequence seen =>
      obtain ⟨rfl, rfl⟩ := Prod.mk.inj (Option.some.inj read)
      refine ⟨fun reader same => ?_, reports⟩
      obtain rfl := Option.some.inj same
      obtain ⟨has, kept⟩ := sound.2 rfl
      exact ⟨gather_from has sound.1, fun _ => ⟨has, kept⟩⟩
  | draining =>
    obtain ⟨rfl, rfl⟩ := Prod.mk.inj (Option.some.inj read)
    exact ⟨nofun, reports⟩

/-- An unfinished report outlives the next step of a call that does not forget its metrics. -/
theorem call_keeps {call : Call} {next : Option Call} {chance : RouteName.Chance} {moved : RouteName} {route : RouteProcess}
    (running : name.running = none) (calls : name.calls = [call]) (has : name.Has route.incarnation)
    (kept : name.Keeps route) (unforgotten : ∀ reading, call ≠ .stopReading route (.complete reading))
    (resumed : name.resume chance call = some (moved, next)) :
    moved.Has route.incarnation ∧ RouteName.Keeps { moved with calls := next.toList } route := by
  rcases kept with registered | removed | ⟨gathering, reading⟩
  · rw [running] at registered
    cases registered
  · obtain rfl : call = .stopRemoved route := List.singleton_inj.mp (calls.symm.trans removed)
    obtain ⟨rfl, rfl⟩ := Prod.mk.inj (Option.some.inj resumed)
    exact ⟨⟨has.counter, has.startedAt, has.sample⟩, .inr (.inr ⟨.nothing, rfl⟩)⟩
  · obtain rfl : call = .stopReading route gathering := List.singleton_inj.mp (calls.symm.trans reading)
    cases gathering with
    | complete _ => exact absurd rfl (unforgotten _)
    | nothing | counted _ | sampled _ _ =>
      obtain ⟨rfl, rfl⟩ := Prod.mk.inj (Option.some.inj resumed)
      exact ⟨has, .inr (.inr ⟨_, rfl⟩)⟩

/-- Calls leave the readers alone, and only a stop reports, on the route it took. -/
theorem resume_reports {call : Call} {next : Option Call} {chance : RouteName.Chance} {moved : RouteName}
    (resumed : name.resume chance call = some (moved, next)) :
    moved.readers = name.readers ∧ (moved.reports = name.reports ∨
      ∃ route reading, call = .stopForgot route reading ∧ moved.reports = name.reports ++ [⟨route, {}, reading⟩]) := by
  cases call with
  | startClaimed incarnation captureLast =>
    unfold RouteName.resume RouteName.counterFor at resumed
    dsimp only at resumed
    split at resumed <;>
      · obtain ⟨rfl, -⟩ := Prod.mk.inj (Option.some.inj resumed)
        exact ⟨rfl, .inl rfl⟩
  | startCounted incarnation captureLast counter =>
    obtain ⟨rfl, -⟩ := Prod.mk.inj (Option.some.inj resumed)
    split <;> exact ⟨rfl, .inl rfl⟩
  | startArmed incarnation captureLast counter =>
    unfold RouteName.resume at resumed
    dsimp only at resumed
    split at resumed <;>
      · obtain ⟨rfl, -⟩ := Prod.mk.inj (Option.some.inj resumed)
        exact ⟨rfl, .inl rfl⟩
  | startRan route =>
    unfold RouteName.resume at resumed
    dsimp only at resumed
    split at resumed
    · cases resumed
    · obtain ⟨rfl, -⟩ := Prod.mk.inj (Option.some.inj resumed)
      exact ⟨rfl, .inl rfl⟩
  | startFailed _ | startDrained | stopRemoved _ =>
    obtain ⟨rfl, -⟩ := Prod.mk.inj (Option.some.inj resumed)
    exact ⟨rfl, .inl rfl⟩
  | startForgot captureLast =>
    unfold RouteName.resume at resumed
    dsimp only at resumed
    split at resumed <;>
      · obtain ⟨rfl, -⟩ := Prod.mk.inj (Option.some.inj resumed)
        exact ⟨rfl, .inl rfl⟩
  | stopReading route gathering =>
    cases gathering with
    | complete _ | nothing | counted _ | sampled _ _ =>
      obtain ⟨rfl, -⟩ := Prod.mk.inj (Option.some.inj resumed)
      exact ⟨rfl, .inl rfl⟩
  | stopForgot route reading =>
    obtain ⟨rfl, -⟩ := Prod.mk.inj (Option.some.inj resumed)
    exact ⟨rfl, .inr ⟨route, reading, rfl, rfl⟩⟩

theorem call_reports {call : Call} {next : Option Call} {chance : RouteName.Chance} {moved : RouteName}
    (holds : call.Holds name) (reports : ∀ report ∈ name.reports, report.OfOneStart)
    (resumed : name.resume chance call = some (moved, next)) : ∀ report ∈ moved.reports, report.OfOneStart := by
  rcases (resume_reports resumed).2 with same | ⟨route, reading, rfl, added⟩
  · rw [same]
    exact reports
  · intro report member
    rw [added] at member
    rcases List.mem_append.mp member with old | new
    · exact reports report old
    · obtain rfl := List.mem_singleton.mp new
      obtain ⟨counted, lookedUp, sampled⟩ := holds.2.2
      exact ⟨counted, lookedUp, sampled⟩

theorem sampled_has {incarnation : Nat} (has : name.Has incarnation) (now : Metrics.Instant) :
    (name.takeSample now).Has incarnation := by
  unfold RouteName.takeSample
  rw [has.counter]
  refine ⟨rfl, has.startedAt, fun sample found => ?_⟩
  obtain rfl := Option.some.inj found
  rfl

theorem reliable_sample (reliable : name.Reliable) (now : Metrics.Instant) : (name.takeSample now).Reliable := by
  have keeps : ∀ route, name.Keeps route → (name.takeSample now).Keeps route := by
    intro route kept
    unfold RouteName.takeSample
    split <;> exact kept
  have same : (name.takeSample now).readers = name.readers ∧ (name.takeSample now).reports = name.reports := by
    unfold RouteName.takeSample
    split <;> exact ⟨rfl, rfl⟩
  refine ⟨sampled_owned reliable.owned now, ?_, fun reader member => ?_, same.2 ▸ reliable.reports⟩
  · unfold RouteName.takeSample
    split <;> exact reliable.sourced
  · exact (reliable.readers reader (same.1 ▸ member)).mono fun route has kept _ => ⟨sampled_has has now, keeps route kept⟩

theorem reliable_act {action : RouteName.Action} (reliable : name.Reliable) (undisturbed : Undisturbed name action)
    (acts : name.act action = some after) : after.Reliable := by
  obtain ⟨ownedAfter, sourcedAfter⟩ := owned_act reliable.owned reliable.sourced undisturbed.noOverlap acts
  have unchanged : after.core = name.core → after.readers = name.readers → after.reports = name.reports →
      after.Reliable := fun core readers reports =>
    ⟨ownedAfter, sourcedAfter, fun reader member => (reliable.readers reader (readers ▸ member)).frame core,
      reports ▸ reliable.reports⟩
  cases action with
  | start captureLast =>
    obtain ⟨running, starting, rfl⟩ := RouteName.act_start acts
    -- no stop is at work, so no report on a route is unfinished
    refine ⟨ownedAfter, sourcedAfter, fun reader member => ?_, reliable.reports⟩
    apply (reliable.readers reader member).mono
    intro route _ kept _
    have noStop : ∀ call ∈ name.calls, call.isStop = false := undisturbed running starting
    rcases kept with registered | removed | ⟨gathering, reading⟩
    · rw [running] at registered
      cases registered
    · cases noStop (.stopRemoved route) (by rw [removed]; exact List.mem_singleton_self _)
    · cases noStop (.stopReading route gathering) (by rw [reading]; exact List.mem_singleton_self _)
  | stop =>
    obtain ⟨route, running, rfl⟩ := RouteName.act_running acts
    obtain ⟨calls, -⟩ := reliable.owned.alone_of_running running
    refine ⟨ownedAfter, sourcedAfter, fun reader member => ?_, reliable.reports⟩
    apply (reliable.readers reader member).mono
    intro other has kept _
    refine ⟨⟨has.counter, has.startedAt, has.sample⟩, .inr (.inl ?_)⟩
    show _ :: name.calls = _
    rw [calls]
    rcases kept with registered | removed | ⟨gathering, reading⟩
    · rw [Option.some.inj (running.symm.trans registered)]
    · rw [calls] at removed
      cases removed
    · rw [calls] at reading
      cases reading
  | wait =>
    obtain rfl := Option.some.inj acts
    refine ⟨ownedAfter, sourcedAfter, fun reader member => ?_, reliable.reports⟩
    rcases List.mem_cons.mp member with rfl | old
    · trivial
    · exact (reliable.readers reader old).frame rfl
  | status =>
    obtain ⟨route, running, rfl⟩ := RouteName.act_running acts
    refine ⟨ownedAfter, sourcedAfter, fun reader member => ?_, reliable.reports⟩
    rcases List.mem_cons.mp member with rfl | old
    · have has := (reliable.owned.alone_of_running running).2.has
      exact ⟨trivial, fun _ => ⟨⟨has.counter, has.startedAt, has.sample⟩, .inl running⟩⟩
    · exact (reliable.readers reader old).frame rfl
  | messages =>
    obtain ⟨route, -, rfl⟩ := RouteName.act_running acts
    refine ⟨ownedAfter, sourcedAfter, fun reader member => ?_, reliable.reports⟩
    rcases List.mem_cons.mp member with rfl | old
    · trivial
    · exact (reliable.readers reader old).frame rfl
  | resume index chance =>
    simp only [RouteName.act, Option.bind_eq_bind, Option.bind_eq_some_iff, Option.some.injEq] at acts
    obtain ⟨call, here, ⟨moved, next⟩, resumed, rfl⟩ := acts
    cases reliable.owned with
    | free _ calls _ _ | route _ _ calls _ _ _ =>
      rw [calls] at here
      cases here
    | call owner running calls holds =>
      obtain ⟨rfl, rfl⟩ : index = 0 ∧ owner = call := by
        rw [calls] at here
        cases index with
        | zero => exact ⟨rfl, Option.some.inj here⟩
        | succ index => cases here
      have readers := (resume_reports resumed).1
      have reports := call_reports holds reliable.reports resumed
      refine ⟨ownedAfter, sourcedAfter, fun reader member => ?_, reports⟩
      have inside : reader ∈ name.readers := readers ▸ member
      apply (reliable.readers reader inside).mono
      intro route has kept unfinished
      have unforgotten : ∀ reading, owner ≠ .stopReading route (.complete reading) := by
        rintro reading rfl
        exact undisturbed route reading here reader inside unfinished
      obtain ⟨has', kept'⟩ := call_keeps running calls has kept unforgotten resumed
      have left : name.calls.take 0 ++ (next.toList ++ name.calls.drop (0 + 1)) = next.toList := by
        rw [calls]
        simp
      refine ⟨⟨has'.counter, has'.startedAt, has'.sample⟩, ?_⟩
      unfold RouteName.Keeps at kept' ⊢
      dsimp only at kept' ⊢
      rw [left]
      exact kept'
  | read index chance =>
    simp only [RouteName.act, Option.bind_eq_bind, Option.bind_eq_some_iff, Option.some.injEq] at acts
    obtain ⟨reader, here, ⟨moved, next⟩, read, rfl⟩ := acts
    obtain ⟨sound, reports⟩ := read_reliable reliable.owned reliable.reports
      (reliable.readers reader (List.mem_of_getElem? here)) read
    have core := (read_core read).1
    refine ⟨ownedAfter, sourcedAfter, fun other member => ?_, reports⟩
    simp only [List.mem_append, Option.mem_toList] at member
    rcases member with before | same | later
    · exact (reliable.readers other (List.mem_of_mem_take before)).frame core
    · exact (sound other same).frame rfl
    · exact (reliable.readers other (List.mem_of_mem_drop later)).frame core
  | handle index message redelivery =>
    obtain ⟨route, -, rfl⟩ := Option.map_eq_some_iff.mp acts
    exact unchanged rfl rfl rfl
  | ended index status =>
    obtain ⟨route, -, rfl⟩ := Option.map_eq_some_iff.mp acts
    refine ⟨ownedAfter, sourcedAfter, fun reader member => ?_, reliable.reports⟩
    apply (reliable.readers reader member).mono
    intro other has kept _
    exact ⟨⟨has.counter, has.startedAt, has.sample⟩, kept⟩
  | sample now =>
    obtain rfl := Option.some.inj acts
    exact reliable_sample reliable now

end

theorem reliable_new : RouteName.Reliable {} where
  owned := .free rfl rfl rfl ⟨rfl, rfl, rfl, rfl⟩
  sourced _ member := absurd member List.not_mem_nil
  readers _ member := absurd member List.not_mem_nil
  reports _ member := absurd member List.not_mem_nil

/-- Every report is on one start of a route when no start overlaps a stop and no stop forgets what an
unfinished report is yet to read. -/
theorem reports_of_one_start (actions : List ServerAction) (after : Server)
    (careful : Steps.Careful Server.act (Server.Meets Undisturbed) Server.new actions)
    (played : Steps.play Server.act Server.new actions = some after) (name : Text) :
    ∀ report ∈ (after name).reports, report.OfOneStart := by
  have initial : ∀ name, (Server.new name).Reliable := fun _ => reliable_new
  have reliable := Steps.play_invariant (Server.act_invariant (fun name after action reliable undisturbed acts =>
      reliable_act reliable undisturbed acts) (fun name now reliable => reliable_sample reliable now)) initial careful
    played name
  exact reliable.reports

theorem steps_undisturbed {server : Server} {base : Text} (quiet : (server base).readers = []) (count : Nat) :
    Steps.Careful Server.act (Server.Meets Undisturbed) server (steps base count) := by
  induction count generalizing server with
  | zero => trivial
  | succ count ih =>
    refine Steps.careful_of_cons (fun _ _ _ reader member => ?_) fun next stepped => ih ?_
    · rw [quiet] at member
      cases member
    · obtain ⟨moved, acts, rfl⟩ := Option.map_eq_some_iff.mp stepped
      rw [Function.update_self]
      simp only [RouteName.act, Option.bind_eq_bind, Option.bind_eq_some_iff, Option.some.injEq] at acts
      obtain ⟨call, -, ⟨after, next⟩, resumed, rfl⟩ := acts
      exact (resume_reports resumed).1.trans quiet

/-- A route moves a message, is sampled and ends. -/
def drainedRoute : List ServerAction :=
  startAlone "orders" ++ [.on "orders" (.handle 0 "hello" false), .sample 7, .on "orders" (.ended 0 { outcome := some "completed" })]

def reads (count : Nat) : List ServerAction := List.replicate count (.on "orders" (.read 0 {}))

/-- The wait has reported before the route is stopped. -/
def waitedThenStopped : List ServerAction :=
  drainedRoute ++ (.on "orders" .wait :: (reads 5 ++ .on "orders" .stop :: steps "orders" 6))

theorem drainedRoute_careful : Steps.Careful Server.act (Server.Meets Undisturbed) Server.new drainedRoute := by
  refine Steps.careful_append ?_ fun next played => Steps.careful_of_forall fun action member server => ?_
  · refine Steps.careful_of_cons (fun _ _ _ member => absurd member List.not_mem_nil) fun next stepped => ?_
    obtain rfl := Option.some.inj stepped
    exact steps_undisturbed rfl 4
  · simp only [List.mem_cons, List.not_mem_nil, or_false] at member
    rcases member with rfl | rfl | rfl <;> trivial

theorem waitedThenStopped_careful : Steps.Careful Server.act (Server.Meets Undisturbed) Server.new waitedThenStopped := by
  refine Steps.careful_append drainedRoute_careful fun next played => ?_
  obtain rfl := Option.some.inj played
  refine Steps.careful_of_cons trivial fun next stepped => ?_
  obtain rfl := Option.some.inj stepped
  refine Steps.careful_append (Steps.careful_of_forall fun action member server => ?_) fun next played => ?_
  · rw [List.eq_of_mem_replicate member]
    trivial
  · obtain rfl := Option.some.inj played
    refine Steps.careful_of_cons trivial fun next stepped => ?_
    obtain rfl := Option.some.inj stepped
    exact steps_undisturbed rfl 6

theorem reports_of_one_start_waited : ∃ after, Steps.play Server.act Server.new waitedThenStopped = some after ∧
    ((after "orders").reports.map (·.messages)) = [1, 1] ∧ ∀ report ∈ (after "orders").reports, report.OfOneStart :=
  ⟨_, rfl, by decide, reports_of_one_start waitedThenStopped _ waitedThenStopped_careful rfl "orders"⟩

/-- The route is stopped between the wait's look at it and its read of the count. -/
def stoppedWhileWaiting : List ServerAction :=
  drainedRoute ++ (.on "orders" .wait :: (reads 1 ++ .on "orders" .stop :: (steps "orders" 6 ++ reads 3)))

theorem stopped_while_waiting : ∃ after report, Steps.play Server.act Server.new stoppedWhileWaiting = some after ∧
    report ∈ (after "orders").reports ∧ report.status.outcome = some ("completed" : Text) ∧ report.messages = 0 ∧
      (after "orders").values report.route.counter = 1 ∧ ¬ report.OfOneStart := by
  refine ⟨_, _, rfl, List.mem_cons_of_mem _ List.mem_cons_self, rfl, rfl, rfl, fun sound => ?_⟩
  cases sound.counted

end MqBridge.Mcp
