import MqBridgeApp.Lib.JavaScript
import MqBridgeApp.Lib.Steps
import MqBridgeApp.Lib.Assoc

/-!
# Polling the runtime status

A poll asks for the status of this process and of its peers at once. The timer skips its turn while a poll that it began
is under way, but the page also polls on its own. A client that may not see its peers stops asking.
-/

namespace MqBridge.Ui
open Text

structure ConsumerState where
  running : Bool
  healthy : Bool
  target : Text
  pending : Option JsonNumber
  capacity : Option JsonNumber
  error : Option Text
  details : Json
  throughput : JsonNumber
  messageSequence : JsonNumber
  captureEnabled : Bool
  captureKeepLast : JsonNumber

structure ShownStatus where
  activeConsumers : List Text := []
  activeRoutes : List Text := []
  routeThroughput : Json := .obj []
  consumers : List (Text × ConsumerState) := []

structure PeerStatus where
  currentInstanceId : Text := []
  instances : List Json := []

def isObjectLike : Json → Bool
  | .obj _ | .arr _ => true
  | _ => false

def isTruthy (value : Option Json) : Bool := value.any Json.truthy

def numberOf : Option Json → Option JsonNumber
  | some (.num number) => some number
  | _ => none

def textOf : Option Json → Option Text
  | some (.str text) => some text
  | _ => none

def boolOf : Option Json → Option Bool
  | some (.bool value) => some value
  | _ => none

def shownTexts : Option Json → List Text
  | some (.arr items) => items.map Json.toText
  | _ => []

def normalizeConsumerStatus (name : Text) (value : Json) : ConsumerState :=
  let rawConsumer := objectEntries value
  let rawStatus := ((rawConsumer.prop "status").map objectEntries).getD []
  { running := isTruthy (rawConsumer.prop "running")
    healthy := isTruthy (rawStatus.prop "healthy")
    target := (textOf (rawStatus.prop "target")).getD name
    pending := numberOf (rawStatus.prop "pending")
    capacity := numberOf (rawStatus.prop "capacity")
    error := (textOf (rawStatus.prop "error")).filter fun error => !error.isEmpty
    details := (rawStatus.prop "details").getD .null
    throughput := (numberOf (rawConsumer.prop "throughput")).getD (.ofNat 0)
    messageSequence := (numberOf (rawConsumer.prop "message_sequence")).getD (.ofNat 0)
    captureEnabled := (boolOf (rawConsumer.prop "capture_enabled")).getD true
    captureKeepLast := (numberOf (rawConsumer.prop "capture_keep_last")).getD (.ofNat 100) }

def normalizeStatus (rawStatus : Json) : ShownStatus :=
  let status := objectEntries rawStatus
  { activeConsumers := shownTexts (status.prop "active_consumers")
    activeRoutes := shownTexts (status.prop "active_routes")
    routeThroughput := ((status.prop "route_throughput").filter isObjectLike).getD (.obj [])
    consumers := (((status.prop "consumers").map objectEntries).getD []).map fun entry =>
      (entry.1, normalizeConsumerStatus entry.1 entry.2) }

def readPeerStatus : Json → Option PeerStatus
  | .null => none
  | raw => some {
      currentInstanceId := (textOf (raw.get? "current_instance_id")).getD []
      instances := Json.items (raw.get? "instances") }

/-! ### Polls -/

/-- An answer without a body has one that is no JSON. -/
inductive FetchOutcome where
  | failed
  | answered (status : Nat) (body : Option Json)

def FetchOutcome.okBody : FetchOutcome → Option Json
  | .failed => none
  | .answered status body => if 200 ≤ status ∧ status ≤ 299 then body else none

def FetchOutcome.isForbidden : FetchOutcome → Bool
  | .failed => false
  | .answered status _ => status = 403

structure StatusPoll where
  byTimer : Bool
  runtime : Option ShownStatus := none
  /-- The answer of the peer request is still to come. -/
  asksPeers : Bool

structure StatusPoller where
  timer : Bool := false
  inFlight : Bool := false
  peerStatusForbidden : Bool := false
  polls : List StatusPoll := []
  peers : PeerStatus := {}
  /-- The statuses that were published, the last one first. -/
  published : List ShownStatus := []
  begun : Nat := 0
  peerRequests : Nat := 0

inductive PollerAction where
  | start
  | stop
  | tick
  | poll
  | runtimeAnswer (index : Nat) (outcome : FetchOutcome)
  | peerAnswer (index : Nat) (outcome : FetchOutcome)
  | settle (index : Nat)

namespace StatusPoller
variable (poller : StatusPoller)

/-- Both requests go out, unless the peers are forbidden. -/
def beginPoll (byTimer : Bool) : StatusPoller :=
  { poller with
    polls := poller.polls ++ [{ byTimer, asksPeers := !poller.peerStatusForbidden }]
    begun := poller.begun + 1
    peerRequests := if poller.peerStatusForbidden then poller.peerRequests else poller.peerRequests + 1 }

/-- What an answer about the peers shows. One that fails leaves the last list. -/
def showPeers (outcome : FetchOutcome) : StatusPoller :=
  if outcome.isForbidden then { poller with peerStatusForbidden := true, peers := {} }
  else { poller with peers := (outcome.okBody.bind readPeerStatus).getD poller.peers }

def pollerStep : PollerAction → Option StatusPoller
  | .start => some { poller with timer := true }
  | .stop => some { poller with timer := false }
  | .tick =>
    if poller.timer then
      some (if poller.inFlight then poller else { poller with inFlight := true }.beginPoll true)
    else none
  | .poll => some (poller.beginPoll false)
  | .runtimeAnswer index outcome =>
    match poller.polls[index]? with
    | some poll =>
      if poll.runtime.isNone then
        let poll := { poll with runtime := some ((outcome.okBody.map normalizeStatus).getD {}) }
        some { poller with polls := poller.polls.set index poll }
      else none
    | none => none
  | .peerAnswer index outcome =>
    match poller.polls[index]? with
    | some poll =>
      if poll.asksPeers then
        some ({ poller with polls := poller.polls.set index { poll with asksPeers := false } }.showPeers outcome)
      else none
    | none => none
  | .settle index =>
    -- no task runs between the answers, what is published and the end of the timer's turn
    match poller.polls[index]? with
    | some { byTimer, runtime := some status, asksPeers := false } =>
      some { poller with
        polls := poller.polls.eraseIdx index
        published := status :: poller.published
        inFlight := poller.inFlight && !byTimer }
    | _ => none

/-! ### One step -/

section
variable {poller} {next : StatusPoller} {action : PollerAction}

/-- The polls of the timer, and those that still ask for peers. -/
def timerPolls (poller : StatusPoller) : Nat := poller.polls.countP (·.byTimer)

def asking (poller : StatusPoller) : Nat := poller.polls.countP (·.asksPeers)

theorem countP_set {p : StatusPoll → Bool} {polls : List StatusPoll} {index : Nat} {old new : StatusPoll}
    (found : polls[index]? = some old) :
    (polls.set index new).countP p + (if p old then 1 else 0) = polls.countP p + (if p new then 1 else 0) := by
  induction polls generalizing index with
  | nil => cases found
  | cons poll rest ih =>
    cases index with
    | zero =>
      obtain rfl : poll = old := by simpa using found
      simp only [List.set_cons_zero, List.countP_cons]
      omega
    | succ index =>
      have later := ih (by simpa using found)
      simp only [List.set_cons_succ, List.countP_cons]
      omega

theorem countP_eraseIdx {p : StatusPoll → Bool} {polls : List StatusPoll} {index : Nat} {old : StatusPoll}
    (found : polls[index]? = some old) :
    (polls.eraseIdx index).countP p + (if p old then 1 else 0) = polls.countP p := by
  induction polls generalizing index with
  | nil => cases found
  | cons poll rest ih =>
    cases index with
    | zero =>
      obtain rfl : poll = old := by simpa using found
      simp [List.countP_cons]
    | succ index =>
      have later := ih (by simpa using found)
      simp only [List.eraseIdx_cons_succ, List.countP_cons]
      omega

theorem length_eraseIdx_of_found {polls : List StatusPoll} {index : Nat} {old : StatusPoll}
    (found : polls[index]? = some old) : (polls.eraseIdx index).length + 1 = polls.length := by
  have inside := (List.getElem?_eq_some_iff.mp found).1
  rw [List.length_eraseIdx_of_lt inside]
  omega

/-- What a step does to the polls. -/
inductive Polled (poller : StatusPoller) : PollerAction → StatusPoller → Prop
  | waits (action : PollerAction) (timer : Bool) : Polled poller action { poller with timer }
  | timed : poller.inFlight = false → Polled poller .tick (({ poller with inFlight := true }).beginPoll true)
  | asked : Polled poller .poll (poller.beginPoll false)
  | answered (index : Nat) (old : StatusPoll) (outcome : FetchOutcome) (status : ShownStatus) :
      poller.polls[index]? = some old → Polled poller (.runtimeAnswer index outcome)
        { poller with polls := poller.polls.set index { old with runtime := some status } }
  | peersAnswered (index : Nat) (old : StatusPoll) (outcome : FetchOutcome) :
      poller.polls[index]? = some old → old.asksPeers = true → Polled poller (.peerAnswer index outcome)
        (({ poller with polls := poller.polls.set index { old with asksPeers := false } }).showPeers outcome)
  | settled (index : Nat) (old : StatusPoll) (status : ShownStatus) :
      poller.polls[index]? = some old → old.asksPeers = false → Polled poller (.settle index)
        { poller with
          polls := poller.polls.eraseIdx index
          published := status :: poller.published
          inFlight := poller.inFlight && !old.byTimer }

theorem polled (stepped : poller.pollerStep action = some next) : Polled poller action next := by
  cases action with
  | start =>
    obtain rfl := Option.some.inj stepped
    exact .waits _ true
  | stop =>
    obtain rfl := Option.some.inj stepped
    exact .waits _ false
  | tick =>
    simp only [pollerStep] at stepped
    split at stepped
    · split at stepped
      · obtain rfl := Option.some.inj stepped
        exact .waits _ poller.timer
      · next idle =>
        obtain rfl := Option.some.inj stepped
        exact .timed ((Bool.not_eq_true _).mp idle)
    · cases stepped
  | poll =>
    obtain rfl := Option.some.inj stepped
    exact .asked
  | runtimeAnswer index outcome =>
    simp only [pollerStep] at stepped
    split at stepped
    · next old found =>
      split at stepped
      · obtain rfl := Option.some.inj stepped
        exact .answered index old outcome _ found
      · cases stepped
    · cases stepped
  | peerAnswer index outcome =>
    simp only [pollerStep] at stepped
    split at stepped
    · next old found =>
      split at stepped
      · next asks =>
        obtain rfl := Option.some.inj stepped
        exact .peersAnswered index old outcome found asks
      · cases stepped
    · cases stepped
  | settle index =>
    simp only [pollerStep] at stepped
    split at stepped
    · next byTimer status found =>
      obtain rfl := Option.some.inj stepped
      exact .settled index { byTimer, runtime := some status, asksPeers := false } status found rfl
    · cases stepped

theorem polls_showPeers (poller : StatusPoller) (outcome : FetchOutcome) :
    (poller.showPeers outcome).polls = poller.polls ∧ (poller.showPeers outcome).inFlight = poller.inFlight ∧
      (poller.showPeers outcome).begun = poller.begun ∧ (poller.showPeers outcome).published = poller.published ∧
      (poller.showPeers outcome).peerRequests = poller.peerRequests := by
  unfold showPeers
  split <;> exact ⟨rfl, rfl, rfl, rfl, rfl⟩

/-- The timer has as many polls under way as it says, and each poll is under way or was published. -/
structure Counted (poller : StatusPoller) : Prop where
  single : poller.timerPolls = if poller.inFlight then 1 else 0
  each : poller.begun = poller.published.length + poller.polls.length

theorem counted_step (counted : poller.Counted) (stepped : poller.pollerStep action = some next) : next.Counted := by
  obtain ⟨single, each⟩ := counted
  unfold timerPolls at single
  cases polled stepped with
  | waits _ timer => exact ⟨single, each⟩
  | timed idle =>
    refine ⟨?_, ?_⟩
    · simp only [timerPolls, beginPoll, List.countP_append, single, idle]
      rfl
    · simp only [beginPoll, List.length_append, List.length_singleton, each]
      omega
  | asked =>
    refine ⟨?_, ?_⟩
    · simp only [timerPolls, beginPoll, List.countP_append, single]
      rfl
    · simp only [beginPoll, List.length_append, List.length_singleton, each]
      omega
  | answered index old outcome status found =>
    have same := @countP_set (·.byTimer) _ _ _ { old with runtime := some status } found
    dsimp only at same
    refine ⟨?_, ?_⟩
    · simp only [timerPolls, ← single]
      omega
    · simp only [List.length_set, each]
  | peersAnswered index old outcome found asks =>
    have same := @countP_set (·.byTimer) _ _ _ { old with asksPeers := false } found
    dsimp only at same
    obtain ⟨polls, inFlight, begun, published, -⟩ :=
      polls_showPeers { poller with polls := poller.polls.set index { old with asksPeers := false } } outcome
    refine ⟨?_, ?_⟩
    · rw [timerPolls, polls, inFlight, ← single]
      dsimp only
      omega
    · rw [polls, begun, published, List.length_set, each]
  | settled index old status found silent =>
    have fewer := @countP_eraseIdx (·.byTimer) _ _ _ found
    have shorter := length_eraseIdx_of_found found
    refine ⟨?_, ?_⟩
    · simp only [timerPolls]
      cases flying : poller.inFlight <;> cases timed : old.byTimer <;>
        simp only [flying, timed, if_true, if_false, Bool.false_eq_true, Bool.and_true, Bool.and_false, Bool.not_true,
          Bool.not_false] at single fewer ⊢ <;> omega
    · simp only [List.length_cons, each]
      omega

/-- A client that was refused asks no more. -/
theorem forbidden_step (forbidden : poller.peerStatusForbidden = true) (stepped : poller.pollerStep action = some next) :
    next.peerStatusForbidden = true ∧ next.peerRequests = poller.peerRequests ∧ next.asking ≤ poller.asking := by
  cases polled stepped with
  | waits _ timer => exact ⟨forbidden, rfl, Nat.le_refl _⟩
  | timed idle => simp [beginPoll, forbidden, asking, List.countP_append]
  | asked => simp [beginPoll, forbidden, asking, List.countP_append]
  | answered index old outcome status found =>
    have same := @countP_set (·.asksPeers) _ _ _ { old with runtime := some status } found
    dsimp only at same
    refine ⟨forbidden, rfl, ?_⟩
    simp only [asking]
    omega
  | peersAnswered index old outcome found asks =>
    have fewer := @countP_set (·.asksPeers) _ _ _ { old with asksPeers := false } found
    dsimp only at fewer
    obtain ⟨polls, -, -, -, requests⟩ :=
      polls_showPeers { poller with polls := poller.polls.set index { old with asksPeers := false } } outcome
    refine ⟨?_, requests, ?_⟩
    · unfold showPeers
      split
      · rfl
      · exact forbidden
    · rw [asking, polls]
      simp only [asking, asks, if_true, Bool.false_eq_true, if_false] at fewer ⊢
      omega
  | settled index old status found silent =>
    have fewer := @countP_eraseIdx (·.asksPeers) _ _ _ found
    refine ⟨forbidden, rfl, ?_⟩
    simp only [asking]
    omega

/-- A poll begins while no other one asks for peers. -/
def Alone (poller : StatusPoller) : PollerAction → Prop
  | .tick => poller.inFlight = true ∨ poller.asking = 0
  | .poll => poller.asking = 0
  | _ => True

/-- At most one poll asks for peers, none does once they are forbidden, and then none are shown. -/
structure Hidden (poller : StatusPoller) : Prop where
  one : poller.asking ≤ 1
  hidden : poller.peerStatusForbidden = true → poller.asking = 0 ∧ poller.peers = {}

theorem hidden_beginPoll (hidden : poller.Hidden) (none : poller.asking = 0) (byTimer : Bool) :
    (poller.beginPoll byTimer).Hidden := by
  unfold asking at none
  refine ⟨?_, fun forbidden => ⟨?_, (hidden.hidden forbidden).2⟩⟩
  · simp only [asking, beginPoll, List.countP_append, none]
    cases poller.peerStatusForbidden <;> cases byTimer <;> decide
  · have refused : poller.peerStatusForbidden = true := forbidden
    simp [asking, beginPoll, List.countP_append, none, refused]

theorem hidden_step (hidden : poller.Hidden) (alone : poller.Alone action)
    (stepped : poller.pollerStep action = some next) : next.Hidden := by
  have ⟨one, hides⟩ := hidden
  cases polled stepped with
  | waits _ timer => exact ⟨one, hides⟩
  | timed idle =>
    have none : poller.asking = 0 := alone.resolve_left (by rw [idle]; decide)
    have begins : ({ poller with inFlight := true } : StatusPoller).Hidden := ⟨one, hides⟩
    exact hidden_beginPoll begins none true
  | asked => exact hidden_beginPoll hidden alone false
  | answered index old outcome status found =>
    have same := @countP_set (·.asksPeers) _ _ _ { old with runtime := some status } found
    dsimp only at same
    have equal : ({ poller with polls := poller.polls.set index { old with runtime := some status } } :
        StatusPoller).asking = poller.asking := by
      simp only [asking]
      omega
    exact ⟨by rw [equal]; exact one, fun forbidden => ⟨by rw [equal]; exact (hides forbidden).1, (hides forbidden).2⟩⟩
  | peersAnswered index old outcome found asks =>
    have fewer := @countP_set (·.asksPeers) _ _ _ { old with asksPeers := false } found
    simp only [asks, if_true, Bool.false_eq_true, if_false] at fewer
    have counts : poller.polls.countP (·.asksPeers) ≤ 1 := one
    obtain ⟨polls, -⟩ :=
      polls_showPeers { poller with polls := poller.polls.set index { old with asksPeers := false } } outcome
    have silent : (({ poller with polls := poller.polls.set index { old with asksPeers := false } } :
        StatusPoller).showPeers outcome).asking = 0 := by
      rw [asking, polls]
      dsimp only
      omega
    refine ⟨by rw [silent]; exact Nat.zero_le _, fun forbidden => ⟨silent, ?_⟩⟩
    unfold showPeers at forbidden ⊢
    split
    · rfl
    · next accepted =>
      -- the peers were forbidden before, but then nothing asks
      rw [if_neg accepted] at forbidden
      have quiet := (hides forbidden).1
      unfold asking at quiet
      omega
  | settled index old status found silent =>
    have fewer := @countP_eraseIdx (·.asksPeers) _ _ _ found
    simp only [silent, Bool.false_eq_true, if_false, Nat.add_zero] at fewer
    exact ⟨by simpa only [asking, fewer] using one, fun forbidden =>
      ⟨by simpa only [asking, fewer] using (hides forbidden).1, (hides forbidden).2⟩⟩

variable {actions later : List PollerAction} {after last : StatusPoller}

/-- In every run the timer has at most one poll under way, and every poll that began is under way or was published
once. From the first refusal on no more peer requests go out. If moreover each poll of the run begins while no other
one asks for peers, none are shown from then on. -/
theorem poller_run (played : Steps.play pollerStep {} actions = some after) :
    after.timerPolls ≤ 1 ∧ after.begun = after.published.length + after.polls.length ∧
      (after.peerStatusForbidden = true → ∀ later last, Steps.play pollerStep after later = some last →
        last.peerRequests = after.peerRequests ∧
          (Steps.Careful pollerStep Alone {} actions → Steps.Careful pollerStep Alone after later → last.peers = {})) := by
  have initial : Counted {} := ⟨rfl, rfl⟩
  have counted := Steps.play_kept counted_step initial played
  refine ⟨?single, counted.each, fun forbidden later last continued => ⟨?silent, fun careful carefulLater => ?hidden⟩⟩
  case single =>
    rw [counted.single]
    split <;> decide
  case silent =>
    have kept : last.peerStatusForbidden = true ∧ last.peerRequests = after.peerRequests :=
      @Steps.play_kept _ _ pollerStep after last later
        (fun now => now.peerStatusForbidden = true ∧ now.peerRequests = after.peerRequests)
        (fun refused stepped => by
          obtain ⟨still, requests, -⟩ := forbidden_step refused.1 stepped
          exact ⟨still, requests.trans refused.2⟩)
        ⟨forbidden, rfl⟩ continued
    exact kept.2
  case hidden =>
    have empty : Hidden {} := ⟨Nat.zero_le _, fun refused => by cases refused⟩
    have hidden := Steps.play_invariant hidden_step empty careful played
    have both := @Steps.play_invariant _ _ pollerStep Alone after last later
      (fun now => now.Hidden ∧ now.peerStatusForbidden = true)
      (fun both alone stepped => ⟨hidden_step both.1 alone stepped, (forbidden_step both.2 stepped).1⟩)
      ⟨hidden, forbidden⟩ carefulLater continued
    exact (both.1.hidden both.2).2

end

def refusedOnce : List PollerAction :=
  [.start, .tick, .peerAnswer 0 (.answered 403 none), .runtimeAnswer 0 .failed, .settle 0]

def oneTick : List PollerAction := [.tick, .runtimeAnswer 0 .failed, .settle 0]

def refusedPoller : StatusPoller :=
  { timer := true, peerStatusForbidden := true, published := [{}], begun := 1, peerRequests := 1 }

def laterPoller : StatusPoller :=
  { timer := true, peerStatusForbidden := true, published := [{}, {}], begun := 2, peerRequests := 1 }

theorem poller_run_refused : Steps.play pollerStep refusedPoller oneTick = some laterPoller ∧
    laterPoller.peerRequests = refusedPoller.peerRequests ∧ laterPoller.peers = {} := by
  have played : Steps.play pollerStep {} refusedOnce = some refusedPoller := rfl
  have continued : Steps.play pollerStep refusedPoller oneTick = some laterPoller := rfl
  obtain ⟨requests, hidden⟩ := (poller_run played).2.2 rfl oneTick laterPoller continued
  refine ⟨continued, requests, hidden ?_ ?_⟩
  · exact ⟨trivial, .inr rfl, trivial, trivial, trivial, trivial⟩
  · exact ⟨.inr rfl, trivial, trivial, trivial⟩

/-- Two polls at once can show peers after a refusal. -/
example : ∃ after, Steps.play pollerStep {} [.poll, .poll, .peerAnswer 0 (.answered 403 none),
      .peerAnswer 1 (.answered 200 (some (.obj [("current_instance_id", .str "a"), ("instances", .arr [.null])])))] =
    some after ∧ after.peerStatusForbidden = true ∧ after.peers.instances = [.null] := ⟨_, rfl, rfl, rfl⟩

end StatusPoller

end MqBridge.Ui
