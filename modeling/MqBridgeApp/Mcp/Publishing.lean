import Mathlib.Algebra.GroupWithZero.Nat
import Mathlib.Logic.Function.Basic
import MqBridgeApp.Lib.Assoc
import MqBridgeApp.Lib.Fallible
import MqBridgeApp.Lib.JsonText
import MqBridgeApp.Lib.Steps

/-!
# Publishing

The calls of the `publish` tool, which wait for each other's locks and for the endpoints, among routes that start, count
and stop. Targets and routes count in one map of counters, apart by the prefix of the keys of targets.
-/

namespace MqBridge.Mcp
open Text

structure InputMessage where
  payload : Json
  metadata : List (Text × Text) := []
  messageId : Option Json := none

/-- A message to be sent. One without an id gets an id of its own. -/
structure CanonicalMessage where
  payload : Text
  metadata : List (Text × Text)
  messageId : Option Text

/-- The message, where `parseId` reads an id from a text, a number or an object id. -/
def InputMessage.intoCanonical (parseId : Json → Except Text Text) (message : InputMessage) : Except Text CanonicalMessage :=
  let payload := match message.payload with
    | .str text => text
    | value => Json.render value
  match message.messageId with
  | none => .ok { payload, metadata := message.metadata, messageId := none }
  | some id =>
    match parseId id with
    | .ok parsed => .ok { payload, metadata := message.metadata, messageId := some parsed }
    | .error fault => .error (("invalid message_id: " : Text) ++ fault)

structure PublishArgs where
  /-- The label of the endpoint's type. -/
  endpointType : Text
  message : Option InputMessage := none
  messages : Option (List InputMessage) := none
  name : Option Text := none

def PublishArgs.targetName (args : PublishArgs) : Text :=
  ((args.name.map trim).filter fun name => !name.isEmpty).getD args.endpointType

/-- What the arguments ask to send, and whether as a batch. -/
def PublishArgs.checked (parseId : Json → Except Text Text) (args : PublishArgs) : Except Text (Bool × List CanonicalMessage) :=
  match args.message, args.messages with
  | none, none => .error "provide either \x60message\x60 or \x60messages\x60"
  | some _, some _ => .error "provide only one of \x60message\x60 or \x60messages\x60"
  | some message, none => (message.intoCanonical parseId).map fun canonical => (false, [canonical])
  | none, some messages =>
    if messages.isEmpty then .error "\x60messages\x60 must not be empty"
    else (messages.mapM (InputMessage.intoCanonical parseId)).map fun canonical => (true, canonical)

inductive Sent where
  | ack
  | response (payload : Text) (metadata : List (Text × Text))

inductive SentBatch where
  | ack
  | partially (responses : Option (List Text)) (failed : List Text)

def countJson (n : Nat) : Json := .num (.ofNat n)

def describeSent : Sent → Json
  | .ack => .obj [("status", .str "Ack")]
  | .response payload metadata =>
    .obj [("status", .str "Response"), ("payload", .str payload),
      ("metadata", .obj (metadata.map fun header => (header.1, .str header.2)))]

/-- The summary of a batch, and whether a message of it failed. -/
def describeSentBatch : SentBatch → Nat → Json × Bool
  | .ack, count => (.obj [("status", .str "Ack"), ("sent", countJson count)], false)
  | .partially responses failed, count =>
    let failedCount := failed.length
    (.obj [("status", .str (if failedCount = 0 then "Ack" else "Partial")), ("sent", countJson (count - failedCount)),
      ("failed", countJson failedCount), ("errors", .arr (failed.map .str)),
      ("responses", (responses.map fun payloads => Json.arr (payloads.map .str)).getD .null)], decide (0 < failedCount))

/-- `as_u64`, of a count. -/
def asU64 : Json → Option Nat
  | .num n => if n.text.all Char.isDigit then some (Nat.ofDigitChars 10 n.text 0) else none
  | _ => none

def deliveredOf (summary : Json) (count : Nat) : Nat := ((summary.get? "sent").bind asU64).getD count

/-! ### The server -/

/-- Where a call of `publish` stands. It is refused when its endpoint does not open. -/
inductive PublishStage where
  | opening
  | refused (fault : Text)
  | registering
  | counting
  | sending (counter : Nat) (batch : Bool) (messages : List CanonicalMessage)
  | sent (counter delivered : Nat) (reply : Json) (hadFailures : Bool)
  | answered (delivered : Nat) (reply : Except Text (Json × Bool))

structure PublishCall where
  args : PublishArgs
  stage : PublishStage

def PublishCall.targetName (call : PublishCall) : Text := call.args.targetName

def publisherMetricKey (name : Text) : Text := ("publisher:" : Text) ++ name

/-- What the outside decides: whether the endpoint opens, and what becomes of what is sent. -/
structure PublishChance where
  opened : Except Text Unit := .ok ()
  sent : Except Text Sent := .ok .ack
  sentBatch : Except Text SentBatch := .ok .ack

/-- A key has a counter by its number, since a route keeps the counter that its name has lost. -/
structure PublishServer where
  publishers : List (Text × Text) := []
  counters : List (Text × Nat) := []
  values : Nat → Nat := fun _ => 0
  made : Nat := 0
  /-- The counters that the handlers of routes count in. -/
  routeCounters : List Nat := []
  calls : List PublishCall := []
  /-- The counter of each message that a route handled, for the record. -/
  handled : List Nat := []

namespace PublishServer

variable (parseId : Json → Except Text Text) (server : PublishServer)

def counterFor (key : Text) : PublishServer × Nat :=
  match server.counters.lookup key with
  | some counter => (server, counter)
  | none =>
    ({ server with
        counters := Assoc.insert server.counters (key, server.made)
        values := Function.update server.values server.made 0
        made := server.made + 1 }, server.made)

/-- `metrics.sequence` -/
def sequence (key : Text) : Nat := ((server.counters.lookup key).map server.values).getD 0

def setStage (index : Nat) (call : PublishCall) (stage : PublishStage) : PublishServer :=
  { server with calls := server.calls.set index { call with stage } }

def resumePublish (index : Nat) (chance : PublishChance) (call : PublishCall) : Option PublishServer :=
  match call.stage with
  | .opening =>
    match chance.opened with
    | .ok () => some (server.setStage index call .registering)
    | .error fault => some (server.setStage index call (.refused (("invalid publisher endpoint: " : Text) ++ fault)))
  | .refused _ => none
  | .registering =>
    let name := call.targetName
    some { server.setStage index call .counting with
      publishers := if (server.publishers.lookup name).isSome then server.publishers
        else Assoc.insert server.publishers (name, call.args.endpointType) }
  | .counting =>
    let (counted, counter) := server.counterFor (publisherMetricKey call.targetName)
    match call.args.checked parseId with
    | .ok (batch, messages) => some (counted.setStage index call (.sending counter batch messages))
    | .error fault => some (counted.setStage index call (.answered 0 (.error fault)))
  | .sending counter false _ =>
    match chance.sent with
    | .ok sent => some (server.setStage index call (.sent counter 1 (describeSent sent) false))
    | .error fault => some (server.setStage index call (.answered 0 (.error (("publish failed: " : Text) ++ fault))))
  | .sending counter true messages =>
    match chance.sentBatch with
    | .ok sent =>
      let count := messages.length
      let (summary, hadFailures) := describeSentBatch sent count
      some (server.setStage index call (.sent counter (deliveredOf summary count) summary hadFailures))
    | .error fault => some (server.setStage index call (.answered 0 (.error (("batch publish failed: " : Text) ++ fault))))
  | .sent counter delivered reply hadFailures =>
    some { server.setStage index call (.answered delivered (.ok (reply, hadFailures))) with
      values := Function.update server.values counter (server.values counter + delivered) }
  | .answered _ _ => none

inductive Action where
  | publish (args : PublishArgs)
  | resume (index : Nat) (chance : PublishChance)
  | routeStarts (name : Text)
  | routeHandles (counter : Nat)
  | routeForgotten (name : Text)

def step (parseId : Json → Except Text Text) (server : PublishServer) : Action → Option PublishServer
  | .publish args => some { server with calls := server.calls ++ [⟨args, .opening⟩] }
  | .resume index chance => (server.calls[index]?).bind (server.resumePublish parseId index chance)
  | .routeStarts name =>
    let (counted, counter) := server.counterFor name
    some { counted with routeCounters := counter :: counted.routeCounters }
  | .routeHandles counter =>
    if counter ∈ server.routeCounters then
      some { server with
        values := Function.update server.values counter (server.values counter + 1)
        handled := counter :: server.handled }
    else none
  | .routeForgotten name => some { server with counters := Assoc.erase server.counters name }

end PublishServer

/-! ### What a step can do -/

namespace PublishStage

def registered : PublishStage → Bool
  | opening | refused _ | registering => false
  | _ => true

def counter? : PublishStage → Option Nat
  | sending counter _ _ | sent counter _ _ _ => some counter
  | _ => none

def delivered : PublishStage → Nat
  | answered delivered _ => delivered
  | _ => 0

end PublishStage

/-- What a reply says agrees with what left: a message that was sent alone counts once, a batch counts as many as its
summary says, which are all but the failed ones, and the result is an error when a message failed. -/
def ReplyTells (args : PublishArgs) (delivered : Nat) (reply : Json) (hadFailures : Bool) : Prop :=
  match args.messages with
  | none => delivered = 1 ∧ hadFailures = false
  | some messages => reply.get? "sent" = some (countJson delivered) ∧
      ∃ failed, delivered = messages.length - failed ∧ (hadFailures = true ↔ 0 < failed)

theorem replyTells_single {args : PublishArgs} (alone : args.messages = none) {delivered : Nat} {reply : Json}
    {hadFailures : Bool} : ReplyTells args delivered reply hadFailures ↔ delivered = 1 ∧ hadFailures = false := by
  rw [ReplyTells, alone]

theorem replyTells_batch {args : PublishArgs} {messages : List InputMessage} (batch : args.messages = some messages)
    {delivered : Nat} {reply : Json} {hadFailures : Bool} : ReplyTells args delivered reply hadFailures ↔
      reply.get? "sent" = some (countJson delivered) ∧
        ∃ failed, delivered = messages.length - failed ∧ (hadFailures = true ↔ 0 < failed) := by
  rw [ReplyTells, batch]

/-- A call tells what it did: what it is sending is what it was given, and nothing counts that is not acknowledged. -/
def PublishCall.Told (call : PublishCall) : Prop :=
  match call.stage with
  | .sending _ batch messages =>
    match call.args.messages with
    | none => batch = false
    | some given => batch = true ∧ messages.length = given.length
  | .sent _ delivered reply hadFailures => ReplyTells call.args delivered reply hadFailures
  | .answered delivered (.ok (reply, hadFailures)) => ReplyTells call.args delivered reply hadFailures
  | .answered delivered (.error _) => delivered = 0
  | _ => True

namespace PublishServer

variable {parseId : Json → Except Text Text} {server after : PublishServer} {index : Nat} {chance : PublishChance}
  {call : PublishCall}

/-- What a call does next: it moves on alone, its target is listed, it gets its counter, or it counts what left. -/
theorem resume_cases (resumed : server.resumePublish parseId index chance call = some after) :
    (∃ stage, after = server.setStage index call stage ∧ stage.registered = call.stage.registered ∧
      stage.delivered = 0 ∧ call.stage.delivered = 0 ∧
      ∀ counter, stage.counter? = some counter → call.stage.counter? = some counter) ∨
    (call.stage = .registering ∧ after = { server.setStage index call .counting with
      publishers := if (server.publishers.lookup call.targetName).isSome then server.publishers
        else Assoc.insert server.publishers (call.targetName, call.args.endpointType) }) ∨
    (call.stage = .counting ∧ ∃ stage, stage.registered = true ∧ stage.delivered = 0 ∧
      (∀ counter, stage.counter? = some counter → counter = (server.counterFor (publisherMetricKey call.targetName)).2) ∧
      after = (server.counterFor (publisherMetricKey call.targetName)).1.setStage index call stage) ∨
    (∃ counter delivered reply hadFailures, call.stage = .sent counter delivered reply hadFailures ∧
      after = { server.setStage index call (.answered delivered (.ok (reply, hadFailures))) with
        values := Function.update server.values counter (server.values counter + delivered) }) := by
  unfold resumePublish at resumed
  split at resumed
  next opening =>
    split at resumed <;> obtain rfl := Option.some.inj resumed <;>
      exact .inl ⟨_, rfl, by rw [opening]; rfl, rfl, by rw [opening]; rfl, fun _ none => by cases none⟩
  next => cases resumed
  next registering => exact .inr (.inl ⟨registering, (Option.some.inj resumed).symm⟩)
  next counting =>
    refine .inr (.inr (.inl ⟨counting, ?_⟩))
    dsimp only at resumed
    split at resumed <;> obtain rfl := Option.some.inj resumed
    · refine ⟨_, ?_, ?_, fun counter same => ?_, rfl⟩
      · rfl
      · rfl
      · exact (Option.some.inj same).symm
    · refine ⟨_, ?_, ?_, fun counter same => ?_, rfl⟩
      · rfl
      · rfl
      · cases same
  next counter messages sending =>
    split at resumed <;> obtain rfl := Option.some.inj resumed
    · exact .inl ⟨_, rfl, by rw [sending]; rfl, rfl, by rw [sending]; rfl, fun _ same => by rw [sending]; exact same⟩
    · exact .inl ⟨_, rfl, by rw [sending]; rfl, rfl, by rw [sending]; rfl, fun _ none => by cases none⟩
  next counter messages sending =>
    split at resumed <;> obtain rfl := Option.some.inj resumed
    · exact .inl ⟨_, rfl, by rw [sending]; rfl, rfl, by rw [sending]; rfl, fun _ same => by rw [sending]; exact same⟩
    · exact .inl ⟨_, rfl, by rw [sending]; rfl, rfl, by rw [sending]; rfl, fun _ none => by cases none⟩
  next counter delivered reply hadFailures sent =>
    exact .inr (.inr (.inr ⟨counter, delivered, reply, hadFailures, sent, (Option.some.inj resumed).symm⟩))
  next => cases resumed

theorem counterFor_cases (server : PublishServer) (key : Text) :
    (∃ counter, server.counters.lookup key = some counter ∧ server.counterFor key = (server, counter)) ∨
    (server.counters.lookup key = none ∧ server.counterFor key =
      ({ server with
          counters := Assoc.insert server.counters (key, server.made)
          values := Function.update server.values server.made 0
          made := server.made + 1 }, server.made)) := by
  unfold counterFor
  split
  next counter found => exact .inl ⟨counter, found, rfl⟩
  next absent => exact .inr ⟨absent, rfl⟩

theorem calls_counterFor (server : PublishServer) (key : Text) : (server.counterFor key).1.calls = server.calls := by
  rcases counterFor_cases server key with ⟨_, _, same⟩ | ⟨_, same⟩ <;> rw [same]

theorem publishers_counterFor (server : PublishServer) (key : Text) :
    (server.counterFor key).1.publishers = server.publishers := by
  rcases counterFor_cases server key with ⟨_, _, same⟩ | ⟨_, same⟩ <;> rw [same]

/-! ### Accounts -/

def delivered (server : PublishServer) (name : Text) : Nat :=
  (server.calls.map fun call => if call.targetName = name then call.stage.delivered else 0).sum

structure Accounts (server : PublishServer) : Prop where
  injective : ∀ {key other counter}, server.counters.lookup key = some counter →
    server.counters.lookup other = some counter → key = other
  below : ∀ {key counter}, server.counters.lookup key = some counter → counter < server.made
  handledBelow : ∀ counter ∈ server.handled, counter < server.made
  /-- A route counts in no counter of a target. -/
  routes : ∀ counter ∈ server.routeCounters, counter < server.made ∧
    ∀ name, server.counters.lookup (publisherMetricKey name) ≠ some counter
  /-- A call counts in the counter of its target. -/
  calls : ∀ call ∈ server.calls, ∀ counter, call.stage.counter? = some counter →
    server.counters.lookup (publisherMetricKey call.targetName) = some counter
  targets : ∀ name, server.sequence (publisherMetricKey name) = server.delivered name
  others : ∀ counter, counter < server.made →
    (∀ name, server.counters.lookup (publisherMetricKey name) ≠ some counter) →
    server.values counter = server.handled.count counter

theorem publisherMetricKey_inj {name other : Text} (same : publisherMetricKey name = publisherMetricKey other) :
    name = other := List.append_cancel_left same

theorem sum_set {β : Type*} (f : β → Nat) {items : List β} {i : Nat} {old : β} (there : items[i]? = some old) (new : β) :
    ((items.set i new).map f).sum + f old = (items.map f).sum + f new := by
  induction items generalizing i with
  | nil => simp at there
  | cons item rest ih =>
    cases i with
    | zero =>
      obtain rfl := Option.some.inj there
      simp only [List.set_cons_zero, List.map_cons, List.sum_cons]
      omega
    | succ i =>
      have step := ih (i := i) (by simpa using there)
      simp only [List.set_cons_succ, List.map_cons, List.sum_cons]
      omega

theorem delivered_setStage (there : server.calls[index]? = some call) (stage : PublishStage) (name : Text) :
    (server.setStage index call stage).delivered name + (if call.targetName = name then call.stage.delivered else 0) =
      server.delivered name + (if call.targetName = name then stage.delivered else 0) :=
  sum_set (fun call : PublishCall => if call.targetName = name then call.stage.delivered else 0) there { call with stage }

theorem mem_setStage {stage : PublishStage} {other : PublishCall} (member : other ∈ (server.setStage index call stage).calls) :
    other ∈ server.calls ∨ other = { call with stage } := List.mem_or_eq_of_mem_set member

/-- A step that only moves a call on, to a stage without a new counter. -/
theorem accounts_setStage (accounts : server.Accounts) (there : server.calls[index]? = some call) {stage : PublishStage}
    (delivered : stage.delivered = call.stage.delivered)
    (counter : ∀ counter, stage.counter? = some counter →
      server.counters.lookup (publisherMetricKey call.targetName) = some counter) :
    (server.setStage index call stage).Accounts where
  injective := accounts.injective
  below := accounts.below
  handledBelow := accounts.handledBelow
  routes := accounts.routes
  calls other member counter' same := by
    rcases mem_setStage member with old | rfl
    · exact accounts.calls other old counter' same
    · exact counter counter' same
  targets name := by
    have moved := delivered_setStage there stage name
    rw [delivered] at moved
    exact (accounts.targets name).trans (Nat.add_right_cancel moved).symm
  others := accounts.others

theorem accounts_counterFor (accounts : server.Accounts) (key : Text) :
    (server.counterFor key).1.Accounts ∧ (server.counterFor key).1.calls = server.calls ∧
      (server.counterFor key).1.counters.lookup key = some (server.counterFor key).2 := by
  rcases counterFor_cases server key with ⟨counter, found, same⟩ | ⟨absent, same⟩
  · rw [same]
    exact ⟨accounts, rfl, found⟩
  · rw [same]
    have lookup : ∀ other, (Assoc.insert server.counters (key, server.made)).lookup other =
        if other = key then some server.made else server.counters.lookup other := by
      intro other
      by_cases hit : other = key
      · rw [if_pos hit, hit, Assoc.lookup_insert_self]
      · rw [if_neg hit, Assoc.lookup_insert_other hit]
    have untouched : ∀ counter, counter < server.made →
        Function.update server.values server.made 0 counter = server.values counter :=
      fun counter bound => Function.update_of_ne (Nat.ne_of_lt bound) ..
    have kept : ∀ {other counter}, (Assoc.insert server.counters (key, server.made)).lookup other = some counter →
        counter < server.made + 1 ∧ (counter = server.made → other = key) ∧
          (counter ≠ server.made → server.counters.lookup other = some counter) := by
      intro other counter found
      rw [lookup] at found
      split at found
      next hit =>
        obtain rfl := Option.some.inj found
        exact ⟨Nat.lt_succ_self _, fun _ => hit, fun differs => absurd rfl differs⟩
      next =>
        have bound := accounts.below found
        exact ⟨Nat.lt_succ_of_lt bound, fun same => absurd same (Nat.ne_of_lt bound), fun _ => found⟩
    refine ⟨?_, rfl, by rw [lookup, if_pos rfl]⟩
    refine ⟨fun {first second counter} one two => ?_, fun found => (kept found).1,
      fun counter member => Nat.lt_succ_of_lt (accounts.handledBelow counter member), fun counter member => ?_,
      fun call member counter same => ?_, fun name => ?_, fun counter bound apart => ?_⟩
    · by_cases new : counter = server.made
      · exact ((kept one).2.1 new).trans ((kept two).2.1 new).symm
      · exact accounts.injective ((kept one).2.2 new) ((kept two).2.2 new)
    · obtain ⟨bound, apart⟩ := accounts.routes counter member
      exact ⟨Nat.lt_succ_of_lt bound, fun name found => apart name ((kept found).2.2 (Nat.ne_of_lt bound))⟩
    · have old := accounts.calls call member counter same
      rw [lookup, if_neg fun hit => ?_]
      · exact old
      · rw [hit, absent] at old
        cases old
    · have before := accounts.targets name
      unfold sequence at before ⊢
      rw [lookup]
      split
      next hit =>
        rw [hit, absent] at before
        exact (Function.update_self ..).trans before
      next =>
        refine Eq.trans ?_ before
        cases found : server.counters.lookup (publisherMetricKey name) with
        | none => rfl
        | some counter => exact untouched counter (accounts.below found)
    · dsimp only at bound apart ⊢
      rcases Nat.lt_succ_iff_lt_or_eq.mp bound with old | rfl
      · rw [untouched counter old]
        refine accounts.others counter old fun name found => apart name ?_
        rw [lookup, if_neg fun hit => ?_]
        · exact found
        · rw [hit, absent] at found
          cases found
      · rw [Function.update_self]
        exact (List.count_eq_zero.mpr fun member => Nat.lt_irrefl _ (accounts.handledBelow _ member)).symm

/-- A route has no name that looks like the key of a target. -/
def RouteNamesApart (_ : PublishServer) : Action → Prop
  | .routeStarts name | .routeForgotten name => ¬("publisher:" : Text) <+: name
  | _ => True

instance (server : PublishServer) : (action : Action) → Decidable (RouteNamesApart server action)
  | .routeStarts name | .routeForgotten name => inferInstanceAs (Decidable ¬("publisher:" : Text) <+: name)
  | .publish _ | .resume _ _ | .routeHandles _ => inferInstanceAs (Decidable True)

theorem ne_publisherMetricKey {name : Text} (apart : ¬("publisher:" : Text) <+: name) (other : Text) :
    publisherMetricKey other ≠ name := fun same => apart ⟨other, same⟩

/-- A call counts what left, in the counter of its target. -/
theorem accounts_count (accounts : server.Accounts) (there : server.calls[index]? = some call) {counter delivered : Nat}
    {reply : Json} {hadFailures : Bool} (sent : call.stage = .sent counter delivered reply hadFailures) :
    ({ server.setStage index call (.answered delivered (.ok (reply, hadFailures))) with
      values := Function.update server.values counter (server.values counter + delivered) } : PublishServer).Accounts := by
  have own := accounts.calls call (List.mem_of_getElem? there) counter (by rw [sent]; rfl)
  refine ⟨accounts.injective, accounts.below, accounts.handledBelow, accounts.routes, fun other member counter' same => ?_,
    fun name => ?_, fun other bound apart => ?_⟩
  · rcases mem_setStage member with old | rfl
    · exact accounts.calls other old counter' same
    · cases same
  · have moved := delivered_setStage there (.answered delivered (.ok (reply, hadFailures))) name
    have before := accounts.targets name
    rw [show call.stage.delivered = 0 from by rw [sent]; rfl, ite_self, Nat.add_zero] at moved
    unfold sequence at before ⊢
    refine Eq.trans ?_ moved.symm
    by_cases hit : call.targetName = name
    · subst hit
      rw [own] at before
      dsimp only [setStage]
      rw [own, if_pos rfl, ← before]
      exact Function.update_self ..
    · rw [if_neg hit, Nat.add_zero, ← before]
      dsimp only [setStage]
      cases found : server.counters.lookup (publisherMetricKey name) with
      | none => rfl
      | some other =>
        have differs : other ≠ counter :=
          fun same => hit (publisherMetricKey_inj (accounts.injective own (same ▸ found)))
        exact Function.update_of_ne differs ..
  · have differs : other ≠ counter := fun same => apart call.targetName (same ▸ own)
    exact (Function.update_of_ne differs ..).trans (accounts.others other bound apart)

theorem accounts_resume (accounts : server.Accounts) (there : server.calls[index]? = some call)
    (resumed : server.resumePublish parseId index chance call = some after) : after.Accounts := by
  have calls := accounts.calls call (List.mem_of_getElem? there)
  rcases resume_cases resumed with ⟨stage, rfl, -, nothing, before, kept⟩ | ⟨registering, rfl⟩ |
    ⟨counting, stage, -, nothing, counter, rfl⟩ | ⟨counter, delivered, reply, hadFailures, sent, rfl⟩
  · exact accounts_setStage accounts there (nothing.trans before.symm) fun counter same => calls counter (kept counter same)
  · have moved : (server.setStage index call .counting).Accounts :=
      accounts_setStage accounts there (by rw [registering]; rfl) fun _ same => by cases same
    exact ⟨moved.injective, moved.below, moved.handledBelow, moved.routes, moved.calls, moved.targets, moved.others⟩
  · obtain ⟨made, same, found⟩ := accounts_counterFor accounts (publisherMetricKey call.targetName)
    refine accounts_setStage made (same ▸ there) (by rw [nothing, counting]; rfl) fun counter' new => ?_
    rw [counter counter' new]
    exact found
  · exact accounts_count accounts there sent

theorem accounts_step {action : Action} (accounts : server.Accounts) (apart : RouteNamesApart server action)
    (stepped : server.step parseId action = some after) : after.Accounts := by
  cases action with
  | publish args =>
    obtain rfl := Option.some.inj stepped
    refine ⟨accounts.injective, accounts.below, accounts.handledBelow, accounts.routes, fun call member counter same => ?_,
      fun name => ?_, accounts.others⟩
    · rcases List.mem_append.mp member with old | new
      · exact accounts.calls call old counter same
      · obtain rfl := List.mem_singleton.mp new
        cases same
    · refine (accounts.targets name).trans ?_
      simp [delivered, PublishStage.delivered]
  | resume index chance =>
    obtain ⟨call, there, resumed⟩ := Option.bind_eq_some_iff.mp stepped
    exact accounts_resume accounts there resumed
  | routeStarts name =>
    obtain rfl := Option.some.inj stepped
    obtain ⟨made, -, found⟩ := accounts_counterFor accounts name
    refine ⟨made.injective, made.below, made.handledBelow, fun counter member => ?_, made.calls, made.targets, made.others⟩
    rcases List.mem_cons.mp member with rfl | old
    · exact ⟨made.below found, fun other same => ne_publisherMetricKey apart other (made.injective same found)⟩
    · exact made.routes counter old
  | routeHandles counter =>
    rw [step] at stepped
    split at stepped
    next member =>
      obtain rfl := Option.some.inj stepped
      obtain ⟨bound, free⟩ := accounts.routes counter member
      refine ⟨accounts.injective, accounts.below, fun other there => ?_, accounts.routes, accounts.calls, fun name => ?_,
        fun other below others => ?_⟩
      · rcases List.mem_cons.mp there with rfl | old
        · exact bound
        · exact accounts.handledBelow other old
      · refine Eq.trans ?_ (accounts.targets name)
        unfold sequence
        cases found : server.counters.lookup (publisherMetricKey name) with
        | none => rfl
        | some target =>
          have differs : target ≠ counter := fun same => free name (same ▸ found)
          exact Function.update_of_ne differs ..
      · have before := accounts.others other below others
        dsimp only
        by_cases same : other = counter
        · subst same
          rw [Function.update_self, List.count_cons_self, before]
        · rw [Function.update_of_ne same, List.count_cons_of_ne (Ne.symm same), before]
    next => cases stepped
  | routeForgotten name =>
    obtain rfl := Option.some.inj stepped
    have kept : ∀ {key counter}, (Assoc.erase server.counters name).lookup key = some counter →
        server.counters.lookup key = some counter := by
      intro key counter found
      rw [Assoc.lookup_erase] at found
      split at found
      · cases found
      · exact found
    have target : ∀ other, (Assoc.erase server.counters name).lookup (publisherMetricKey other) =
        server.counters.lookup (publisherMetricKey other) :=
      fun other => Assoc.lookup_filter_ne (ne_publisherMetricKey apart other)
    refine ⟨fun one two => accounts.injective (kept one) (kept two), fun found => accounts.below (kept found),
      accounts.handledBelow, fun counter member => ?_, fun call member counter same => ?_, fun other => ?_,
      fun counter bound free => ?_⟩
    · exact ⟨(accounts.routes counter member).1, fun other found => (accounts.routes counter member).2 other (kept found)⟩
    · exact (target _).trans (accounts.calls call member counter same)
    · refine Eq.trans ?_ (accounts.targets other)
      unfold sequence
      dsimp only
      rw [target]
    · exact accounts.others counter bound fun other found => free other ((target other).trans found)

/-! ### What the calls are told -/

theorem asU64_countJson (n : Nat) : asU64 (countJson n) = some n := by
  have digits : (JsonNumber.ofNat n).text.all Char.isDigit = true :=
    List.all_eq_true.mpr fun c member => isDigit_of_mem_ofNat member
  exact (if_pos digits).trans (congrArg some Nat.ofDigitChars_ten_toDigits)

/-- A summary says what left: all but the failed messages. -/
theorem describeSentBatch_tells (sent : SentBatch) (count : Nat) :
    ∃ failed, (describeSentBatch sent count).1.get? "sent" = some (countJson (count - failed)) ∧
      deliveredOf (describeSentBatch sent count).1 count = count - failed ∧
      ((describeSentBatch sent count).2 = true ↔ 0 < failed) := by
  have told : ∀ {summary : Json} {n : Nat}, summary.get? "sent" = some (countJson n) → deliveredOf summary count = n := by
    intro summary n noted
    rw [deliveredOf, noted, Option.bind_some, asU64_countJson]
    rfl
  cases sent with
  | ack => exact ⟨0, rfl, told rfl, by simp [describeSentBatch]⟩
  | partially responses failed => exact ⟨failed.length, rfl, told rfl, by simp [describeSentBatch]⟩

theorem length_mapM {α β ε : Type} {read : α → Except ε β} {items : List α} {out : List β}
    (all : items.mapM read = .ok out) : out.length = items.length := by
  induction items generalizing out with
  | nil =>
    obtain rfl := Except.ok.inj all
    rfl
  | cons item rest ih =>
    rw [List.mapM_cons] at all
    obtain ⟨first, -, others⟩ := Fallible.bind_ok.mp all
    obtain ⟨tail, read, whole⟩ := Fallible.bind_ok.mp others
    obtain rfl := Except.ok.inj whole
    rw [List.length_cons, List.length_cons, ih read]

theorem checked_told {args : PublishArgs} {batch : Bool} {messages : List CanonicalMessage}
    (checked : args.checked parseId = .ok (batch, messages)) (counter : Nat) :
    PublishCall.Told ⟨args, .sending counter batch messages⟩ := by
  unfold PublishArgs.checked at checked
  unfold PublishCall.Told
  dsimp only
  split at checked
  next => cases checked
  next => cases checked
  next message single none_ =>
    obtain ⟨canonical, -, same⟩ := Fallible.map_ok.mp checked
    rw [none_]
    exact (congrArg Prod.fst same).symm
  next given none_ several =>
    split at checked
    next => cases checked
    next =>
      obtain ⟨canonical, all, same⟩ := Fallible.map_ok.mp checked
      obtain ⟨rfl, rfl⟩ := Prod.mk.inj same
      rw [several]
      exact ⟨rfl, length_mapM all⟩

/-- A call that is told what it did stays so. -/
theorem told_resume (there : server.calls[index]? = some call) (told : ∀ call ∈ server.calls, call.Told)
    (resumed : server.resumePublish parseId index chance call = some after) : ∀ call ∈ after.calls, call.Told := by
  have own := told call (List.mem_of_getElem? there)
  have moved : ∀ {stage : PublishStage} {calls : List PublishCall}, calls = server.calls →
      PublishCall.Told { call with stage } → ∀ other ∈ calls.set index { call with stage }, other.Told := by
    intro stage calls same new other member
    rcases List.mem_or_eq_of_mem_set member with old | rfl
    · exact told other (same ▸ old)
    · exact new
  have counted := calls_counterFor server (publisherMetricKey call.targetName)
  unfold resumePublish at resumed
  unfold PublishCall.Told at own
  split at resumed
  next => split at resumed <;> obtain rfl := Option.some.inj resumed <;> exact moved rfl trivial
  next => cases resumed
  next => obtain rfl := Option.some.inj resumed; exact moved rfl trivial
  next =>
    dsimp only at resumed
    split at resumed <;> obtain rfl := Option.some.inj resumed
    next batch messages checked => exact moved counted (checked_told checked _)
    next => exact moved counted rfl
  next counter messages sending =>
    rw [sending] at own
    split at resumed <;> obtain rfl := Option.some.inj resumed
    next sent _ =>
      refine moved rfl (show ReplyTells _ _ _ _ from ?_)
      dsimp only at own
      cases given : call.args.messages with
      | none => exact (replyTells_single given).mpr ⟨rfl, rfl⟩
      | some batch =>
        rw [given] at own
        cases own.1
    next => exact moved rfl rfl
  next counter messages sending =>
    rw [sending] at own
    split at resumed <;> obtain rfl := Option.some.inj resumed
    next sent _ =>
      have tells : ReplyTells call.args (deliveredOf (describeSentBatch sent messages.length).1 messages.length)
          (describeSentBatch sent messages.length).1 (describeSentBatch sent messages.length).2 := by
        dsimp only at own
        cases given : call.args.messages with
        | none =>
          rw [given] at own
          cases own
        | some batch =>
          rw [given] at own
          obtain ⟨failed, noted, left, flagged⟩ := describeSentBatch_tells sent messages.length
          rw [replyTells_batch given, left, ← own.2]
          exact ⟨noted, failed, rfl, flagged⟩
      exact moved rfl tells
    next => exact moved rfl rfl
  next counter delivered reply hadFailures sent =>
    rw [sent] at own
    obtain rfl := Option.some.inj resumed
    exact moved rfl own
  next => cases resumed

theorem told_step {action : Action} (told : ∀ call ∈ server.calls, call.Told)
    (stepped : server.step parseId action = some after) : ∀ call ∈ after.calls, call.Told := by
  cases action with
  | publish args =>
    obtain rfl := Option.some.inj stepped
    intro call member
    rcases List.mem_append.mp member with old | new
    · exact told call old
    · obtain rfl := List.mem_singleton.mp new
      trivial
  | resume index chance =>
    obtain ⟨call, there, resumed⟩ := Option.bind_eq_some_iff.mp stepped
    exact told_resume there told resumed
  | routeStarts name =>
    obtain rfl := Option.some.inj stepped
    exact fun call member => told call (calls_counterFor server name ▸ member)
  | routeHandles counter =>
    rw [step] at stepped
    split at stepped
    next => obtain rfl := Option.some.inj stepped; exact told
    next => cases stepped
  | routeForgotten name =>
    obtain rfl := Option.some.inj stepped
    exact told

/-! ### What is listed -/

/-- The targets that are listed are those of the registered calls, each with the type that such a call gave. -/
structure Listed (server : PublishServer) : Prop where
  distinct : (server.publishers.map Prod.fst).Nodup
  calls : ∀ call ∈ server.calls, call.stage.registered = true → (server.publishers.lookup call.targetName).isSome = true
  named : ∀ name endpointType, server.publishers.lookup name = some endpointType →
    ∃ call ∈ server.calls, call.stage.registered = true ∧ call.targetName = name ∧ call.args.endpointType = endpointType

/-- The calls stay, and so do the targets that are listed. -/
structure Grows (server after : PublishServer) : Prop where
  calls : ∀ call ∈ server.calls, ∃ later ∈ after.calls, later.args = call.args ∧
    (call.stage.registered = true → later.stage.registered = true)
  publishers : ∀ name endpointType, server.publishers.lookup name = some endpointType →
    after.publishers.lookup name = some endpointType

theorem grows_setStage (there : server.calls[index]? = some call) {stage : PublishStage} {changed : PublishServer}
    (calls : changed.calls = (server.setStage index call stage).calls)
    (registered : call.stage.registered = true → stage.registered = true)
    (publishers : ∀ name endpointType, server.publishers.lookup name = some endpointType →
      changed.publishers.lookup name = some endpointType) : server.Grows changed := by
  refine ⟨fun other member => ?_, publishers⟩
  rw [calls]
  obtain ⟨place, bound, same⟩ := List.getElem_of_mem member
  by_cases hit : index = place
  · subst hit
    have own : other = call := by
      rw [List.getElem?_eq_getElem bound, same] at there
      exact Option.some.inj there
    subst own
    exact ⟨{ other with stage }, List.mem_of_getElem? (List.getElem?_set_self bound), rfl, registered⟩
  · have kept : (server.calls.set index { call with stage })[place]? = some other :=
      (List.getElem?_set_ne hit).trans (List.getElem?_eq_some_iff.mpr ⟨bound, same⟩)
    exact ⟨other, List.mem_of_getElem? kept, rfl, id⟩

theorem grows_step {action : Action} (stepped : server.step parseId action = some after) : server.Grows after := by
  have still : ∀ {changed : PublishServer}, changed.calls = server.calls → changed.publishers = server.publishers →
      server.Grows changed := by
    intro changed calls publishers
    exact ⟨fun call member => ⟨call, calls ▸ member, rfl, id⟩, fun name endpointType found => publishers ▸ found⟩
  cases action with
  | publish args =>
    obtain rfl := Option.some.inj stepped
    exact ⟨fun call member => ⟨call, List.mem_append_left _ member, rfl, id⟩, fun _ _ found => found⟩
  | resume index chance =>
    obtain ⟨call, there, resumed⟩ := Option.bind_eq_some_iff.mp stepped
    rcases resume_cases resumed with ⟨stage, rfl, registered, -⟩ | ⟨registering, rfl⟩ |
      ⟨counting, stage, registered, -, -, rfl⟩ | ⟨counter, delivered, reply, hadFailures, sent, rfl⟩
    · exact grows_setStage there rfl registered.trans fun _ _ found => found
    · refine grows_setStage there rfl (fun _ => rfl) fun name endpointType found => ?_
      dsimp only
      split
      · exact found
      next absent =>
        refine (Assoc.lookup_insert_other (fun same => absent ?_) ..).trans found
        rw [← same, found]
        rfl
    · have calls := congrArg (List.set · index { call with stage }) (calls_counterFor server
        (publisherMetricKey call.targetName))
      refine grows_setStage there calls (fun _ => registered) fun name endpointType found => ?_
      · exact (congrArg (List.lookup name) (publishers_counterFor ..)).trans found
    · exact grows_setStage there rfl (fun _ => rfl) fun _ _ found => found
  | routeStarts name =>
    obtain rfl := Option.some.inj stepped
    exact still (calls_counterFor ..) (publishers_counterFor ..)
  | routeHandles counter =>
    rw [step] at stepped
    split at stepped
    next => obtain rfl := Option.some.inj stepped; exact still rfl rfl
    next => cases stepped
  | routeForgotten name =>
    obtain rfl := Option.some.inj stepped
    exact still rfl rfl

/-- A step lists the target of a call that registers, or it lists nothing and no call registers. -/
theorem listed_cases {action : Action} (stepped : server.step parseId action = some after) :
    (after.publishers = server.publishers ∧ ∀ call ∈ after.calls, call.stage.registered = true →
      ∃ before ∈ server.calls, before.targetName = call.targetName ∧ before.stage.registered = true) ∨
    ∃ call ∈ after.calls, call.stage.registered = true ∧ after.publishers =
      (if (server.publishers.lookup call.targetName).isSome then server.publishers
        else Assoc.insert server.publishers (call.targetName, call.args.endpointType)) ∧
      ∀ other ∈ after.calls, other.stage.registered = true → other = call ∨ other ∈ server.calls := by
  have moved : ∀ {index : Nat} {call : PublishCall} {stage : PublishStage}, server.calls[index]? = some call →
      (stage.registered = true → call.stage.registered = true) →
      ∀ other ∈ server.calls.set index { call with stage }, other.stage.registered = true →
        ∃ before ∈ server.calls, before.targetName = other.targetName ∧ before.stage.registered = true := by
    intro index call stage there registered other member flag
    rcases List.mem_or_eq_of_mem_set member with old | rfl
    · exact ⟨other, old, rfl, flag⟩
    · exact ⟨call, List.mem_of_getElem? there, rfl, registered flag⟩
  have still : ∀ call ∈ server.calls, call.stage.registered = true →
      ∃ before ∈ server.calls, before.targetName = call.targetName ∧ before.stage.registered = true :=
    fun call member flag => ⟨call, member, rfl, flag⟩
  cases action with
  | publish args =>
    obtain rfl := Option.some.inj stepped
    refine .inl ⟨rfl, fun call member flag => ?_⟩
    rcases List.mem_append.mp member with old | new
    · exact ⟨call, old, rfl, flag⟩
    · obtain rfl := List.mem_singleton.mp new
      cases flag
  | resume index chance =>
    obtain ⟨call, there, resumed⟩ := Option.bind_eq_some_iff.mp stepped
    rcases resume_cases resumed with ⟨stage, rfl, registered, -⟩ | ⟨registering, rfl⟩ |
      ⟨counting, stage, registered, -, -, rfl⟩ | ⟨counter, delivered, reply, hadFailures, sent, rfl⟩
    · exact .inl ⟨rfl, moved there registered.symm.trans⟩
    · obtain ⟨bound, -⟩ := List.getElem?_eq_some_iff.mp there
      exact .inr ⟨{ call with stage := .counting }, List.mem_of_getElem? (List.getElem?_set_self bound), rfl, rfl,
        fun other member _ => (mem_setStage member).symm⟩
    · refine .inl ⟨publishers_counterFor .., ?_⟩
      have same := calls_counterFor server (publisherMetricKey call.targetName)
      intro other member
      change other ∈ (server.counterFor (publisherMetricKey call.targetName)).1.calls.set index _ at member
      rw [same] at member
      exact moved there (fun _ => by rw [counting]; rfl) other member
    · exact .inl ⟨rfl, moved there fun _ => by rw [sent]; rfl⟩
  | routeStarts name =>
    obtain rfl := Option.some.inj stepped
    exact .inl ⟨publishers_counterFor .., fun call member => still call (calls_counterFor server name ▸ member)⟩
  | routeHandles counter =>
    rw [step] at stepped
    split at stepped
    next => obtain rfl := Option.some.inj stepped; exact .inl ⟨rfl, still⟩
    next => cases stepped
  | routeForgotten name =>
    obtain rfl := Option.some.inj stepped
    exact .inl ⟨rfl, still⟩

theorem listed_step {action : Action} (listed : server.Listed) (stepped : server.step parseId action = some after) :
    after.Listed := by
  have grows := grows_step stepped
  have stay : ∀ name endpointType, server.publishers.lookup name = some endpointType →
      ∃ call ∈ after.calls, call.stage.registered = true ∧ call.targetName = name ∧ call.args.endpointType = endpointType := by
    intro name endpointType found
    obtain ⟨call, member, registered, rfl, rfl⟩ := listed.named name endpointType found
    obtain ⟨later, there, same, flag⟩ := grows.calls call member
    exact ⟨later, there, flag registered, congrArg PublishArgs.targetName same, congrArg PublishArgs.endpointType same⟩
  have kept : ∀ call ∈ server.calls, call.stage.registered = true → (after.publishers.lookup call.targetName).isSome = true := by
    intro call member registered
    obtain ⟨endpointType, found⟩ := Option.isSome_iff_exists.mp (listed.calls call member registered)
    exact Option.isSome_iff_exists.mpr ⟨endpointType, grows.publishers _ _ found⟩
  rcases listed_cases stepped with ⟨same, before⟩ | ⟨call, there, registered, publishers, others⟩
  · refine ⟨same ▸ listed.distinct, fun call member flag => ?_, fun name endpointType found => ?_⟩
    · obtain ⟨old, old_mem, target, old_flag⟩ := before call member flag
      exact target ▸ kept old old_mem old_flag
    · exact stay name endpointType (same ▸ found)
  · refine ⟨?_, fun other member flag => ?_, fun name endpointType found => ?_⟩
    · rw [publishers]
      split
      · exact listed.distinct
      · exact Assoc.nodup_insert listed.distinct
    · rcases others other member flag with rfl | old
      · rw [publishers]
        split
        next known => exact known
        next =>
          rw [Assoc.lookup_insert_self]
          rfl
      · exact kept other old flag
    · by_cases known : (server.publishers.lookup call.targetName).isSome = true
      · rw [publishers, if_pos known] at found
        exact stay name endpointType found
      · rw [publishers, if_neg known] at found
        by_cases hit : name = call.targetName
        · rw [hit, Assoc.lookup_insert_self] at found
          exact ⟨call, there, registered, hit.symm, Option.some.inj found⟩
        · exact stay name endpointType ((Assoc.lookup_insert_other hit ..).symm.trans found)

/-! ### The report -/

structure PublisherRow where
  id : Text
  label : Text
  endpoint : Text
  running : Bool
  healthy : Bool
  messageSequence : Nat

def publisherRow (server : PublishServer) (target : Text × Text) : PublisherRow where
  id := target.1
  label := target.1
  endpoint := target.2
  running := true
  healthy := true
  messageSequence := server.sequence (publisherMetricKey target.1)

/-- The publishers of `status_snapshot`, sorted by id. -/
def statusPublishers (server : PublishServer) : List PublisherRow :=
  (server.publishers.map server.publisherRow).mergeSort fun left right => textLe left.id right.id

/-- What the status says of the targets: each is listed once, in order, with the type that a call for it gave, and with
as many messages as the answered calls for it were told that they sent. -/
structure Reports (server : PublishServer) : Prop where
  distinct : (server.statusPublishers.map PublisherRow.id).Nodup
  sorted : server.statusPublishers.Pairwise fun left right => textLe left.id right.id = true
  listed : ∀ name, (∃ row ∈ server.statusPublishers, row.id = name) ↔
    ∃ call ∈ server.calls, call.stage.registered = true ∧ call.targetName = name
  rows : ∀ row ∈ server.statusPublishers, row.messageSequence = server.delivered row.id ∧
    ∃ call ∈ server.calls, call.stage.registered = true ∧ call.targetName = row.id ∧ call.args.endpointType = row.endpoint

theorem mem_statusPublishers {row : PublisherRow} : row ∈ server.statusPublishers ↔
    ∃ target ∈ server.publishers, server.publisherRow target = row := List.mem_mergeSort.trans List.mem_map

theorem reports (accounts : server.Accounts) (listed : server.Listed) : server.Reports where
  distinct := by
    have perm := (List.mergeSort_perm (server.publishers.map server.publisherRow)
      fun left right => textLe left.id right.id).map PublisherRow.id
    refine perm.nodup_iff.mpr ?_
    rw [List.map_map]
    exact listed.distinct
  sorted := by
    refine List.pairwise_mergeSort (fun a b c ab bc => ?_) (fun a b => ?_) _
    · exact textLe_trans ab bc
    · exact textLe_total a.id b.id
  listed name := by
    constructor
    · rintro ⟨row, member, rfl⟩
      obtain ⟨target, there, rfl⟩ := mem_statusPublishers.mp member
      obtain ⟨call, call_mem, registered, same, -⟩ := listed.named _ _ (Assoc.lookup_of_mem listed.distinct there)
      exact ⟨call, call_mem, registered, same⟩
    · rintro ⟨call, member, registered, rfl⟩
      obtain ⟨endpointType, found⟩ := Option.isSome_iff_exists.mp (listed.calls call member registered)
      exact ⟨_, mem_statusPublishers.mpr ⟨_, Assoc.mem_of_lookup found, rfl⟩, rfl⟩
  rows row member := by
    obtain ⟨target, there, rfl⟩ := mem_statusPublishers.mp member
    exact ⟨accounts.targets _, listed.named _ _ (Assoc.lookup_of_mem listed.distinct there)⟩

theorem accounts_empty : Accounts {} where
  injective found := by cases found
  below found := by cases found
  handledBelow := List.forall_mem_nil _
  routes := List.forall_mem_nil _
  calls := List.forall_mem_nil _
  targets _ := rfl
  others _ bound := absurd bound (Nat.not_lt_zero _)

/-- In every run of publish calls, among routes whose names do not look like the keys of targets, the status lists the
targets of the calls with as many messages as the calls were told that they sent; each call is told what it did; a
target that is listed stays listed with its type; and what a route counts is what it handled. -/
theorem publishes_reported (parseId : Json → Except Text Text) (actions : List Action) (server : PublishServer)
    (careful : Steps.Careful (step parseId) RouteNamesApart {} actions)
    (played : Steps.play (step parseId) {} actions = some server) :
    server.Reports ∧ (∀ call ∈ server.calls, call.Told) ∧
      (∀ later after, Steps.play (step parseId) server later = some after → ∀ name endpointType,
        server.publishers.lookup name = some endpointType → after.publishers.lookup name = some endpointType) ∧
      ∀ name counter, ¬("publisher:" : Text) <+: name → server.counters.lookup name = some counter →
        server.sequence name = server.handled.count counter := by
  have accounts : server.Accounts := Steps.play_invariant
    (fun accounts apart stepped => accounts_step accounts apart stepped) accounts_empty careful played
  have none_listed : Listed {} := ⟨List.nodup_nil, List.forall_mem_nil _, fun _ _ found => by cases found⟩
  have listed : server.Listed := Steps.play_kept (fun listed stepped => listed_step listed stepped) none_listed played
  have told : ∀ call ∈ server.calls, call.Told :=
    Steps.play_kept (fun told stepped => told_step told stepped) (List.forall_mem_nil _) played
  refine ⟨reports accounts listed, told, fun later after replayed name endpointType found => ?_,
    fun name counter apart found => ?_⟩
  · exact @Steps.play_kept _ _ _ _ _ _ (fun server => server.publishers.lookup name = some endpointType)
      (fun found stepped => (grows_step stepped).publishers name endpointType found) found replayed
  · have free : ∀ target, server.counters.lookup (publisherMetricKey target) ≠ some counter :=
      fun target same => ne_publisherMetricKey apart target (accounts.injective same found)
    rw [sequence, found]
    exact accounts.others counter (accounts.below found) free

/-- Two calls for one target, and a route of the same name. -/
def twoPublishes : List Action :=
  [.routeStarts "kafka", .publish { endpointType := "kafka", message := some { payload := .str "a" } },
    .publish { endpointType := "kafka", messages := some [{ payload := .str "b" }, { payload := .str "c" }] },
    .resume 0 {}, .resume 1 {}, .resume 1 {}, .resume 0 {}, .resume 0 {}, .resume 1 {}, .routeHandles 0,
    .resume 1 { sentBatch := .ok (.partially none ["refused"]) }, .resume 0 {}, .resume 0 {}, .resume 1 {}]

theorem publishes_reported_two : ∃ server, Steps.play (step fun _ => .error []) {} twoPublishes = some server ∧
    server.Reports ∧ server.delivered "kafka" = 2 ∧ server.sequence "kafka" = 1 :=
  ⟨_, rfl, (publishes_reported (fun _ => .error []) twoPublishes _ (by decide) rfl).1, by decide, by decide⟩

end PublishServer

end MqBridge.Mcp
