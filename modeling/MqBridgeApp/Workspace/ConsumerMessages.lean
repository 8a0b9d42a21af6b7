import MqBridgeApp.Lib.Lists
import MqBridgeApp.Lib.Steps
import MqBridgeApp.Workspace.Entities

/-!
# The messages the browser keeps of a consumer

A poll fetches what was captured since the last one, puts it before the messages that are kept, and
keeps the first of all of them.
-/

namespace MqBridge.Workspace
open Text

structure ConsumerMessage where
  id : Option Text := none
  payload : Json
  metadata : Option (List (Text × Text)) := none
  time : Text
  response : Option Json := none
  responseMetadata : Option (List (Text × Text)) := none

/-- What polling relies on: `JSON.parse`, and `sanitizeConsumerName`, which decomposes characters. -/
structure PollServices where
  parse : Text → Option Json
  sanitizeConsumerName : Text → Text

section
variable (services : PollServices)

def parseStructuredValue : Json → Json
  | .str raw =>
    match jsTrim raw with
    | [] => .str raw
    | c :: rest => if c ∈ ['{', '[', '"'] then (services.parse (c :: rest)).getD (.str raw) else .str raw
  | raw => raw

def normalizeStringMap : Option Json → Option (List (Text × Text))
  | some (.obj entries) =>
    if entries.isEmpty then none else some (entries.map fun entry => (entry.1, nullishText (some entry.2)))
  | _ => none

/-- A row of the server as a message. A row without the fields of one is a payload. -/
def normalizeConsumerMessage (raw : Json) (fallbackTime : Text) : ConsumerMessage :=
  let has := fun key : Text => (raw.get? key).isSome
  if has "payload" || has "id" || has "time" || has "response" then
    { id := (Json.present (raw.get? "id")).map Json.toText
      payload := (raw.get? "payload").elim raw (parseStructuredValue services)
      metadata := normalizeStringMap (raw.get? "metadata")
      time := match raw.get? "time" with
        | some (.str time) => time
        | _ => fallbackTime
      response := (raw.get? "response").map (parseStructuredValue services)
      responseMetadata := normalizeStringMap (raw.get? "response_metadata") }
  else { payload := raw, time := fallbackTime }

structure CapturingConsumer where
  id : Text
  name : Text
  enabled : Option Bool := none
  keepLast : Option Nat := none
deriving DecidableEq

/-- Whether messages of the consumer are captured, and how many are kept, of which there is one at least. -/
def CapturingConsumer.capture (consumer : CapturingConsumer) : Bool × Nat :=
  (consumer.enabled.getD true, (consumer.keepLast.map (max 1)).getD 100)

def getRuntimeKey (consumer : CapturingConsumer) : Text :=
  orText consumer.id (orText (services.sanitizeConsumerName consumer.name) "consumer")

def getStorageKey (consumer : CapturingConsumer) : Text := orText consumer.id consumer.name

def getConsumerLookupKeys (consumer : CapturingConsumer) : List Text :=
  (([getRuntimeKey services consumer, getStorageKey consumer, consumer.name].map jsTrim).filter fun key =>
    !key.isEmpty).eraseDups

structure RuntimeConsumer where
  running : Bool
  outcome : Option Text
  messageSequence : Nat

inductive FetchReply where
  /-- The fetch is rejected, which ends the pass. -/
  | rejected
  | failed
  /-- The groups of messages, and the time at each of their rows. -/
  | messages (payload : Json) (now : Nat → Text)

structure Turn where
  consumer : CapturingConsumer
  runtime : Option RuntimeConsumer
  reply : FetchReply

structure MessageLog where
  messagesByConsumer : List (Text × List ConsumerMessage) := []
  lastMessageSequence : List (Text × Nat) := []
  finalPoll : List (Text × Text) := []
  /-- All messages that were fetched under a storage key, the last one last. -/
  fetched : List (Text × List ConsumerMessage) := []

namespace MessageLog

def consumerMessagesFor (log : MessageLog) (consumer : CapturingConsumer) : List ConsumerMessage :=
  ((log.messagesByConsumer.lookup (getStorageKey consumer)).or (log.messagesByConsumer.lookup consumer.name)).getD []

def fetchedFor (log : MessageLog) (consumer : CapturingConsumer) : List ConsumerMessage :=
  (log.fetched.lookup (getStorageKey consumer)).getD []

def terminalKey (runtime : RuntimeConsumer) : Text := runtime.outcome.getD "null" ++ ':' :: ofNat runtime.messageSequence

/-- The route ended: it is polled once for its outcome and sequence. -/
def isTerminal (runtime : RuntimeConsumer) : Bool := !runtime.running && runtime.outcome.any fun outcome => !outcome.isEmpty

/-- The status that a fetch goes by, if there is one. -/
def fetches (log : MessageLog) (turn : Turn) : Option RuntimeConsumer :=
  turn.runtime.filter fun runtime =>
    let key := getRuntimeKey services turn.consumer
    (runtime.running || isTerminal runtime) && turn.consumer.capture.1 &&
      !(isTerminal runtime && log.finalPoll.lookup key == some (terminalKey runtime)) &&
      !(!isTerminal runtime && decide (runtime.messageSequence ≤ (log.lastMessageSequence.lookup key).getD 0) &&
        !(log.consumerMessagesFor turn.consumer).isEmpty)

/-- The messages of the first group under a key of the consumer. -/
def batchOf (consumer : CapturingConsumer) (payload : Json) (now : Nat → Text) : List ConsumerMessage :=
  let rows := ((getConsumerLookupKeys services consumer).findSome? fun key =>
    match payload.get? key with
    | some (.arr rows) => some rows
    | _ => none).getD []
  rows.mapIdx fun index row => normalizeConsumerMessage services row (now index)

/-- The messages that a turn fetches, with the status it goes by. -/
def batch (log : MessageLog) (turn : Turn) : Option (RuntimeConsumer × List ConsumerMessage) :=
  (log.fetches services turn).bind fun runtime =>
    match turn.reply with
    | .messages payload now => some (runtime, batchOf services turn.consumer payload now)
    | _ => none

def poll (log : MessageLog) (turn : Turn) : MessageLog :=
  match log.batch services turn with
  | none => log
  | some (runtime, rows) =>
    let consumer := turn.consumer
    let runtimeKey := getRuntimeKey services consumer
    let merged := rows ++ log.consumerMessagesFor consumer
    { messagesByConsumer :=
        Assoc.insert log.messagesByConsumer (getStorageKey consumer, merged.take consumer.capture.2)
      lastMessageSequence := Assoc.insert log.lastMessageSequence (runtimeKey, runtime.messageSequence)
      finalPoll :=
        if isTerminal runtime then Assoc.insert log.finalPoll (runtimeKey, terminalKey runtime) else log.finalPoll
      fetched := Assoc.insert log.fetched (getStorageKey consumer, log.fetchedFor consumer ++ rows) }

/-- A pass over the consumers, which a rejected fetch ends. -/
def fetchNewMessagesForRunningConsumers : MessageLog → List Turn → MessageLog
  | log, [] => log
  | log, turn :: rest =>
    match log.fetches services turn, turn.reply with
    | some _, .rejected => log
    | _, _ => fetchNewMessagesForRunningConsumers (log.poll services turn) rest

theorem fetchNewMessages_eq (log : MessageLog) (turns : List Turn) :
    ∃ taken, taken <+: turns ∧
      log.fetchNewMessagesForRunningConsumers services turns = taken.foldl (fun log turn => log.poll services turn) log := by
  induction turns generalizing log with
  | nil => exact ⟨[], List.prefix_refl _, rfl⟩
  | cons turn rest ih =>
    rw [fetchNewMessagesForRunningConsumers]
    split
    · exact ⟨[], List.nil_prefix, rfl⟩
    · obtain ⟨taken, front, same⟩ := ih (log.poll services turn)
      exact ⟨turn :: taken, List.cons_prefix_cons.mpr ⟨rfl, front⟩, same⟩

/-- The messages that are kept are the last ones of all that were fetched, the last one first. -/
def Recent (log : MessageLog) (consumer : CapturingConsumer) : Prop :=
  log.consumerMessagesFor consumer = (log.fetchedFor consumer).reverse.take consumer.capture.2

/-- The messages that a turn fetches are the same forwards and backwards, as far as they are kept. -/
def ReadsBothWays (log : MessageLog) (turn : Turn) : Prop :=
  ∀ fetched ∈ log.batch services turn, fetched.2.take turn.consumer.capture.2 = fetched.2.reverse.take turn.consumer.capture.2

end MessageLog

/-- Consumers with storage keys of their own, which are no other consumer's name either. -/
structure Consumers where
  all : List CapturingConsumer
  keys : ∀ a ∈ all, ∀ b ∈ all, getStorageKey a = getStorageKey b → a = b
  names : ∀ a ∈ all, ∀ b ∈ all, a.name = getStorageKey b → a = b

abbrev Consumers.Turn (consumers : Consumers) : Type := { turn : Workspace.Turn // turn.consumer ∈ consumers.all }

def Consumers.step (consumers : Consumers) (log : MessageLog) (turn : consumers.Turn) : Option MessageLog :=
  some (log.poll services turn.1)

theorem take_append_take {α : Type*} (front back : List α) (n : Nat) :
    (front ++ back.take n).take n = (front ++ back).take n := by
  rw [List.take_append, List.take_append, List.take_take, Nat.min_eq_left (Nat.sub_le _ _)]

theorem take_append_inj {α : Type*} {front front' : List α} (back : List α) {n : Nat} (same : front.length = front'.length) :
    (front ++ back).take n = (front' ++ back).take n ↔ front.take n = front'.take n := by
  rw [List.take_append, List.take_append, same, List.append_left_inj]

variable {services} {log : MessageLog}

theorem recent_poll_iff {turn : Turn} {fetched : RuntimeConsumer × List ConsumerMessage}
    (batch : log.batch services turn = some fetched) (recent : log.Recent turn.consumer) :
    (log.poll services turn).Recent turn.consumer ↔
      fetched.2.take turn.consumer.capture.2 = fetched.2.reverse.take turn.consumer.capture.2 := by
  have kept : (log.poll services turn).consumerMessagesFor turn.consumer =
      (fetched.2 ++ log.consumerMessagesFor turn.consumer).take turn.consumer.capture.2 := by
    simp only [MessageLog.consumerMessagesFor, MessageLog.poll, batch, Assoc.lookup_insert_self, Option.some_or,
      Option.getD_some]
  have all : (log.poll services turn).fetchedFor turn.consumer = log.fetchedFor turn.consumer ++ fetched.2 := by
    simp only [MessageLog.fetchedFor, MessageLog.poll, batch, Assoc.lookup_insert_self, Option.getD_some]
  rw [MessageLog.Recent, kept, all, recent, List.reverse_append, take_append_take, take_append_inj]
  rw [List.length_reverse]

theorem recent_poll_other {turn : Turn} {consumer : CapturingConsumer}
    (key : getStorageKey consumer ≠ getStorageKey turn.consumer) (name : consumer.name ≠ getStorageKey turn.consumer) :
    (log.poll services turn).Recent consumer ↔ log.Recent consumer := by
  rw [MessageLog.Recent, MessageLog.poll]
  split
  · rfl
  · simp only [MessageLog.Recent, MessageLog.consumerMessagesFor, MessageLog.fetchedFor,
      Assoc.lookup_insert_other key, Assoc.lookup_insert_other name]

/-- The lists of all consumers are recent after every turn exactly when every batch reads both ways. -/
theorem recent_iff (services : PollServices) (consumers : Consumers) (turns : List consumers.Turn) :
    Steps.Always (consumers.step services) (fun log => ∀ consumer ∈ consumers.all, log.Recent consumer) {} turns ↔
      Steps.Careful (consumers.step services) (fun log turn => log.ReadsBothWays services turn.1) {} turns := by
  apply Steps.always_iff
  · intro log turn next recent stepped
    obtain rfl := Option.some.inj stepped
    have own := recent turn.1.consumer turn.2
    cases batch : log.batch services turn.1 with
    | none =>
      have same : log.poll services turn.1 = log := by rw [MessageLog.poll, batch]
      rw [same]
      exact iff_of_true recent (by simp [MessageLog.ReadsBothWays, batch])
    | some fetched =>
      have others : (∀ consumer ∈ consumers.all, (log.poll services turn.1).Recent consumer) ↔
          (log.poll services turn.1).Recent turn.1.consumer := by
        refine ⟨fun all => all _ turn.2, fun here consumer member => ?_⟩
        by_cases same : consumer = turn.1.consumer
        · rw [same]
          exact here
        · have key := fun equal => same (consumers.keys consumer member _ turn.2 equal)
          have name := fun equal => same (consumers.names consumer member _ turn.2 equal)
          rw [recent_poll_other key name]
          exact recent consumer member
      rw [others, recent_poll_iff batch own]
      simp [MessageLog.ReadsBothWays, batch]
  · intro log turn stuck
    cases stuck
  · intro consumer _
    simp [MessageLog.Recent, MessageLog.consumerMessagesFor, MessageLog.fetchedFor]

def plainPollServices : PollServices where
  parse _ := none
  sanitizeConsumerName name := name

def twoConsumers : Consumers where
  all := [{ id := "c1", name := "orders", keepLast := some 2 }]
  keys := by decide
  names := by decide

def twoMessages : twoConsumers.Turn :=
  ⟨{ consumer := { id := "c1", name := "orders", keepLast := some 2 }
     runtime := some { running := true, outcome := none, messageSequence := 2 }
     reply := .messages (.obj [("c1", .arr [.str "first", .str "second"])]) fun _ => "now" }, List.mem_singleton_self _⟩

/-- The message that was captured first comes first. -/
theorem twoMessages_not_recent :
    ¬Steps.Always (twoConsumers.step plainPollServices) (fun log => ∀ consumer ∈ twoConsumers.all, log.Recent consumer) {}
      [twoMessages] := by
  rw [recent_iff]
  intro careful
  have same := congrArg (List.map ConsumerMessage.payload) (careful.1 _ rfl)
  revert same
  decide

end

end MqBridge.Workspace
