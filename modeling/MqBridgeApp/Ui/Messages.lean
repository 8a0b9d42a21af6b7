import MqBridgeApp.Metrics.Capture
import MqBridgeApp.Ui.ConsumerKeys

/-!
# The messages of a consumer

The channels that consumers capture to belong to the process. The first access to a topic creates its channel
and decides how many messages it holds, whatever is asked for later.
-/

namespace MqBridge.Ui
open Text Config Metrics

structure CollectorContext where
  keepLast : Nat
  captureEnabled : Bool

structure MessageApp (M : Type) where
  app : UiApp
  channels : List (Text × Channel (CapturedMessage M)) := []
  /-- The context of the last route started under a key. -/
  contexts : List (Text × CollectorContext) := []
  /-- The messages captured under a key since they were last read. -/
  since : Text → List (CapturedMessage M) := fun _ => []

inductive MessageAction (M : Type) where
  | update (services : Services) (new : AppConfig)
  | start (services : Services) (lookup : Text)
  | startAll (services : Services)
  | stop (lookup : Text)
  | ended (key : Text)
  /-- The route under `key` handles a message. -/
  | handle (key : Text) (time : Nat) (message : M)
  | read (target : Option Text)

def uiCollectorTopic (key : Text) : Text := "ui_collector_" ++ key

/-- Messages by the source that they were captured under. -/
def pushBack {M : Type} (groups : List (Text × List (CapturedMessage M))) (captured : CapturedMessage M) :
    List (Text × List (CapturedMessage M)) :=
  Assoc.insert groups (captured.source, (groups.lookup captured.source).getD [] ++ [captured])

namespace MessageApp
variable {M : Type}

/-- The channel under a topic, which is created with `capacity` when there is none. -/
def getOrCreateChannel (state : MessageApp M) (topic : Text) (capacity : Nat) : Channel (CapturedMessage M) :=
  (state.channels.lookup topic).getD (.empty capacity)

def withCapacity (state : MessageApp M) (topic : Text) (capacity : Nat) : MessageApp M :=
  { state with channels := Assoc.insert state.channels (topic, state.getOrCreateChannel topic capacity) }

def startUiCollectorRoute (services : Services) (state : MessageApp M) (consumer : ConsumerConfig)
    (publishers : List PublisherClient) : MessageApp M :=
  if EndpointType.isNull consumer.endpoint.endpointType then state
  else
    let key := consumerRuntimeKey consumer
    if (state.app.handles.lookup key).any fun handle => !handle.ended then state
    else
      -- The channel is opened before anything that can fail.
      let opened := state.withCapacity (uiCollectorTopic key) (max consumer.messageCapture.keepLast 1)
      match collectorRoute services.typeName consumer publishers with
      | .error _ => opened
      | .ok route =>
        match services.runRoute route key with
        | .error _ => opened
        | .ok () =>
          { opened with
            app := { state.app with handles := Assoc.insert state.app.handles (key, ⟨route, false⟩) }
            contexts := Assoc.insert state.contexts
              (key, ⟨consumer.messageCapture.keepLast, consumer.messageCapture.enabled⟩) }

def startConsumer (services : Services) (state : MessageApp M) (lookup : Text) : MessageApp M :=
  match findByLookup state.app.config.consumers lookup with
  | none => state
  | some consumer => state.startUiCollectorRoute services consumer state.app.config.publishers

def startEach (services : Services) (publishers : List PublisherClient) :
    MessageApp M → List ConsumerConfig → MessageApp M
  | state, [] => state
  | state, consumer :: rest =>
    startEach services publishers (state.startUiCollectorRoute services consumer publishers) rest

def enabledConsumers (state : MessageApp M) : List ConsumerConfig :=
  state.app.config.consumers.filter fun consumer => consumer.enabled

def startConfiguredConsumers (services : Services) (state : MessageApp M) : MessageApp M :=
  startEach services state.app.config.publishers state state.enabledConsumers

def handleMessage (state : MessageApp M) (key : Text) (time : Nat) (message : M) : Option (MessageApp M) :=
  if (state.app.handles.lookup key).any fun handle => !handle.ended then
    (state.contexts.lookup key).bind fun context =>
      if context.captureEnabled then
        (state.channels.lookup (uiCollectorTopic key)).map fun channel =>
          { state with
            channels := Assoc.insert state.channels (uiCollectorTopic key, channel.sendLast ⟨key, time, message⟩)
            since := Function.update state.since key (state.since key ++ [⟨key, time, message⟩]) }
      else some state
  else none

section
variable (defaultCapacity : Nat)

/-- `GET /messages` with a consumer takes what is in the consumer's channel. -/
def getMessages (state : MessageApp M) : Option Text → MessageApp M × List (Text × List (CapturedMessage M))
  | none => (state, [])
  | some target =>
    let capture := getMessagesCapture state.app.config target
    let drained := (state.getOrCreateChannel capture.1
      ((capture.2.map fun keepLast => max keepLast 1).getD defaultCapacity)).drain
    ({ state with
        channels := Assoc.insert state.channels (capture.1, drained.2)
        since := Function.update state.since (stopKey state.app.config target) [] },
      drained.1.foldl pushBack [])

def act (state : MessageApp M) : MessageAction M → Option (MessageApp M)
  | .update services new => some { state with app := (updateConfig services state.app new).1 }
  | .start services lookup => some (state.startConsumer services lookup)
  | .startAll services => some (state.startConfiguredConsumers services)
  | .stop lookup => some { state with app := (stopConsumer state.app lookup).1 }
  | .ended key => some { state with app := endRoute state.app key }
  | .handle key time message => state.handleMessage key time message
  | .read target => some (state.getMessages defaultCapacity target).1

end

theorem startUiCollectorRoute_app (services : Services) (state : MessageApp M) (consumer : ConsumerConfig)
    (publishers : List PublisherClient) :
    (state.startUiCollectorRoute services consumer publishers).app =
      { state.app with
        handles := (Ui.startUiCollectorRoute services consumer publishers state.app.handles).1 } := by
  unfold startUiCollectorRoute Ui.startUiCollectorRoute
  dsimp only
  split
  · rfl
  split
  · rfl
  cases collectorRoute services.typeName consumer publishers with
  | error error => rfl
  | ok route =>
    dsimp only
    cases services.runRoute route (consumerRuntimeKey consumer) <;> rfl

theorem startConsumer_app (services : Services) (state : MessageApp M) (lookup : Text) :
    (state.startConsumer services lookup).app = (Ui.startConsumer services state.app lookup).1 := by
  unfold startConsumer Ui.startConsumer
  cases findByLookup state.app.config.consumers lookup with
  | none => rfl
  | some consumer => exact startUiCollectorRoute_app services state consumer state.app.config.publishers

def starts (services : Services) (state : MessageApp M) (consumer : ConsumerConfig)
    (publishers : List PublisherClient) : Bool :=
  !EndpointType.isNull consumer.endpoint.endpointType &&
    !((state.app.handles.lookup (consumerRuntimeKey consumer)).any fun handle => !handle.ended) &&
    match collectorRoute services.typeName consumer publishers with
    | .error _ => false
    | .ok route => (services.runRoute route (consumerRuntimeKey consumer)).isOk

/-- The consumer asks for one message at least, and its channel holds as many as it asks for if it is there. -/
def fits (state : MessageApp M) (consumer : ConsumerConfig) : Bool :=
  decide (0 < consumer.messageCapture.keepLast) &&
    (state.channels.lookup (uiCollectorTopic (consumerRuntimeKey consumer))).all
      fun channel => channel.capacity == consumer.messageCapture.keepLast

def startFits (services : Services) (state : MessageApp M) (consumer : ConsumerConfig)
    (publishers : List PublisherClient) : Bool :=
  !state.starts services consumer publishers || state.fits consumer

def startsFit (services : Services) (publishers : List PublisherClient) : MessageApp M → List ConsumerConfig → Bool
  | _, [] => true
  | state, consumer :: rest =>
    state.startFits services consumer publishers &&
      startsFit services publishers (state.startUiCollectorRoute services consumer publishers) rest

def Meets (state : MessageApp M) : MessageAction M → Prop
  | .start services lookup =>
    (findByLookup state.app.config.consumers lookup).all fun consumer =>
      state.startFits services consumer state.app.config.publishers
  | .startAll services => startsFit services state.app.config.publishers state state.enabledConsumers
  | _ => True

instance (state : MessageApp M) : DecidablePred state.Meets
  | .start _ _ | .startAll _ => inferInstanceAs (Decidable (_ = true))
  | .update _ _ | .stop _ | .ended _ | .handle _ _ _ | .read _ => inferInstanceAs (Decidable True)

/-! ### What the channels hold -/

/-- Every channel holds the last messages captured since they were read, as many as it has room for, and a
route has started only with room for as many as its consumer asks for. -/
structure Kept (state : MessageApp M) : Prop where
  buffered : ∀ key channel, state.channels.lookup (uiCollectorTopic key) = some channel →
    channel.items = (state.since key).rtake channel.capacity
  opened : ∀ key context, state.contexts.lookup key = some context →
    ∃ channel, state.channels.lookup (uiCollectorTopic key) = some channel ∧
      channel.capacity = context.keepLast ∧ 0 < context.keepLast
  unopened : ∀ key, state.contexts.lookup key = none → state.since key = []
  sources : ∀ key, ∀ captured ∈ state.since key, captured.source = key

variable {state : MessageApp M} {key other : Text} {services : Services} {consumer : ConsumerConfig}
  {publishers : List PublisherClient}

theorem uiCollectorTopic_beq : (uiCollectorTopic other == uiCollectorTopic key) = (other == key) := by
  rw [Bool.eq_iff_iff, beq_iff_eq, beq_iff_eq]
  constructor
  · exact List.append_cancel_left
  · exact congrArg uiCollectorTopic

theorem lookup_withCapacity (capacity : Nat) :
    (state.withCapacity (uiCollectorTopic key) capacity).channels.lookup (uiCollectorTopic other) =
      if other == key then some (state.getOrCreateChannel (uiCollectorTopic key) capacity)
      else state.channels.lookup (uiCollectorTopic other) := by
  unfold withCapacity
  rw [Assoc.lookup_insert, uiCollectorTopic_beq]

/-- A channel that is created holds what was captured under its key: nothing. -/
theorem Kept.created (kept : state.Kept) (capacity : Nat) :
    (state.getOrCreateChannel (uiCollectorTopic key) capacity).items =
      (state.since key).rtake (state.getOrCreateChannel (uiCollectorTopic key) capacity).capacity := by
  unfold getOrCreateChannel
  cases there : state.channels.lookup (uiCollectorTopic key) with
  | some channel => exact kept.buffered key channel there
  | none =>
    have never : state.contexts.lookup key = none := by
      cases context : state.contexts.lookup key with
      | none => rfl
      | some context' =>
        obtain ⟨channel, here, -⟩ := kept.opened key context' context
        rw [there] at here
        cases here
    rw [kept.unopened key never, List.rtake_nil]
    rfl

theorem Kept.withCapacity (kept : state.Kept) (key : Text) (capacity : Nat) :
    (state.withCapacity (uiCollectorTopic key) capacity).Kept := by
  refine ⟨?_, ?_, kept.unopened, kept.sources⟩
  · intro other channel found
    rw [lookup_withCapacity] at found
    split at found
    · next same =>
      obtain rfl := Option.some.inj found
      rw [eq_of_beq same]
      exact kept.created capacity
    · exact kept.buffered other channel found
  · intro other context started
    obtain ⟨channel, found, agrees⟩ := kept.opened other context started
    rw [lookup_withCapacity]
    split
    · next same =>
      refine ⟨_, rfl, ?_⟩
      rw [← eq_of_beq same, getOrCreateChannel, found]
      exact agrees
    · exact ⟨channel, found, agrees⟩

theorem Kept.startUiCollectorRoute (kept : state.Kept) (fit : state.startFits services consumer publishers = true) :
    (state.startUiCollectorRoute services consumer publishers).Kept := by
  have opened := kept.withCapacity (consumerRuntimeKey consumer) (max consumer.messageCapture.keepLast 1)
  unfold startFits starts at fit
  unfold MessageApp.startUiCollectorRoute
  split
  · exact kept
  next input =>
  dsimp only
  split
  · exact kept
  next free =>
  rw [Bool.eq_false_iff.mpr input, Bool.eq_false_iff.mpr free] at fit
  cases resolved : collectorRoute services.typeName consumer publishers with
  | error error => exact opened
  | ok route =>
    dsimp only
    rw [resolved] at fit
    dsimp only at fit
    cases ran : services.runRoute route (consumerRuntimeKey consumer) with
    | error error => exact opened
    | ok started =>
      rw [ran] at fit
      obtain ⟨positive, agrees⟩ := Bool.and_eq_true_iff.mp (show state.fits consumer = true from fit)
      have positive := of_decide_eq_true positive
      refine ⟨opened.buffered, ?_, ?_, opened.sources⟩
      · intro key context found
        dsimp only at found ⊢
        rw [Assoc.lookup_insert] at found
        split at found
        · next same =>
          obtain rfl := Option.some.inj found
          rw [lookup_withCapacity, if_pos same]
          refine ⟨_, rfl, ?_, positive⟩
          unfold getOrCreateChannel
          cases there : state.channels.lookup (uiCollectorTopic (consumerRuntimeKey consumer)) with
          | some channel =>
            rw [there] at agrees
            exact beq_iff_eq.mp agrees
          | none => exact Nat.max_eq_left positive
        · exact opened.opened key context found
      · intro key none
        dsimp only at none
        rw [Assoc.lookup_insert] at none
        split at none
        · cases none
        · exact kept.unopened key none

theorem Kept.startEach {consumers : List ConsumerConfig} (kept : state.Kept)
    (fit : startsFit services publishers state consumers = true) :
    (startEach services publishers state consumers).Kept := by
  induction consumers generalizing state with
  | nil => exact kept
  | cons consumer rest ih =>
    obtain ⟨first, others⟩ := Bool.and_eq_true_iff.mp fit
    exact ih (kept.startUiCollectorRoute first) others

theorem Kept.handleMessage {after : MessageApp M} {time : Nat} {message : M} (kept : state.Kept)
    (handled : state.handleMessage key time message = some after) : after.Kept := by
  unfold MessageApp.handleMessage at handled
  split at handled
  swap
  · cases handled
  obtain ⟨context, started, handled⟩ := Option.bind_eq_some_iff.mp handled
  split at handled
  swap
  · obtain rfl := Option.some.inj handled
    exact kept
  obtain ⟨channel, found, rfl⟩ := Option.map_eq_some_iff.mp handled
  obtain ⟨same, there, capacity, positive⟩ := kept.opened key context started
  obtain rfl := Option.some.inj (found.symm.trans there)
  constructor
  · intro other channel' found'
    dsimp only at found' ⊢
    rw [Assoc.lookup_insert, uiCollectorTopic_beq] at found'
    split at found'
    · next equal =>
      obtain rfl := Option.some.inj found'
      rw [eq_of_beq equal, Function.update_self, Channel.sendLast_capacity]
      apply Channel.sendLast_items
      · omega
      · exact kept.buffered key channel found
    · next different =>
      rw [Function.update_of_ne (fun equal => different (beq_iff_eq.mpr equal))]
      exact kept.buffered other channel' found'
  · intro other context' started'
    obtain ⟨channel', found', agrees⟩ := kept.opened other context' started'
    dsimp only
    rw [Assoc.lookup_insert, uiCollectorTopic_beq]
    split
    · next equal =>
      rw [eq_of_beq equal] at found'
      obtain rfl := Option.some.inj (found.symm.trans found')
      exact ⟨_, rfl, (Channel.sendLast_capacity _ _).trans agrees.1, agrees.2⟩
    · exact ⟨channel', found', agrees⟩
  · intro other never
    have different : other ≠ key := by
      rintro rfl
      rw [started] at never
      cases never
    dsimp only
    rw [Function.update_of_ne different]
    exact kept.unopened other never
  · intro other captured member
    dsimp only at member
    by_cases equal : other = key
    · subst equal
      rw [Function.update_self] at member
      rcases List.mem_append.mp member with before | new
      · exact kept.sources other captured before
      · rw [List.mem_singleton.mp new]
    · rw [Function.update_of_ne equal] at member
      exact kept.sources other captured member

theorem getMessagesCapture_topic (config : AppConfig) (target : Text) :
    (getMessagesCapture config target).1 = uiCollectorTopic (stopKey config target) := by
  unfold getMessagesCapture stopKey
  cases findByLookup config.consumers target <;> rfl

theorem Kept.getMessages (kept : state.Kept) (defaultCapacity : Nat) (target : Option Text) :
    (state.getMessages defaultCapacity target).1.Kept := by
  cases target with
  | none => exact kept
  | some target =>
    unfold MessageApp.getMessages
    dsimp only
    rw [getMessagesCapture_topic]
    generalize stopKey state.app.config target = key
    generalize ((getMessagesCapture state.app.config target).2.map fun keepLast => max keepLast 1).getD
      defaultCapacity = capacity
    have opened := kept.withCapacity key capacity
    constructor
    · intro other channel found
      dsimp only at found ⊢
      rw [Assoc.lookup_insert, uiCollectorTopic_beq] at found
      split at found
      · next same =>
        obtain rfl := Option.some.inj found
        rw [eq_of_beq same, Function.update_self, List.rtake_nil]
        rfl
      · next different =>
        rw [Function.update_of_ne (fun equal => different (beq_iff_eq.mpr equal))]
        exact kept.buffered other channel found
    · intro other context started
      obtain ⟨channel, found, agrees⟩ := opened.opened other context started
      rw [lookup_withCapacity] at found
      dsimp only
      rw [Assoc.lookup_insert, uiCollectorTopic_beq]
      split
      · next same =>
        rw [if_pos same] at found
        obtain rfl := Option.some.inj found
        exact ⟨_, rfl, agrees⟩
      · next different =>
        rw [if_neg different] at found
        exact ⟨channel, found, agrees⟩
    · intro other never
      dsimp only
      by_cases equal : other = key
      · rw [equal, Function.update_self]
      · rw [Function.update_of_ne equal]
        exact kept.unopened other never
    · intro other captured member
      dsimp only at member
      by_cases equal : other = key
      · rw [equal, Function.update_self] at member
        cases member
      · rw [Function.update_of_ne equal] at member
        exact kept.sources other captured member

theorem Kept.act {defaultCapacity : Nat} {action : MessageAction M} {after : MessageApp M} (kept : state.Kept)
    (meets : state.Meets action) (stepped : state.act defaultCapacity action = some after) : after.Kept := by
  cases action with
  | start services lookup =>
    obtain rfl := Option.some.inj stepped
    have meets : (findByLookup state.app.config.consumers lookup).all (fun consumer =>
        state.startFits services consumer state.app.config.publishers) = true := meets
    unfold startConsumer
    cases found : findByLookup state.app.config.consumers lookup with
    | none => exact kept
    | some consumer =>
      rw [found] at meets
      exact kept.startUiCollectorRoute meets
  | startAll services =>
    obtain rfl := Option.some.inj stepped
    exact kept.startEach meets
  | handle key time message => exact kept.handleMessage stepped
  | read target =>
    obtain rfl := Option.some.inj stepped
    exact kept.getMessages defaultCapacity target
  | update services new | stop lookup | ended key =>
    obtain rfl := Option.some.inj stepped
    exact ⟨kept.buffered, kept.opened, kept.unopened, kept.sources⟩

/-! ### Reads -/

/-- How many messages the route last started under a key is to keep. -/
def keepLast (state : MessageApp M) (key : Text) : Nat := ((state.contexts.lookup key).map (·.keepLast)).getD 0

def grouped (key : Text) (messages : List (CapturedMessage M)) : List (Text × List (CapturedMessage M)) :=
  if messages.isEmpty then [] else [(key, messages)]

theorem pushBack_grouped {captured : CapturedMessage M} (messages : List (CapturedMessage M)) :
    pushBack (grouped captured.source messages) captured = grouped captured.source (messages ++ [captured]) := by
  unfold pushBack grouped
  cases messages with
  | nil => rfl
  | cons first rest =>
    simp only [List.isEmpty_cons, List.cons_append, Bool.false_eq_true, if_false, Assoc.lookup_singleton,
      beq_self_eq_true, if_true, Option.getD_some, Assoc.insert, List.filter_cons, bne_self_eq_false,
      List.filter_nil, List.nil_append]

theorem foldl_pushBack {messages before : List (CapturedMessage M)}
    (sources : ∀ captured ∈ messages, captured.source = key) :
    messages.foldl pushBack (grouped key before) = grouped key (before ++ messages) := by
  induction messages generalizing before with
  | nil => rw [List.append_nil, List.foldl_nil]
  | cons captured rest ih =>
    obtain rfl := sources captured List.mem_cons_self
    rw [List.foldl_cons, pushBack_grouped, ih fun other member => sources other (List.mem_cons_of_mem _ member),
      List.append_assoc, List.singleton_append]

/-- The last `limit` of the messages, or all of them when there are fewer. -/
def lastOf (limit : Nat) (messages : List (CapturedMessage M)) : List (CapturedMessage M) :=
  messages.drop (messages.length - min messages.length limit)

theorem Kept.read (kept : state.Kept) (defaultCapacity : Nat) (target : Text) :
    let key := stopKey state.app.config target
    (state.getMessages defaultCapacity (some target)).2 =
      grouped key (lastOf (state.keepLast key) (state.since key)) := by
  intro key
  have sources : ∀ n, ∀ captured ∈ (state.since key).rtake n, captured.source = key := by
    intro n captured member
    apply kept.sources key
    exact List.mem_of_mem_drop member
  unfold MessageApp.getMessages
  dsimp only
  rw [getMessagesCapture_topic]
  unfold Channel.drain
  dsimp only
  rw [kept.created]
  unfold MessageApp.keepLast
  cases started : state.contexts.lookup key with
  | none =>
    have empty := kept.unopened key started
    rw [show state.since (stopKey state.app.config target) = [] from empty, List.rtake_nil]
    rfl
  | some context =>
    obtain ⟨channel, found, capacity, -⟩ := kept.opened key context started
    unfold getOrCreateChannel
    rw [show state.channels.lookup (uiCollectorTopic (stopKey state.app.config target)) = some channel from found,
      Option.getD_some, capacity, Option.map_some, Option.getD_some]
    have same : (state.since key).rtake context.keepLast = lastOf context.keepLast (state.since key) := by
      unfold lastOf List.rtake
      congr 1
      omega
    rw [← same]
    exact @foldl_pushBack M key _ [] (sources context.keepLast)

def initial (config : AppConfig) (file : Option Text) (storageSecurity : Json) : MessageApp M where
  app := { config, handles := [], file, storageSecurity }

theorem kept_initial (config : AppConfig) (file : Option Text) (storageSecurity : Json) :
    (initial config file storageSecurity : MessageApp M).Kept :=
  ⟨nofun, nofun, fun _ _ => rfl, fun _ _ member => (nomatch member)⟩

/-- After a run in which every route that started found the channel as it asks for it, a read takes the last
messages captured since the one before, as many as the running route is to keep. -/
theorem last_read (defaultCapacity : Nat) (config : AppConfig) (file : Option Text) (storageSecurity : Json)
    (actions : List (MessageAction M)) (after : MessageApp M)
    (careful : Steps.Careful (act defaultCapacity) Meets (initial config file storageSecurity) actions)
    (played : Steps.play (act defaultCapacity) (initial config file storageSecurity) actions = some after)
    (target : Text) :
    (after.getMessages defaultCapacity (some target)).2 =
      grouped (stopKey after.app.config target)
        (lastOf (after.keepLast (stopKey after.app.config target))
          (after.since (stopKey after.app.config target))) := by
  have kept : after.Kept :=
    Steps.play_invariant Kept.act (kept_initial config file storageSecurity) careful played
  exact kept.read defaultCapacity target

def cappedConfig (keepLast : Nat) : AppConfig :=
  { forwardingConfig "audit" with consumers := [{ forwardingConsumer with messageCapture := { keepLast } }] }

def captureThree : List (MessageAction Nat) := [.handle "c1" 10 0, .handle "c1" 11 1, .handle "c1" 12 2]

def readFirst : List (MessageAction Nat) :=
  [.read (some "c1"), .start workingServices "c1", .handle "c1" 9 7, .ended "c1", .startAll workingServices] ++ captureThree

theorem last_read_first : ∃ after, Steps.play (act 100) (initial (cappedConfig 2) none .null) readFirst = some after ∧
    after.since "c1" = [⟨"c1", 9, 7⟩, ⟨"c1", 10, 0⟩, ⟨"c1", 11, 1⟩, ⟨"c1", 12, 2⟩] ∧
    (after.getMessages 100 (some "c1")).2 = grouped "c1" [⟨"c1", 11, 1⟩, ⟨"c1", 12, 2⟩] := by
  have careful : Steps.Careful (act 100) Meets (initial (cappedConfig 2) none .null) readFirst := by decide
  refine ⟨_, rfl, rfl, ?_⟩
  exact (last_read 100 (cappedConfig 2) none .null readFirst _ careful rfl "c1").trans rfl

def withoutConsumers : AppConfig := { forwardingConfig "audit" with consumers := [] }

def readUnknown : List (MessageAction Nat) :=
  [.read (some "c1"), .update workingServices (cappedConfig 2), .start workingServices "c1"] ++ captureThree

theorem unknown_read_sets_capacity :
    ∃ after, Steps.play (act 100) (initial withoutConsumers none .null) readUnknown = some after ∧
      after.keepLast "c1" = 2 ∧ (after.getMessages 100 (some "c1")).2 ≠
        grouped "c1" (lastOf (after.keepLast "c1") (after.since "c1")) := by
  refine ⟨_, rfl, rfl, ?_⟩
  decide

def raisedKeepLast : List (MessageAction Nat) :=
  [.start workingServices "c1", .update workingServices (cappedConfig 2), .start workingServices "c1"] ++ captureThree

theorem raised_keep_last_ignored :
    ∃ after, Steps.play (act 100) (initial (cappedConfig 1) none .null) raisedKeepLast = some after ∧
      after.keepLast "c1" = 2 ∧ (after.getMessages 100 (some "c1")).2 = grouped "c1" [⟨"c1", 12, 2⟩] :=
  ⟨_, rfl, rfl, rfl⟩

end MessageApp

end MqBridge.Ui
