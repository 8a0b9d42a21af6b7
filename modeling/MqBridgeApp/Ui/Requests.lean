import MqBridgeApp.Ui.Messages
import MqBridgeApp.Ui.PublisherLookup
import MqBridgeApp.Ui.Recovery

/-!
# Requests to the UI server

A guard in front of the dispatcher refuses some requests of other origins. What the requests behind it
do to the application is stated handler by handler.
-/

namespace MqBridge.Ui
open Text Config Metrics

structure UiMessage where
  metadata : List (Text × Text)
  payload : Text := []

/-- The dispatcher relies on Unicode case mapping, on the decoding of forms, and on what the body says. -/
structure HttpServices (M : Type) extends Services where
  toUppercase : Text → Text
  toLowercase : Text → Text
  formPairs : Text → List (Text × Text)
  readConfig : Text → Except Text AppConfig
  readPublishRequest : Text → Except Text PublishRequest
  /-- What a message sent to an endpoint leaves in the channels, and the error where it fails. -/
  send : Endpoint → Text → List (Text × Channel (CapturedMessage M)) →
    List (Text × Channel (CapturedMessage M)) × Except Text Unit
  configRecoveryReset : Option (AppConfig → Except Text Unit)
  defaultCapacity : Nat
  serveStaticAssets : Bool

def headerValue (message : UiMessage) (key : Text) : Option Text :=
  (message.metadata.lookup key).or (message.metadata.lookup (toAsciiLowercase key))

def extractAuthority (value : Text) : Option Text :=
  let trimmed := trim value
  if trimmed.isEmpty then none
  else
    let afterScheme := ((splitAtText "://" trimmed).map Prod.snd).getD trimmed
    let authority := trim (afterScheme.takeWhile fun c => c ∉ ['/', '?', '#'])
    if authority.isEmpty then none else some authority

/-- Whether a header that is there names the host. -/
def namesHost (host : Text) : Option Text → Bool
  | none => true
  | some header =>
    match extractAuthority header with
    | none => false
    | some authority => toAsciiLowercase authority == toAsciiLowercase host

def isSameOriginRequest (message : UiMessage) : Bool :=
  match (headerValue message "Host").bind extractAuthority with
  | none => true
  | some host => namesHost host (headerValue message "Origin") && namesHost host (headerValue message "Referer")

section
variable {M : Type} (services : HttpServices M) (message : UiMessage)

def requestMethod : Text := services.toUppercase ((message.metadata.lookup ("http_method" : Text)).getD "GET")

/-- The path without what follows a `#`. -/
def requestPath : Text :=
  services.toLowercase (((message.metadata.lookup ("http_path" : Text)).getD "/").takeWhile fun c => c != '#')

def queryParam (key : Text) : Option Text := do
  let query ← message.metadata.lookup ("http_query" : Text)
  let raw ← (query.splitOn '&').findSome? (stripPrefix (key ++ "="))
  (services.formPairs (key ++ "=" ++ raw)).lookup key

def queriedConsumer : Option Text :=
  (queryParam services message "consumer_id").or (queryParam services message "consumer")

def guardedPaths : List Text := ["/config", "/config-recovery/reset", "/publish", "/consumer-start", "/consumer-stop"]

def requestPeerIsLoopback : Bool := message.metadata.lookup ("mqb_peer_loopback" : Text) == some "true"

end

/-! ### Handlers -/

structure UiState (M : Type) where
  messages : MessageApp M
  recovery : Option ConfigRecoveryStatusResponse

inductive UiResponse (M : Type) where
  | text (status : Nat) (body : Text)
  | error (status : Nat) (message : Text)
  /-- What the application shows of itself under a path. -/
  | shown (path : Text)
  | messages (groups : List (Text × List (CapturedMessage M)))

namespace UiState
variable {M : Type}

def app (state : UiState M) : UiApp := state.messages.app

def withMessages (state : UiState M) (messages : MessageApp M) : UiState M := { state with messages }

def captured (state : UiState M) (topic : Text) : List (CapturedMessage M) :=
  ((state.messages.channels.lookup topic).map Channel.items).getD []

section
variable (services : HttpServices M) (state : UiState M)

def handleStartConsumer (key : Text) : UiState M × UiResponse M :=
  (state.withMessages (state.messages.startConsumer services.toServices key),
    match (startConsumer services.toServices state.app key).2 with
    | .ok true => .text 200 "Started"
    | .ok false => .error 404 ("Consumer not found: " ++ key)
    | .error error => .error 500 error)

def handleStopConsumer (key : Text) : UiState M × UiResponse M :=
  (state.withMessages { state.messages with app := (stopConsumer state.app key).1 }, .text 200 "Stopped")

def handleMessages (target : Option Text) : UiState M × UiResponse M :=
  let (messages, groups) := state.messages.getMessages services.defaultCapacity target
  (state.withMessages messages, .messages groups)

def handleUpdateConfigMessage (payload : Text) : UiState M × UiResponse M :=
  match services.readConfig payload with
  | .error error => (state, .text 400 ("Json deserialize error: " ++ error))
  | .ok new =>
    let updated := updateConfig services.toServices state.app new
    (state.withMessages { state.messages with app := updated.1 },
      match updated.2 with
      | .ok () => .text 200 "Configuration updated"
      | .error (.other error) => .text 500 (UpdateConfigError.other error).message
      | .error error => .text 400 error.message)

def handlePublishMessage (payload : Text) : UiState M × UiResponse M :=
  match services.readPublishRequest payload with
  | .error error => (state, .text 400 ("Json deserialize error: " ++ error))
  | .ok request =>
    let name := (request.publisherId.filter fun id => !(trim id).isEmpty).getD request.name
    match publishEndpoint state.app.config.publishers request with
    | none => (state, .error 404 ("Publisher not found: " ++ name))
    | some endpoint =>
      let sent := services.send endpoint payload state.messages.channels
      (state.withMessages { state.messages with channels := sent.1 },
        match sent.2 with
        | .ok () => .shown "/publish"
        | .error error => .error 500 error)

def handleResetConfigRecovery : UiState M × UiResponse M :=
  match services.configRecoveryReset with
  | none => (state, .error 404 "Config recovery reset is not available")
  | some resetHook =>
    if state.recovery.isNone then (state, .error 409 "No config recovery action is pending")
    else
      match resetHook state.app.config with
      | .error error => (state, .text 500 ("Internal Server Error: " ++ error))
      | .ok () => ({ state with recovery := none }, .shown "/config-recovery/reset")

def handlePost (message : UiMessage) (path : Text) : UiState M × UiResponse M :=
  if path = "/consumer-start" then state.handleStartConsumer services ((queriedConsumer services message).getD [])
  else if path = "/consumer-stop" then state.handleStopConsumer ((queriedConsumer services message).getD [])
  else if path = "/config" then state.handleUpdateConfigMessage services message.payload
  else if path = "/config-recovery/reset" then state.handleResetConfigRecovery services
  else if path = "/publish" then state.handlePublishMessage services message.payload
  else (state, .text 404 "Not Found")

/-- What is shown without a handler of its own. -/
def shownPaths : List Text :=
  ["/schema.json", "/config", "/config-recovery", "/storage-security", "/features", "/runtime-status", "/metrics"]

def handleGet (message : UiMessage) (path : Text) : UiState M × UiResponse M :=
  if path = "/health" then (state, .text 200 "OK")
  else if path ∈ shownPaths then (state, .shown path)
  else if path = "/consumer-status" then
    let key := (queriedConsumer services message).getD []
    if (consumerStatus state.app key).isSome then (state, .shown path)
    else (state, .error 404 ("Consumer not found: " ++ key))
  else if path = "/messages" then state.handleMessages services (queriedConsumer services message)
  else if path = "/peer-status" then
    if requestPeerIsLoopback message then (state, .shown path)
    else (state, .error 403 "Peer status is available only to loopback clients")
  else if services.serveStaticAssets then (state, .shown path)
  else (state, .text 404 "Not Found")

def handleUiMessage (message : UiMessage) : UiState M × UiResponse M :=
  let method := requestMethod services message
  let path := requestPath services message
  if method = "POST" ∧ path ∈ guardedPaths ∧ isSameOriginRequest message = false then
    (state, .text 403 "Forbidden")
  else if method = "GET" then state.handleGet services message path
  else if method = "POST" then state.handlePost services message path
  else (state, .text 404 "Not Found")

end

/-! ### What a request may change -/

/-- Configuration, handles, recovery status and the contents of every channel are the same. -/
structure Same (before after : UiState M) : Prop where
  config : after.app.config = before.app.config
  handles : after.app.handles = before.app.handles
  recovery : after.recovery = before.recovery
  captured : ∀ topic, after.captured topic = before.captured topic

/-- The update is refused, or it stops no route and is not saved or is the configuration that is there. -/
def UpdateIdle (services : HttpServices M) (state : UiState M) (new : AppConfig) : Prop :=
  ∀ plan, planUpdate services.toServices new = .ok plan →
    (∀ handle ∈ state.app.handles, shouldStop state.app.config.consumers plan.consumers handle.1 = false) ∧
      ((commitUpdate services.toServices plan state.app.file).2 = .ok () → plan.final = state.app.config)

def PostIdle (services : HttpServices M) (state : UiState M) (message : UiMessage) (path : Text) : Prop :=
  let key := (queriedConsumer services message).getD []
  if path = "/consumer-start" then
    ∀ consumer, findByLookup state.app.config.consumers key = some consumer →
      state.messages.starts services.toServices consumer state.app.config.publishers = false
  else if path = "/consumer-stop" then state.app.handles.lookup (stopKey state.app.config key) = none
  else if path = "/config" then
    ∀ new, services.readConfig message.payload = .ok new → state.UpdateIdle services new
  else if path = "/config-recovery/reset" then
    ∀ resetHook, services.configRecoveryReset = some resetHook →
      state.recovery = none ∨ resetHook state.app.config ≠ .ok ()
  else if path = "/publish" then
    ∀ request endpoint, services.readPublishRequest message.payload = .ok request →
      publishEndpoint state.app.config.publishers request = some endpoint →
        ∀ topic, ((((services.send endpoint message.payload state.messages.channels).1.lookup topic).map
          Channel.items).getD []) = state.captured topic
  else True

/-- Nothing is there to be read from a buffer, and a request that the guard lets through without a host finds
nothing to change. -/
def Harmless (services : HttpServices M) (state : UiState M) (message : UiMessage) : Prop :=
  (requestMethod services message = "GET" → requestPath services message = "/messages" →
    ∀ key ∈ queriedConsumer services message, state.captured (getMessagesCapture state.app.config key).1 = []) ∧
  (requestMethod services message = "POST" → (headerValue message "Host").bind extractAuthority = none →
    state.PostIdle services message (requestPath services message))

theorem same_refl (state : UiState M) : state.Same state := ⟨rfl, rfl, rfl, fun _ => rfl⟩

section
variable {services : HttpServices M} {state : UiState M} {message : UiMessage}

theorem captured_insert (channels : List (Text × Channel (CapturedMessage M))) (key topic : Text)
    (channel : Channel (CapturedMessage M)) :
    (((Assoc.insert channels (key, channel)).lookup topic).map Channel.items).getD [] =
      if topic == key then channel.items else ((channels.lookup topic).map Channel.items).getD [] := by
  rw [Assoc.lookup_insert]
  split <;> rfl

theorem captured_withCapacity (messages : MessageApp M) (opened topic : Text) (capacity : Nat) :
    (((messages.withCapacity opened capacity).channels.lookup topic).map Channel.items).getD [] =
      ((messages.channels.lookup topic).map Channel.items).getD [] := by
  unfold MessageApp.withCapacity MessageApp.getOrCreateChannel
  rw [captured_insert]
  split
  · rename_i same
    rw [eq_of_beq same]
    cases messages.channels.lookup opened <;> rfl
  · rfl

theorem captured_startUiCollectorRoute (messages : MessageApp M) (consumer : ConsumerConfig)
    (publishers : List PublisherClient) (topic : Text) :
    (((messages.startUiCollectorRoute services.toServices consumer publishers).channels.lookup topic).map
        Channel.items).getD [] =
      ((messages.channels.lookup topic).map Channel.items).getD [] := by
  unfold MessageApp.startUiCollectorRoute
  split
  · rfl
  dsimp only
  split
  · rfl
  cases collectorRoute services.typeName consumer publishers with
  | error error => exact captured_withCapacity ..
  | ok route =>
    dsimp only
    cases services.runRoute route (consumerRuntimeKey consumer) with
    | error error => exact captured_withCapacity ..
    | ok started => exact captured_withCapacity ..

theorem startUiCollectorRoute_handles (messages : MessageApp M) (consumer : ConsumerConfig)
    (publishers : List PublisherClient) :
    (messages.startUiCollectorRoute services.toServices consumer publishers).app.handles = messages.app.handles ↔
      messages.starts services.toServices consumer publishers = false := by
  unfold MessageApp.startUiCollectorRoute MessageApp.starts
  split
  · simp [*]
  dsimp only
  split
  · simp [*]
  rename_i input free
  cases collectorRoute services.typeName consumer publishers with
  | error error => simp [MessageApp.withCapacity]
  | ok route =>
    dsimp only
    cases ran : services.runRoute route (consumerRuntimeKey consumer) with
    | error error => simp [MessageApp.withCapacity, Except.isOk, Except.toBool]
    | ok started =>
      have changed : Assoc.insert messages.app.handles (consumerRuntimeKey consumer, ⟨route, false⟩) ≠
          messages.app.handles := by
        intro same
        apply free
        rw [← same, Assoc.lookup_insert_self]
        rfl
      simp [changed, input, free, Except.isOk, Except.toBool]

theorem same_start (key : Text) :
    state.Same (state.handleStartConsumer services key).1 ↔
      ∀ consumer, findByLookup state.app.config.consumers key = some consumer →
        state.messages.starts services.toServices consumer state.app.config.publishers = false := by
  have config : (state.messages.startConsumer services.toServices key).app.config = state.app.config := by
    rw [MessageApp.startConsumer_app]
    unfold startConsumer
    split <;> rfl
  cases found : findByLookup state.app.config.consumers key with
  | none =>
    refine iff_of_true ?_ nofun
    have idle : state.messages.startConsumer services.toServices key = state.messages := by
      unfold MessageApp.startConsumer
      rw [show findByLookup state.messages.app.config.consumers key = none from found]
    unfold handleStartConsumer
    rw [idle]
    exact same_refl state
  | some consumer =>
    have routed : state.messages.startConsumer services.toServices key =
        state.messages.startUiCollectorRoute services.toServices consumer state.app.config.publishers := by
      unfold MessageApp.startConsumer
      rw [show findByLookup state.messages.app.config.consumers key = some consumer from found]
      rfl
    simp only [Option.some.injEq, forall_eq']
    rw [← startUiCollectorRoute_handles]
    unfold handleStartConsumer
    rw [routed] at config ⊢
    constructor
    · intro same
      exact same.handles
    · intro handles
      exact ⟨config, handles, rfl, captured_startUiCollectorRoute _ _ _⟩

theorem same_stop (key : Text) :
    state.Same (state.handleStopConsumer key).1 ↔
      state.app.handles.lookup (stopKey state.app.config key) = none := by
  rw [Assoc.lookup_eq_none]
  have handles : (state.handleStopConsumer key).1.app.handles =
      state.app.handles.filter fun handle => handle.1 != stopKey state.app.config key := rfl
  constructor
  · intro same value member
    have kept := same.handles
    rw [handles, List.filter_eq_self] at kept
    simpa using kept _ member
  · intro absent
    refine ⟨rfl, ?_, rfl, fun _ => rfl⟩
    rw [handles, List.filter_eq_self]
    rintro ⟨name, handle⟩ member
    apply bne_iff_ne.mpr
    rintro rfl
    exact absent handle member

theorem stopStale_eq_iff {old new : List ConsumerConfig} {handles : List (Text × RouteHandle)} :
    stopStale old new handles = handles ↔ ∀ handle ∈ handles, shouldStop old new handle.1 = false := by
  unfold stopStale
  rw [List.filter_eq_self]
  simp

theorem updateConfig_same (new : AppConfig) :
    ((updateConfig services.toServices state.app new).1.config = state.app.config ∧
      (updateConfig services.toServices state.app new).1.handles = state.app.handles) ↔
        state.UpdateIdle services new := by
  unfold updateConfig UpdateIdle
  cases planned : planUpdate services.toServices new with
  | error error => simp
  | ok plan =>
    simp only [Except.ok.injEq, forall_eq']
    rw [← stopStale_eq_iff]
    cases committed : commitUpdate services.toServices plan state.app.file with
    | mk file result =>
      cases result with
      | error error => simp
      | ok done =>
        simp only [forall_const]
        exact and_comm

theorem same_update (payload : Text) :
    state.Same (state.handleUpdateConfigMessage services payload).1 ↔
      ∀ new, services.readConfig payload = .ok new → state.UpdateIdle services new := by
  unfold handleUpdateConfigMessage
  cases services.readConfig payload with
  | error error => exact iff_of_true (same_refl state) nofun
  | ok new =>
    simp only [Except.ok.injEq, forall_eq']
    rw [← updateConfig_same]
    constructor
    · intro same
      exact ⟨same.config, same.handles⟩
    · rintro ⟨config, handles⟩
      exact ⟨config, handles, rfl, fun _ => rfl⟩

theorem same_reset :
    state.Same (state.handleResetConfigRecovery services).1 ↔
      ∀ resetHook, services.configRecoveryReset = some resetHook →
        state.recovery = none ∨ resetHook state.app.config ≠ .ok () := by
  unfold handleResetConfigRecovery
  cases hook : services.configRecoveryReset with
  | none => exact iff_of_true (same_refl state) nofun
  | some resetHook =>
    simp only [Option.some.injEq, forall_eq']
    cases pending : state.recovery with
    | none => exact iff_of_true (same_refl state) (.inl rfl)
    | some status =>
      cases ran : resetHook state.app.config with
      | error error => exact iff_of_true (same_refl state) (.inr nofun)
      | ok done =>
        refine iff_of_false ?_ (by simp)
        intro same
        have cleared := same.recovery
        rw [pending] at cleared
        cases cleared

theorem same_publish (payload : Text) :
    state.Same (state.handlePublishMessage services payload).1 ↔
      ∀ request endpoint, services.readPublishRequest payload = .ok request →
        publishEndpoint state.app.config.publishers request = some endpoint →
          ∀ topic, ((((services.send endpoint payload state.messages.channels).1.lookup topic).map
            Channel.items).getD []) = state.captured topic := by
  unfold handlePublishMessage
  cases services.readPublishRequest payload with
  | error error => exact iff_of_true (same_refl state) nofun
  | ok request =>
    dsimp only
    cases found : publishEndpoint state.app.config.publishers request with
    | none =>
      refine iff_of_true (same_refl state) ?_
      rintro other endpoint same there
      cases same
      rw [found] at there
      cases there
    | some endpoint =>
      constructor
      · rintro same other target ⟨⟩ there
        obtain rfl := Option.some.inj (found.symm.trans there)
        exact same.captured
      · intro kept
        exact ⟨rfl, rfl, rfl, kept request endpoint rfl found⟩

theorem captured_messages (key topic : Text) :
    (state.handleMessages services (some key)).1.captured topic =
      if topic == (getMessagesCapture state.app.config key).1 then [] else state.captured topic :=
  captured_insert ..

theorem same_messages (target : Option Text) :
    state.Same (state.handleMessages services target).1 ↔
      ∀ key ∈ target, state.captured (getMessagesCapture state.app.config key).1 = [] := by
  cases target with
  | none => exact iff_of_true (same_refl state) nofun
  | some key =>
    simp only [Option.mem_def, Option.some.injEq, forall_eq']
    constructor
    · intro same
      rw [← same.captured, captured_messages, if_pos (beq_self_eq_true _)]
    · intro empty
      refine ⟨rfl, rfl, rfl, fun topic => ?_⟩
      rw [captured_messages]
      split
      · rename_i drained
        rw [eq_of_beq drained, empty]
      · rfl

theorem same_post (path : Text) :
    state.Same (state.handlePost services message path).1 ↔ state.PostIdle services message path := by
  unfold handlePost PostIdle
  dsimp only
  split_ifs
  · exact same_start _
  · exact same_stop _
  · exact same_update _
  · exact same_reset
  · exact same_publish _
  · exact iff_of_true (same_refl state) trivial

theorem postIdle_unguarded {path : Text} (unguarded : path ∉ guardedPaths) :
    state.PostIdle services message path := by
  simp only [guardedPaths, List.mem_cons, List.not_mem_nil, or_false, not_or] at unguarded
  obtain ⟨config, reset, publish, start, stop⟩ := unguarded
  simp [PostIdle, config, reset, publish, start, stop]

/-- Of what is read, only the messages are taken away. -/
theorem same_get (path : Text) :
    state.Same (state.handleGet services message path).1 ↔
      (path = "/messages" → ∀ key ∈ queriedConsumer services message,
        state.captured (getMessagesCapture state.app.config key).1 = []) := by
  by_cases messages : path = "/messages"
  · subst messages
    rw [← @same_messages _ services]
    exact ⟨fun same _ => same, fun same => same rfl⟩
  · refine iff_of_true ?_ fun here => absurd here messages
    have unchanged : (state.handleGet services message path).1 = state := by
      unfold handleGet
      dsimp only
      split_ifs <;> rfl
    rw [unchanged]
    exact same_refl state

end

end UiState

/-! ### The guard -/

/-- The request names a host, and its origin or its referer has another authority. -/
def UiMessage.Foreign (message : UiMessage) : Prop :=
  ∃ host, headerValue message "Host" = some host ∧
    ∃ name ∈ (["Origin", "Referer"] : List Text), ∃ header, headerValue message name = some header ∧
      (extractAuthority header).map toAsciiLowercase ≠ (extractAuthority host).map toAsciiLowercase

theorem namesHost_of_differs {host header : Text}
    (differs : (extractAuthority header).map toAsciiLowercase ≠ some (toAsciiLowercase host)) :
    namesHost host (some header) = false := by
  simp only [namesHost]
  cases read : extractAuthority header with
  | none => rfl
  | some authority => simpa [read] using differs

theorem foreign_passes_iff {message : UiMessage} (foreign : message.Foreign) :
    isSameOriginRequest message = true ↔ (headerValue message "Host").bind extractAuthority = none := by
  obtain ⟨given, named, name, member, header, found, differs⟩ := foreign
  unfold isSameOriginRequest
  rw [named, Option.bind_some]
  cases read : extractAuthority given with
  | none => simp
  | some host =>
    rw [read] at differs
    have other := namesHost_of_differs differs
    rcases List.mem_pair.mp member with rfl | rfl
    · simp [found, other]
    · simp [found, other]

namespace UiState
variable {M : Type}

/-- A request of another origin leaves the application as it is exactly when it takes no messages, and, where
the host it names is blank, finds nothing to change. -/
theorem foreign_same_iff (services : HttpServices M) (state : UiState M) (message : UiMessage)
    (foreign : message.Foreign) :
    state.Same (state.handleUiMessage services message).1 ↔ state.Harmless services message := by
  have passes := foreign_passes_iff foreign
  simp only [handleUiMessage, Harmless]
  split
  · rename_i refused
    obtain ⟨post, -, other⟩ := refused
    refine iff_of_true (same_refl state) ⟨fun get => ?_, fun _ blank => ?_⟩
    · rw [post] at get
      exact absurd get (by decide)
    · rw [passes.mpr blank] at other
      cases other
  rename_i served
  split
  · rename_i get
    rw [same_get]
    refine ⟨fun same => ⟨fun _ => same, fun post => ?_⟩, fun harmless => harmless.1 get⟩
    rw [get] at post
    exact absurd post (by decide)
  rename_i notGet
  split
  · rename_i post
    rw [same_post]
    refine ⟨fun idle => ⟨fun get => absurd get notGet, fun _ _ => idle⟩, fun harmless => ?_⟩
    by_cases blank : (headerValue message "Host").bind extractAuthority = none
    · exact harmless.2 post blank
    · apply postIdle_unguarded
      intro guarded
      exact served ⟨post, guarded, Bool.eq_false_iff.mpr fun passed => blank (passes.mp passed)⟩
  · rename_i notPost
    exact iff_of_true (same_refl state) ⟨fun get => absurd get notGet, fun post => absurd post notPost⟩

def plainHttp : HttpServices Nat where
  toServices := workingServices
  toUppercase := toAsciiUppercase
  toLowercase := toAsciiLowercase
  formPairs form := [(splitOnce '=' form).getD (form, [])]
  readConfig _ := .error "expected value"
  readPublishRequest _ := .error "expected value"
  send _ _ channels := (channels, .ok ())
  configRecoveryReset := none
  defaultCapacity := 100
  serveStaticAssets := true

def capturing : UiState Nat where
  messages :=
    { MessageApp.initial (MessageApp.cappedConfig 2) none .null with
      channels := [("ui_collector_c1", ⟨2, [⟨"c1", 9, 7⟩], by decide⟩)] }
  recovery := none

def fromElsewhere (method path query : Text) : UiMessage where
  metadata := [("http_method", method), ("http_path", path), ("http_query", query), ("Host", "127.0.0.1:9091"),
    ("Origin", "http://evil.example")]

theorem foreign_fromElsewhere (method path query : Text) : (fromElsewhere method path query).Foreign :=
  ⟨"127.0.0.1:9091", rfl, "Origin", List.mem_cons_self, "http://evil.example", rfl, by decide⟩

theorem foreign_same_iff_stop :
    capturing.Same (capturing.handleUiMessage plainHttp (fromElsewhere "POST" "/consumer-stop" "consumer=c1")).1 ↔
      capturing.Harmless plainHttp (fromElsewhere "POST" "/consumer-stop" "consumer=c1") :=
  foreign_same_iff plainHttp capturing (fromElsewhere "POST" "/consumer-stop" "consumer=c1")
    (foreign_fromElsewhere "POST" "/consumer-stop" "consumer=c1")

/-- A page of another origin empties the buffer of a consumer. -/
theorem foreign_read_drains :
    ¬ ∀ (services : HttpServices Nat) (state : UiState Nat) (message : UiMessage), message.Foreign →
      state.Same (state.handleUiMessage services message).1 := by
  intro same
  have kept := (same plainHttp capturing (fromElsewhere "GET" "/messages" "consumer_id=c1")
    (foreign_fromElsewhere "GET" "/messages" "consumer_id=c1")).captured "ui_collector_c1"
  revert kept
  decide

end UiState

end MqBridge.Ui
