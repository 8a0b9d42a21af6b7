import MqBridgeApp.Config.ConsumerValue
import MqBridgeApp.Ui.App
import Mathlib.Logic.Relation

/-!
# Running routes and the configuration

A running route is in step with the configuration when it is the route its consumer would be started
with. An update keeps a route when its consumer has the same value before and after, and does not look
at the publisher the consumer refers to.
-/

namespace MqBridge.Ui
open Text Config

structure SameRoute (a b : Route) : Prop where
  input : SameEndpoint a.input b.input
  output : SameEndpoint a.output b.output
  options : SameOptions a.options b.options

theorem SameRoute.refl (route : Route) : SameRoute route route :=
  ⟨Json.Agree.refl _, Json.Agree.refl _, Json.Agree.refl _⟩

/-- The route that runs under `key` is the one its consumer would be started with. -/
def RunsConfigured (config : AppConfig) (key : Text) (running : Route) : Prop :=
  ∃ consumer route, findByKey config.consumers key = some consumer ∧
    (∀ typeName, collectorRoute typeName consumer config.publishers = .ok route) ∧ SameRoute running route

def HandlesInSync (config : AppConfig) (handles : List (Text × RouteHandle)) : Prop :=
  ∀ handle ∈ handles, handle.2.ended = false → RunsConfigured config handle.1 handle.2.route

def InSync (app : UiApp) : Prop := HandlesInSync app.config app.handles

/-- The names of endpoint types are only used in errors. -/
theorem collectorRoute_any {typeName typeName' : EndpointType → Text} {consumer : ConsumerConfig}
    {publishers : List PublisherClient} {route : Route} (started : collectorRoute typeName consumer publishers = .ok route) :
    collectorRoute typeName' consumer publishers = .ok route := by
  unfold collectorRoute resolveConsumerOutput at started ⊢
  cases given : consumer.output with
  | none =>
    rw [given] at started
    exact started
  | publisher name id =>
    rw [given] at started
    exact started
  | response answer =>
    rw [given] at started
    dsimp only at started ⊢
    split at started
    · next supported => rw [if_pos supported]; exact started
    · cases started

theorem updateConfig_ok {services : Services} {app after : UiApp} {new : AppConfig}
    (updated : updateConfig services app new = (after, .ok ())) :
    ∃ plan, planUpdate services new = .ok plan ∧ after.config = plan.final ∧
      after.handles = stopStale app.config.consumers plan.consumers app.handles ∧
      commitUpdate services plan app.file = (after.file, .ok ()) := by
  unfold updateConfig at updated
  cases planned : planUpdate services new with
  | error reason => simp [planned] at updated
  | ok plan =>
    simp only [planned] at updated
    split at updated
    · simp at updated
    · next committed =>
      obtain ⟨rfl, -⟩ := Prod.mk.inj updated
      exact ⟨plan, rfl, rfl, rfl, committed⟩

theorem updateConfig_error {services : Services} {app after : UiApp} {new : AppConfig} {error : UpdateConfigError}
    (failed : updateConfig services app new = (after, .error error)) :
    after.config = app.config ∧ ∀ handle ∈ after.handles, handle ∈ app.handles := by
  unfold updateConfig at failed
  split at failed
  · obtain ⟨rfl, -⟩ := Prod.mk.inj failed
    exact ⟨rfl, fun _ member => member⟩
  · dsimp only at failed
    split at failed
    · obtain ⟨rfl, -⟩ := Prod.mk.inj failed
      exact ⟨rfl, fun _ member => (List.mem_filter.mp member).1⟩
    · simp at failed

theorem shouldStop_false {old new : List ConsumerConfig} {key : Text} (kept : shouldStop old new key = false) :
    ∃ before now, findByKey old key = some before ∧ findByKey new key = some now ∧
      before.toValue.same now.toValue = true := by
  unfold shouldStop at kept
  split at kept
  · next before now foundBefore foundNow => exact ⟨before, now, foundBefore, foundNow, by simpa using kept⟩
  · cases kept

/-! ### Outputs that agree -/

theorem sameResponse_normalize {a b : Option ConsumerResponseConfig} (same : SameResponse a b) :
    SameResponse (normalizeConsumerResponse a) (normalizeConsumerResponse b) := by
  cases a with
  | none =>
    cases b with
    | none => trivial
    | some b => exact same.elim
  | some a =>
    cases b with
    | none => exact same.elim
    | some b =>
      obtain ⟨payload, headers⟩ := same
      have kept : ∀ keep, (a.headers.retain keep).entries.Perm (b.headers.retain keep).entries :=
        fun keep => headers.filter keep
      simp only [normalizeConsumerResponse, Option.bind_some, payload, (kept _).isEmpty_eq]
      split
      · trivial
      · exact ⟨rfl, kept _⟩

theorem sameEndpoint_static {body : Text} {raw : Bool} {metadata metadata' : List (Text × Text)}
    (distinct : (metadata'.map Prod.fst).Nodup) (perm : metadata.Perm metadata') :
    SameEndpoint (.new (.static ⟨body, raw, metadata⟩)) (.new (.static ⟨body, raw, metadata'⟩)) := by
  have config : (EndpointType.static ⟨body, raw, metadata⟩).toData.toValue.same
      (EndpointType.static ⟨body, raw, metadata'⟩).toData.toValue = true := by
    refine Data.same_record rfl ?_
    intro key value field
    simp only [List.mem_cons, Prod.mk.injEq, List.not_mem_nil, or_false] at field
    rcases field with ⟨rfl, rfl⟩ | ⟨rfl, rfl⟩ | ⟨rfl, rfl⟩
    · exact ⟨_, rfl, by simp [Data.toValue, Json.same]⟩
    · exact ⟨_, rfl, by simp [Data.toValue, Json.same]⟩
    · exact ⟨_, rfl, Data.same_textMap_of_perm distinct perm⟩
  refine Or.inr (Data.same_record rfl ?_)
  intro key value field
  simp only [List.mem_cons, Prod.mk.injEq, List.not_mem_nil, or_false] at field
  rcases field with ⟨rfl, rfl⟩ | ⟨rfl, rfl⟩
  · exact ⟨_, rfl, rfl⟩
  · exact ⟨_, rfl, config⟩

theorem sameEndpoint_started {a b : Option ConsumerResponseConfig} (same : SameResponse a b) :
    SameEndpoint (ResolvedConsumerOutput.response a).started (ResolvedConsumerOutput.response b).started := by
  cases a with
  | none =>
    cases b with
    | none => exact Json.Agree.refl _
    | some b => exact same.elim
  | some a =>
    cases b with
    | none => exact same.elim
    | some b =>
      obtain ⟨payload, headers⟩ := same
      simp only [ResolvedConsumerOutput.started, payload]
      exact sameEndpoint_static b.headers.distinct headers

theorem collectorRoute_output {typeName : EndpointType → Text} {consumer : ConsumerConfig}
    {publishers : List PublisherClient} {route : Route}
    (started : collectorRoute typeName consumer publishers = .ok route) :
    route.input = consumer.endpoint ∧ route.options = consumer.options ∧
      match consumer.output with
      | .none => route.output = .new .null
      | .response response =>
        route.output = (ResolvedConsumerOutput.response (normalizeConsumerResponse response)).started
      | .publisher name id =>
        ∃ publisher, findPublisher publishers name id = some publisher ∧ route.output = publisher.endpoint := by
  unfold collectorRoute at started
  cases resolved : resolveConsumerOutput typeName consumer publishers with
  | error reason => simp [resolved, Except.map] at started
  | ok output =>
    simp only [resolved, Except.map, Except.ok.injEq] at started
    subst started
    refine ⟨rfl, rfl, ?_⟩
    unfold resolveConsumerOutput at resolved
    cases answers : consumer.output with
    | none =>
      rw [answers] at resolved
      obtain rfl := Except.ok.inj resolved
      rfl
    | response response =>
      simp only [answers] at resolved
      split at resolved
      · obtain rfl := Except.ok.inj resolved
        rfl
      · cases resolved
    | publisher name id =>
      simp only [answers] at resolved
      split at resolved
      · cases resolved
      · split at resolved
        · next publisher found =>
          obtain rfl := Except.ok.inj resolved
          exact ⟨publisher, found, rfl⟩
        · cases resolved

theorem supports_of_same {a b : Endpoint} (same : SameEndpoint a b) :
    endpointSupportsConsumerResponse b = endpointSupportsConsumerResponse a := by
  have byTag : ∀ endpoint, endpointSupportsConsumerResponse endpoint = decide (endpoint.endpointType.tag ∈
      (["http", "nats", "memory", "amqp", "mongodb", "mqtt", "zeromq", "kafka"] : List Text)) := by
    intro endpoint
    obtain ⟨_, endpointType⟩ := endpoint
    cases endpointType with
    | connector kind config => cases kind <;> rfl
    | _ => rfl
  rw [byTag, byTag, tag_of_same same]

/-- A running route stays the route of its consumer when the consumer's value is kept, with the
publisher it refers to. -/
theorem collectorRoute_kept {typeName : EndpointType → Text} {before now : ConsumerConfig}
    {publishers publishers' : List PublisherClient} {running route : Route}
    (same : before.toValue.same now.toValue = true)
    (started : collectorRoute typeName before publishers = .ok route) (agrees : SameRoute running route)
    (kept : ∀ name id, now.output = .publisher name id →
      ∃ publisher, findPublisher publishers' name id = some publisher ∧ SameEndpoint running.output publisher.endpoint) :
    ∃ route', collectorRoute typeName now publishers' = .ok route' ∧ SameRoute running route' := by
  obtain ⟨sameInput, sameOptions, sameOutput⟩ := consumer_of_same same
  obtain ⟨input, options, output⟩ := collectorRoute_output started
  suffices ∃ resolved, resolveConsumerOutput typeName now publishers' = .ok resolved ∧
      SameEndpoint running.output resolved.started by
    obtain ⟨resolved, resolves, outputs⟩ := this
    refine ⟨_, by rw [collectorRoute, resolves]; rfl, ?_, outputs, ?_⟩
    · exact (input ▸ agrees.input).trans sameInput
    · exact (options ▸ agrees.options).trans sameOptions
  unfold resolveConsumerOutput
  cases before_ : before.output with
  | none =>
    rw [before_] at output sameOutput
    cases now_ : now.output <;> rw [now_] at sameOutput <;> cases sameOutput
    have plain : route.output = ResolvedConsumerOutput.none.started := output
    exact ⟨.none, rfl, plain ▸ agrees.output⟩
  | response answer =>
    rw [before_] at output sameOutput
    cases now_ : now.output <;> rw [now_] at sameOutput <;> cases sameOutput
    next answers =>
      have answered : route.output = (ResolvedConsumerOutput.response (normalizeConsumerResponse answer)).started :=
        output
      refine ⟨_, if_pos ?_, (answered ▸ agrees.output).trans (sameEndpoint_started (sameResponse_normalize answers))⟩
      rw [supports_of_same sameInput]
      by_contra unsupported
      simp [collectorRoute, resolveConsumerOutput, before_, unsupported, Except.map] at started
  | publisher name id =>
    rw [before_] at output sameOutput
    cases now_ : now.output <;> rw [now_] at sameOutput kept <;> cases sameOutput
    obtain ⟨publisher, found, endpoint⟩ := kept name id rfl
    refine ⟨.publisher publisher.endpoint, ?_, endpoint⟩
    unfold collectorRoute resolveConsumerOutput at started
    rw [before_] at started
    dsimp only at started ⊢
    split at started
    · cases started
    · next named => rw [if_neg named, found]

/-- A running route whose consumer the update keeps still has the output that the publisher its
consumer refers to has in the new configuration. -/
def PublishersKept (old : List ConsumerConfig) (plan : UpdatePlan) (handles : List (Text × RouteHandle)) : Prop :=
  ∀ handle ∈ handles, handle.2.ended = false → ∀ before now,
    findByKey old handle.1 = some before → findByKey plan.consumers handle.1 = some now →
    before.toValue.same now.toValue = true → ∀ name id, now.output = .publisher name id →
      ∃ publisher, findPublisher plan.config.publishers name id = some publisher ∧
        SameEndpoint handle.2.route.output publisher.endpoint

/-- Stopping the stale routes leaves the others in step with the new configuration exactly when their
publishers are kept. -/
theorem stopStale_inSync_iff {config : AppConfig} {plan : UpdatePlan}
    {handles : List (Text × RouteHandle)} (synced : HandlesInSync config handles) :
    HandlesInSync plan.final (stopStale config.consumers plan.consumers handles) ↔
      PublishersKept config.consumers plan handles := by
  constructor
  · intro synced' handle member running before now foundBefore foundNow same name id refers
    have stays : handle ∈ stopStale config.consumers plan.consumers handles :=
      List.mem_filter.mpr ⟨member, by simp [shouldStop, foundBefore, foundNow, same]⟩
    obtain ⟨consumer, route, found, started, agrees⟩ := synced' handle stays running
    obtain rfl := Option.some.inj (foundNow.symm.trans found)
    have output := (collectorRoute_output (started EndpointType.tag)).2.2
    rw [refers] at output
    obtain ⟨publisher, there, same⟩ := output
    exact ⟨publisher, there, same ▸ agrees.output⟩
  · intro kept handle member running
    obtain ⟨member, keep⟩ := List.mem_filter.mp member
    obtain ⟨before, now, foundBefore, foundNow, same⟩ := shouldStop_false (by simpa using keep)
    obtain ⟨consumer, route, found, started, agrees⟩ := synced handle member running
    obtain rfl := Option.some.inj (foundBefore.symm.trans found)
    obtain ⟨route', started', agrees'⟩ := collectorRoute_kept same (started EndpointType.tag) agrees
      (kept handle member running before now foundBefore foundNow same)
    exact ⟨now, route', foundNow, fun _ => collectorRoute_any started', agrees'⟩

theorem updateConfig_inSync_iff {services : Services} {app after : UiApp} {new : AppConfig} {plan : UpdatePlan}
    (synced : InSync app) (planned : planUpdate services new = .ok plan)
    (updated : updateConfig services app new = (after, .ok ())) :
    InSync after ↔ PublishersKept app.config.consumers plan app.handles := by
  obtain ⟨plan', planned', config, handles, -⟩ := updateConfig_ok updated
  obtain rfl := Except.ok.inj (planned.symm.trans planned')
  rw [InSync, config, handles]
  exact stopStale_inSync_iff synced

/-- A start of the consumer runs a new route: it has an input, and none runs under its key. -/
def StartsRoute (consumer : ConsumerConfig) (handles : List (Text × RouteHandle)) : Prop :=
  EndpointType.isNull consumer.endpoint.endpointType = false ∧
    ((handles.lookup (consumerRuntimeKey consumer)).any fun handle => !handle.ended) = false

/-- `config` has the consumer under its runtime key, and the publisher it refers to, with the values
they are started with. -/
def Serves (config : AppConfig) (consumer : ConsumerConfig) (publishers : List PublisherClient) : Prop :=
  ∃ now, findByKey config.consumers (consumerRuntimeKey consumer) = some now ∧
    consumer.toValue.same now.toValue = true ∧
    ∀ name id, now.output = .publisher name id → ∀ publisher, findPublisher publishers name id = some publisher →
      ∃ publisher', findPublisher config.publishers name id = some publisher' ∧
        SameEndpoint publisher.endpoint publisher'.endpoint

theorem serves_runsConfigured {services : Services} {config : AppConfig} {consumer : ConsumerConfig}
    {publishers : List PublisherClient} {route : Route} (serves : Serves config consumer publishers)
    (started : collectorRoute services.typeName consumer publishers = .ok route) :
    RunsConfigured config (consumerRuntimeKey consumer) route := by
  obtain ⟨now, found, same, kept⟩ := serves
  have outputs : ∀ name id, now.output = .publisher name id → ∃ publisher,
      findPublisher config.publishers name id = some publisher ∧ SameEndpoint route.output publisher.endpoint := by
    intro name id refers
    have output := (collectorRoute_output started).2.2
    have sameOutput := (consumer_of_same same).2.2
    rw [refers] at sameOutput
    cases before_ : consumer.output <;> rw [before_] at sameOutput output <;> cases sameOutput
    obtain ⟨publisher, there, output⟩ := output
    rw [output]
    exact kept name id refers publisher there
  obtain ⟨route', started', agrees⟩ := collectorRoute_kept same started (.refl route) outputs
  exact ⟨now, route', found, fun _ => collectorRoute_any started', agrees⟩

/-- A start keeps the routes in step with every configuration that serves the consumer. -/
theorem startUiCollectorRoute_inSync {services : Services} {config : AppConfig} {consumer : ConsumerConfig}
    {publishers : List PublisherClient} {handles : List (Text × RouteHandle)}
    (synced : HandlesInSync config handles)
    (serves : StartsRoute consumer handles → Serves config consumer publishers) :
    HandlesInSync config (startUiCollectorRoute services consumer publishers handles).1 := by
  intro handle member running
  unfold startUiCollectorRoute at member
  split at member
  · exact synced handle member running
  · next input =>
    dsimp only at member
    split at member
    · exact synced handle member running
    · next idle =>
      have serves := serves ⟨by simpa using input, by simpa using idle⟩
      split at member
      · exact synced handle member running
      · next route started =>
        split at member
        · exact synced handle member running
        · rcases List.mem_append.mp member with old | new
          · exact synced handle (List.mem_filter.mp old).1 running
          · obtain rfl := List.mem_singleton.mp new
            exact serves_runsConfigured serves started

/-! ### Runs -/

/-- What happens to an application: calls, and routes that end by themselves. -/
inductive Call where
  | start (lookup : Text)
  | stop (lookup : Text)
  | ended (key : Text)
  | update (new : AppConfig)

def UiApp.call (services : Services) (app : UiApp) : Call → UiApp
  | .start lookup => (startConsumer services app lookup).1
  | .stop lookup => (stopConsumer app lookup).1
  | .ended key => endRoute app key
  | .update new => (updateConfig services app new).1

/-- A start finds the consumer its runtime key stands for, and a successful update keeps the
publishers of the routes it keeps. -/
def Call.Meets (services : Services) (app : UiApp) : Call → Prop
  | .start lookup => ∀ consumer, findByLookup app.config.consumers lookup = some consumer →
      StartsRoute consumer app.handles → Serves app.config consumer app.config.publishers
  | .update new => ∀ plan, planUpdate services new = .ok plan →
      (∃ after, updateConfig services app new = (after, .ok ())) →
        PublishersKept app.config.consumers plan app.handles
  | .stop _ | .ended _ => True

/-- One call that meets its condition, with what it relies on outside. -/
def CallStep (app after : UiApp) : Prop :=
  ∃ (services : Services) (call : Call), call.Meets services app ∧ after = app.call services call

theorem HandlesInSync.subset {config : AppConfig} {handles fewer : List (Text × RouteHandle)}
    (synced : HandlesInSync config handles) (subset : fewer ⊆ handles) :
    HandlesInSync config fewer :=
  fun handle member => synced handle (subset member)

theorem inSync_start {services : Services} {app : UiApp} {lookup : Text} (synced : InSync app)
    (meets : (Call.start lookup).Meets services app) : InSync (startConsumer services app lookup).1 := by
  unfold startConsumer
  split
  · exact synced
  · next consumer found => exact startUiCollectorRoute_inSync synced (meets consumer found)

theorem endRoute_inSync {app : UiApp} {config : AppConfig} (key : Text)
    (synced : HandlesInSync config app.handles) : HandlesInSync config (endRoute app key).handles := by
  intro handle member running
  obtain ⟨before, inside, rfl⟩ := List.mem_map.mp member
  by_cases hit : (before.1 == key) = true
  · simp [hit] at running
  · rw [if_neg hit] at running ⊢
    exact synced before inside running

theorem inSync_update {services : Services} {app : UiApp} {new : AppConfig} (synced : InSync app)
    (meets : (Call.update new).Meets services app) : InSync (updateConfig services app new).1 := by
  cases result : updateConfig services app new with
  | mk after outcome =>
    cases outcome with
    | error error =>
      obtain ⟨config, handles⟩ := updateConfig_error result
      rw [InSync, config]
      exact synced.subset handles
    | ok _ =>
      obtain ⟨plan, planned, -⟩ := updateConfig_ok result
      exact (updateConfig_inSync_iff synced planned result).mpr (meets plan planned ⟨after, result⟩)

theorem inSync_step {app after : UiApp} (synced : InSync app) (step : CallStep app after) : InSync after := by
  obtain ⟨services, call, meets, rfl⟩ := step
  cases call with
  | start lookup => exact inSync_start synced meets
  | stop lookup => exact synced.subset (List.filter_subset_self _)
  | ended key => exact endRoute_inSync key synced
  | update new => exact inSync_update synced meets

/-- From an application without routes, calls that meet their conditions keep every running route in
step with the configuration, and a further update does so exactly when it meets its condition. -/
theorem runs_inSync (app after : UiApp) (fresh : app.handles = []) (run : Relation.ReflTransGen CallStep app after) :
    InSync after ∧
      ∀ (services : Services) new plan updated, planUpdate services new = .ok plan →
        updateConfig services after new = (updated, .ok ()) →
          (InSync updated ↔ PublishersKept after.config.consumers plan after.handles) := by
  have synced : InSync after := by
    induction run with
    | refl =>
      intro handle member
      rw [fresh] at member
      cases member
    | tail _ step ih => exact inSync_step ih step
  exact ⟨synced, fun _ _ _ _ => updateConfig_inSync_iff synced⟩

def topicEndpoint (topic : Text) : Endpoint := .new (.connector .memory (.record [("topic", .str topic)]))

def forwardingConsumer : ConsumerConfig where
  id := "c1"
  name := "orders"
  endpoint := topicEndpoint "orders"
  output := .publisher "sink" (some "p1")

def forwardingConfig (topic : Text) : AppConfig where
  consumers := [forwardingConsumer]
  publishers := [{ id := "p1", name := "sink", endpoint := topicEndpoint topic }]
  configSecurity := some { mode := .unencrypted }

def forwardingApp : UiApp where
  config := forwardingConfig "audit"
  handles := []
  file := none
  storageSecurity := .null

def forwardingStarted : UiApp := (startConsumer workingServices forwardingApp "c1").1

def publisherMoved : UiApp := (updateConfig workingServices forwardingStarted (forwardingConfig "archive")).1

/-- An update that adds a publisher keeps the route. -/
def publisherAdded : AppConfig :=
  { forwardingConfig "audit" with
    publishers := (forwardingConfig "audit").publishers ++ [{ id := "p2", name := "spare", endpoint := topicEndpoint "spare" }] }

def forwardingUpdated : UiApp := (updateConfig workingServices forwardingStarted publisherAdded).1

theorem runs_inSync_started : (updateConfig workingServices forwardingStarted publisherAdded).2 = .ok () ∧
    (forwardingUpdated.handles.map fun handle => (handle.1, handle.2.ended)) = [(("c1" : Text), false)] ∧
      InSync forwardingUpdated := by
  have serves : Serves forwardingApp.config forwardingConsumer forwardingApp.config.publishers :=
    ⟨_, rfl, by decide, fun _ _ _ publisher found => ⟨publisher, found, Json.Agree.refl _⟩⟩
  have started : CallStep forwardingApp forwardingStarted :=
    ⟨workingServices, .start "c1", fun _ found => by cases found; exact fun _ => serves, rfl⟩
  have updated : CallStep forwardingStarted forwardingUpdated := by
    refine ⟨workingServices, .update publisherAdded, fun plan planned _ => ?_, rfl⟩
    obtain rfl := Except.ok.inj (planned.symm.trans (rfl : planUpdate workingServices publisherAdded = .ok _))
    intro handle member running before now _ foundNow _ name id refers
    obtain rfl := List.mem_singleton.mp (show handle ∈ [_] from member)
    cases foundNow
    cases refers
    exact ⟨_, rfl, Json.Agree.refl _⟩
  exact ⟨rfl, rfl, (runs_inSync forwardingApp forwardingUpdated rfl (.tail (.single started) updated)).1⟩

theorem moved_publisher_keeps_old_route :
    (updateConfig workingServices forwardingStarted (forwardingConfig "archive")).2 = .ok () ∧
      (publisherMoved.handles.map fun handle => (handle.1, handle.2.ended)) = [(("c1" : Text), false)] ∧
      ¬ InSync publisherMoved := by
  refine ⟨rfl, rfl, ?_⟩
  intro synced
  obtain ⟨consumer, route, found, started, agrees⟩ := synced
    ("c1", { route := ⟨topicEndpoint "orders", topicEndpoint "audit", {}⟩, ended := false })
    List.mem_cons_self rfl
  cases found
  cases started EndpointType.tag
  have output := agrees.output
  revert output
  unfold SameEndpoint Json.Agree
  decide

end MqBridge.Ui
