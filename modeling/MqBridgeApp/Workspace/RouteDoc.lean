import MqBridgeApp.Lib.JavaScript
import MqBridgeApp.Ui.UpdateKept

/-!
# The route of a consumer as a document

The browser exports a consumer as a native route. The document is made from the consumer and the
publishers as the server gives them, and compared with the route that the server starts.
-/

namespace MqBridge.Workspace
open Text Config Ui

def routeOptionFields : List Text :=
  ["enabled", "description", "concurrency", "batch_size", "commit_concurrency_limit", "startup_timeout_ms",
    "reconnect_interval_ms", "empty_batch_delay_ms", "allow_fault_injection"]

def publisherOutputEndpoint (cfg : Record) (publishers : List Record) : Option Json :=
  let publisherId := Json.textOr [] (cfg.prop "publisher_id")
  let publisherName := Json.textOr [] (cfg.prop "publisher")
  let found := publishers.find? fun entry =>
    (!publisherId.isEmpty && Json.textOr [] (entry.prop "id") == publisherId) ||
      (!publisherName.isEmpty && Json.textOr [] (entry.prop "name") == publisherName)
  let endpoint := Json.asObject (found.bind fun entry => entry.prop "endpoint")
  if endpoint.isEmpty then none else some (.obj endpoint)

def resolveConsumerOutputEndpoint (output : Option Json) (publishers : List Record) : Option Json :=
  let cfg : Record := Json.asObject output
  let mode := Json.textOr "none" (cfg.prop "mode")
  if mode = "response" then
    let response : Record := Json.asObject (cfg.prop "response")
    let body :=
      match response.prop "payload" with
      | some (.str payload) => payload
      | _ => []
    some (.obj [("static", .obj [("body", .str body), ("raw", .bool true),
      ("metadata", .obj (Json.asObject (response.prop "headers")))])])
  else if mode = "publisher" then publisherOutputEndpoint cfg publishers
  else none

/-- Takes the fields that a record has a value for. -/
def copyField (source route : Record) (field : Text) : Record :=
  match Json.present (source.prop field) with
  | some value => route.assign field value
  | none => route

def copyFields (fields : List Text) (source route : Record) : Record := fields.foldl (copyField source) route

def buildConsumerRouteDoc (consumer : Record) (publishers : List Record) : Record :=
  let route : Record := [("input", .obj (Json.asObject (consumer.prop "endpoint")))]
  let route :=
    match resolveConsumerOutputEndpoint (consumer.prop "output") publishers with
    | some output => route.assign "output" output
    | none => route
  copyFields routeOptionFields consumer route

/-- An endpoint that says nothing of its middlewares has none. -/
def withMiddlewares : Json → Json
  | .obj entries =>
    if (entries.lookup ("middlewares" : Text)).isSome then .obj entries else .obj (("middlewares", .arr []) :: entries)
  | value => value

/-- The output of a document. A route without one goes nowhere. -/
def documentedOutput (doc : Record) : Json :=
  ((doc.prop "output").map withMiddlewares).getD (Endpoint.new .null).toValue

def optionFields (enabled : Bool) (options : RouteOptions) : List (Text × Data) :=
  ("enabled", .bool enabled) :: options.toFields

/-- The document has the input, the output and the options of a route. An option that it does not have has its
default. -/
structure Documents (doc : Record) (config : RouteConfig) : Prop where
  input : doc.prop "input" = some config.route.input.toValue
  output : (documentedOutput doc).Agree config.route.output.toValue
  options : ∀ field ∈ optionFields config.enabled config.route.options,
    (doc.prop field.1).or (((optionFields true {}).lookup field.1).map Data.toValue) = some field.2.toValue

/-- The server's view of a consumer and of a publisher. -/
def consumerRecord (consumer : ConsumerConfig) : Record := Json.asObject (some consumer.toValue)

def publisherRecord (publisher : PublisherClient) : Record := Json.asObject (some publisher.toData.toValue)

def exactPublisher (publishers : List PublisherClient) (publisher : Text) (publisherId : Option Text) :
    Option PublisherClient :=
  publishers.find? fun candidate =>
    (!(publisherId.getD []).isEmpty && candidate.id == publisherId.getD []) ||
      (!publisher.isEmpty && candidate.name == publisher)

/-- The endpoint of the publisher that an output means. Without one, a document has no output. -/
def referencedEndpoint (publishers : List PublisherClient) (publisher : Text) (publisherId : Option Text) : Endpoint :=
  ((exactPublisher publishers publisher publisherId).map PublisherClient.endpoint).getD (.new .null)

/-- The endpoint that a document gives a consumer's output. -/
def documentedEndpoint (output : ConsumerOutputConfig) (publishers : List PublisherClient) : Endpoint :=
  match output with
  | .none => .new .null
  | .response response =>
    .new (.static { body := (response.getD {}).payload, raw := true, metadata := (response.getD {}).headers.entries })
  | .publisher publisher publisherId => referencedEndpoint publishers publisher publisherId

section
variable {source route : Record} {key : Text}

theorem lookup_copyField (field : Text) :
    (copyField source route field).lookup key =
      if key = field then (Json.present (source.lookup key)).or (route.lookup key) else route.lookup key := by
  unfold copyField
  cases held : Json.present (source.prop field) with
  | none =>
    dsimp only
    split
    · rename_i here
      rw [here, held, Option.none_or]
    · rfl
  | some value =>
    dsimp only
    simp only [Record.lookup_assign, beq_iff_eq]
    split
    · rename_i here
      rw [here, held, Option.some_or]
    · rfl

theorem lookup_copyFields (fields : List Text) :
    (copyFields fields source route).lookup key =
      if key ∈ fields then (Json.present (source.lookup key)).or (route.lookup key) else route.lookup key := by
  unfold copyFields
  induction fields generalizing route with
  | nil => rfl
  | cons field rest ih =>
    rw [List.foldl_cons, ih, lookup_copyField]
    by_cases here : key = field
    · subst here
      rw [if_pos rfl, if_pos List.mem_cons_self, ← Option.or_assoc, Option.or_self, ite_self]
    · simp [here]

end

/-! ### What the server gives -/

section
variable {consumer : ConsumerConfig} {publishers : List PublisherClient}

theorem lookup_consumerRecord (key : Text) :
    (consumerRecord consumer).lookup key = (consumer.toFields.lookup key).map Data.toValue :=
  Data.lookup_toEntries consumer.toFields key

theorem lookup_enabled (consumer : ConsumerConfig) :
    consumer.toFields.lookup ("enabled" : Text) = if consumer.enabled then none else some (.bool consumer.enabled) := by
  have options : consumer.options.toFields.lookup ("enabled" : Text) = none := rfl
  rw [ConsumerConfig.toFields, Assoc.lookup_append, options]
  cases consumer.enabled <;> simp +decide [Assoc.lookup_append, lookup_written, lookup_skippedIf]

theorem publisherRecord_id (publisher : PublisherClient) :
    (publisherRecord publisher).lookup ("id" : Text) = some (.str publisher.id) := rfl

theorem publisherRecord_name (publisher : PublisherClient) :
    (publisherRecord publisher).lookup ("name" : Text) = some (.str publisher.name) := rfl

theorem publisherRecord_endpoint (publisher : PublisherClient) :
    (publisherRecord publisher).lookup ("endpoint" : Text) = some publisher.endpoint.toValue := rfl

theorem asObject_endpoint (endpoint : Endpoint) :
    .obj (Json.asObject (some endpoint.toValue)) = endpoint.toValue ∧
      (Json.asObject (some endpoint.toValue)).isEmpty = false ∧ withMiddlewares endpoint.toValue = endpoint.toValue := by
  obtain ⟨middlewares, endpointType⟩ := endpoint
  exact ⟨rfl, rfl, rfl⟩

theorem publisherOutputEndpoint_eq (publisher : Text) (publisherId : Option Text) :
    publisherOutputEndpoint (Data.toEntries (ConsumerOutputConfig.publisher publisher publisherId).toFields)
        (publishers.map publisherRecord) =
      (exactPublisher publishers publisher publisherId).map fun found => found.endpoint.toValue := by
  have id : Json.textOr [] ((Data.toEntries (ConsumerOutputConfig.publisher publisher publisherId).toFields).lookup
      ("publisher_id" : Text)) = publisherId.getD [] := by
    cases publisherId with
    | none => rfl
    | some id => exact Json.textOr_str id
  have name : Json.textOr [] ((Data.toEntries (ConsumerOutputConfig.publisher publisher publisherId).toFields).lookup
      ("publisher" : Text)) = publisher := Json.textOr_str publisher
  simp only [publisherOutputEndpoint, Record.prop, id, name, List.find?_map, exactPublisher, Function.comp_def,
    publisherRecord_id, publisherRecord_name, Json.textOr_str]
  cases publishers.find? _ with
  | none => rfl
  | some found =>
    obtain ⟨whole, full, -⟩ := asObject_endpoint found.endpoint
    rw [Option.map_some, Option.bind_some, publisherRecord_endpoint, if_neg (by simp [full]), whole]
    rfl

/-- What a document gets for an output, where it gets anything. -/
theorem resolve_output (output : ConsumerOutputConfig) (publishers : List PublisherClient) :
    ((resolveConsumerOutputEndpoint (some output.toData.toValue) (publishers.map publisherRecord)).map
        withMiddlewares).getD (Endpoint.new .null).toValue = (documentedEndpoint output publishers).toValue := by
  cases output with
  | none => rfl
  | response response =>
    cases response with
    | none => rfl
    | some answer =>
      obtain ⟨⟨entries, distinct⟩, payload⟩ := answer
      have exported : resolveConsumerOutputEndpoint
          (some (ConsumerOutputConfig.response (some ⟨⟨entries, distinct⟩, payload⟩)).toData.toValue)
          (publishers.map publisherRecord) =
          some (.obj [("static", .obj [("body", .str payload), ("raw", .bool true),
            ("metadata", .obj (Data.toEntries (entries.map fun entry => (entry.1, .str entry.2))))])]) := rfl
      rw [exported]
      rfl
  | publisher publisher publisherId =>
    have exported : resolveConsumerOutputEndpoint
        (some (ConsumerOutputConfig.publisher publisher publisherId).toData.toValue)
        (publishers.map publisherRecord) =
        publisherOutputEndpoint (Data.toEntries (ConsumerOutputConfig.publisher publisher publisherId).toFields)
          (publishers.map publisherRecord) := rfl
    rw [exported, publisherOutputEndpoint_eq]
    show _ = Endpoint.toValue
      (((exactPublisher publishers publisher publisherId).map PublisherClient.endpoint).getD (.new .null))
    cases exactPublisher publishers publisher publisherId with
    | none => rfl
    | some found => exact (asObject_endpoint found.endpoint).2.2

theorem resolveConsumerOutputEndpoint_eq (consumer : ConsumerConfig) (publishers : List PublisherClient) :
    ((resolveConsumerOutputEndpoint ((consumerRecord consumer).prop "output") (publishers.map publisherRecord)).map
        withMiddlewares).getD (Endpoint.new .null).toValue =
      (documentedEndpoint consumer.output publishers).toValue := by
  show ((resolveConsumerOutputEndpoint ((consumerRecord consumer).lookup _) _).map _).getD _ = _
  rw [lookup_consumerRecord, lookup_output]
  cases output : consumer.output with
  | none => rfl
  | response response => exact resolve_output (.response response) publishers
  | publisher publisher publisherId => exact resolve_output (.publisher publisher publisherId) publishers

theorem prop_option {key : Text} (shared : key ∈ routeOptionFields) :
    (buildConsumerRouteDoc (consumerRecord consumer) (publishers.map publisherRecord)).prop key =
      Json.present ((consumer.toFields.lookup key).map Data.toValue) := by
  have other : key ≠ "input" ∧ key ≠ "output" :=
    (by decide : ∀ field ∈ routeOptionFields, field ≠ "input" ∧ field ≠ "output") key shared
  show List.lookup key (copyFields _ _ _) = _
  rw [lookup_copyFields, if_pos shared, lookup_consumerRecord]
  apply Option.or_eq_left_of_none
  split
  · simp [other]
  · simp [List.lookup_cons, beq_false_of_ne other.1]

theorem prop_input :
    (buildConsumerRouteDoc (consumerRecord consumer) (publishers.map publisherRecord)).prop "input" =
      some consumer.endpoint.toValue := by
  show List.lookup _ (copyFields _ _ _) = _
  rw [lookup_copyFields, if_neg (by decide)]
  have endpoint : (consumerRecord consumer).prop "endpoint" = some consumer.endpoint.toValue := by
    show List.lookup _ _ = _
    rw [lookup_consumerRecord, lookup_endpoint]
    rfl
  rw [endpoint, (asObject_endpoint consumer.endpoint).1]
  split
  · rw [Record.lookup_assign]
    rfl
  · rfl

theorem documentedOutput_eq :
    documentedOutput (buildConsumerRouteDoc (consumerRecord consumer) (publishers.map publisherRecord)) =
      (documentedEndpoint consumer.output publishers).toValue := by
  rw [← resolveConsumerOutputEndpoint_eq, documentedOutput]
  congr 2
  show List.lookup _ (copyFields _ _ _) = _
  rw [lookup_copyFields, if_neg (by decide)]
  split
  · next output exported => rw [Record.lookup_assign, beq_self_eq_true, if_pos rfl, exported]
  · next exported =>
    rw [exported]
    rfl

theorem prop_exitOnEmpty :
    (buildConsumerRouteDoc (consumerRecord consumer) (publishers.map publisherRecord)).prop "exit_on_empty" = none := by
  show List.lookup _ (copyFields _ _ _) = _
  rw [lookup_copyFields, if_neg (by decide)]
  split
  · rw [Record.lookup_assign]
    rfl
  · rfl

/-- The document has every option of the consumer but `exit_on_empty`. -/
theorem options_iff :
    (∀ field ∈ optionFields consumer.enabled consumer.options,
      ((buildConsumerRouteDoc (consumerRecord consumer) (publishers.map publisherRecord)).prop field.1).or
        (((optionFields true {}).lookup field.1).map Data.toValue) = some field.2.toValue) ↔
      consumer.options.exitOnEmpty = false := by
  constructor
  · intro documented
    have last := documented ("exit_on_empty", .bool consumer.options.exitOnEmpty)
      (by simp [optionFields, RouteOptions.toFields])
    rw [prop_exitOnEmpty] at last
    have default : Json.bool false = .bool consumer.options.exitOnEmpty := Option.some.inj last
    exact (Json.bool.inj default).symm
  · rintro plain ⟨key, value⟩ field
    rcases List.mem_cons.mp field with enabled | option
    · obtain ⟨rfl, rfl⟩ := Prod.mk.inj enabled
      have shared : (("enabled" : Text)) ∈ routeOptionFields := by decide
      rw [prop_option shared, lookup_enabled]
      cases consumer.enabled <;> rfl
    · have present := lookup_option consumer option
      simp only [RouteOptions.toFields, List.mem_cons, Prod.mk.injEq, List.not_mem_nil, or_false] at option
      rcases option with ⟨rfl, rfl⟩ | ⟨rfl, rfl⟩ | ⟨rfl, rfl⟩ | ⟨rfl, rfl⟩ | ⟨rfl, rfl⟩ | ⟨rfl, rfl⟩ | ⟨rfl, rfl⟩ |
        ⟨rfl, rfl⟩ | ⟨rfl, rfl⟩
      case inr.inr.inr.inr.inr.inr.inr.inr =>
        rw [prop_exitOnEmpty, plain]
        rfl
      all_goals
        rw [prop_option (by dsimp only; decide), present]
        rfl

/-! ### Outputs -/

theorem static_of_same {a b : StaticConfig} (distinct : (a.metadata.map Prod.fst).Nodup)
    (same : SameEndpoint (.new (.static a)) (.new (.static b))) : a.body = b.body ∧ a.metadata.Perm b.metadata := by
  rcases same with same | same
  · have configs : (EndpointType.static a).toData.toValue = (EndpointType.static b).toData.toValue := by
      have values := congrArg (fun value => (Json.asObject (some value)).lookup ("static" : Text)) same
      exact Option.some.inj values
    have body := congrArg (fun value => (Json.asObject (some value)).lookup ("body" : Text)) configs
    have metadata := congrArg (fun value => (Json.asObject (some value)).lookup ("metadata" : Text)) configs
    have entries : (Data.textMap a.metadata).toValue = (Data.textMap b.metadata).toValue := Option.some.inj metadata
    rw [Data.toEntries_textMap, Data.toEntries_textMap] at entries
    have injective : Function.Injective fun entry : Text × Text => (entry.1, Json.str entry.2) := by
      rintro ⟨key, value⟩ ⟨key', value'⟩ same
      simpa using same
    refine ⟨Json.str.inj (Option.some.inj body), ?_⟩
    rw [List.map_injective_iff.mpr injective (Json.obj.inj entries)]
  · obtain ⟨config, found, step⟩ := Data.same_field "static" same rfl
    obtain rfl := Option.some.inj found
    obtain ⟨body, found, step'⟩ := Data.same_field "body" step rfl
    obtain rfl := Option.some.inj found
    obtain ⟨metadata, found, step''⟩ := Data.same_field "metadata" step rfl
    obtain rfl := Option.some.inj found
    exact ⟨Json.same_str.mp step', Data.perm_of_same_textMap distinct step''⟩

theorem null_ne_static (config : StaticConfig) : EndpointType.null.tag ≠ (EndpointType.static config).tag := by
  show ("null" : Text) ≠ "static"
  decide

theorem findPublisher_eq (publisher : Text) (publisherId : Option Text) :
    findPublisher publishers publisher publisherId =
      exactPublisher publishers (trim publisher) (publisherId.map trim) := by
  simp only [findPublisher, exactPublisher]
  congr 1
  funext candidate
  cases publisherId with
  | none => simp
  | some id =>
    simp only [Option.map_some, Option.getD_some, Option.filter_some]
    cases trim id with
    | nil => simp
    | cons c rest => simp [BEq.comm (a := candidate.id)]

end

/-- The output of a document is the one that the server gives the route: a response is already tidy, and a reference
means the same endpoint without the blanks around it. -/
def OutputKept (consumer : ConsumerConfig) (publishers : List PublisherClient) : Prop :=
  match consumer.output with
  | .none => Ui.normalizeConsumerResponse consumer.response = none
  | .response response => ∃ answer, response = some answer ∧ Tidy answer
  | .publisher publisher publisherId =>
    SameEndpoint (referencedEndpoint publishers publisher publisherId)
      (referencedEndpoint publishers (trim publisher) (publisherId.map trim))

section
variable {typeName : EndpointType → Text} {consumer : ConsumerConfig} {publishers : List PublisherClient} {route : Route}

/-- A response output of a document is the started one only when nothing was to be normalised. -/
theorem response_kept_iff (response fallback : Option ConsumerResponseConfig) :
    SameEndpoint (documentedEndpoint (.response response) publishers)
        (ResolvedConsumerOutput.response
          (Ui.normalizeConsumerResponse ((Ui.normalizeConsumerResponse response).or (Ui.normalizeConsumerResponse fallback)))).started ↔
      ∃ answer, response = some answer ∧ Tidy answer := by
  constructor
  · intro same
    have tidied : ∀ answer, (Ui.normalizeConsumerResponse response).or (Ui.normalizeConsumerResponse fallback) = some answer →
        Tidy answer := by
      intro answer chosen
      rcases Option.or_eq_some_iff.mp chosen with own | ⟨-, other⟩
      · exact tidy_of_normalize own
      · exact tidy_of_normalize other
    cases chosen : (Ui.normalizeConsumerResponse response).or (Ui.normalizeConsumerResponse fallback) with
    | none =>
      rw [chosen] at same
      exact absurd (tag_of_same same) (null_ne_static _)
    | some answer =>
      have tidy := tidied answer chosen
      rw [chosen, tidy.normalize] at same
      obtain ⟨body, metadata⟩ := static_of_same (response.getD {}).headers.distinct same
      have own : Tidy (response.getD {}) := tidy.of_perm body.symm metadata.symm
      cases response with
      | none => exact absurd own (by rintro ⟨-, full | full⟩ <;> exact full rfl)
      | some given => exact ⟨given, rfl, own⟩
  · rintro ⟨answer, rfl, tidy⟩
    rw [tidy.normalize, Option.some_or, tidy.normalize]
    exact Json.Agree.refl _

theorem output_kept_iff (started : collectorRoute typeName (normalizeConsumer consumer) publishers = .ok route) :
    SameEndpoint (documentedEndpoint consumer.output publishers) route.output ↔ OutputKept consumer publishers := by
  have output := (collectorRoute_output started).2.2
  unfold OutputKept
  unfold normalizeConsumer at output
  cases given : consumer.output with
  | none =>
    simp only [given, normalizeConsumerOutput] at output
    cases answer : Ui.normalizeConsumerResponse consumer.response with
    | none =>
      rw [answer] at output
      simp only at output
      rw [output]
      exact iff_of_true (Json.Agree.refl _) rfl
    | some answer =>
      rw [‹Ui.normalizeConsumerResponse consumer.response = _›] at output
      simp only at output
      rw [output, (tidy_of_normalize ‹_›).normalize]
      exact iff_of_false (fun same => null_ne_static _ (tag_of_same same).symm) (by simp)
  | response response =>
    simp only [given, normalizeConsumerOutput] at output
    rw [output]
    exact response_kept_iff response consumer.response
  | publisher publisher publisherId =>
    simp only [given, normalizeConsumerOutput] at output
    obtain ⟨found, there, output⟩ := output
    rw [findPublisher_eq, trim_trim] at there
    simp only [documentedEndpoint]
    rw [output, referencedEndpoint.eq_def publishers (trim publisher), there]
    rfl

/-- For a consumer that the server accepts, the exported document is the route that the server starts exactly when the
consumer does not stop on an empty input and its output is kept. -/
theorem exported_route_iff (started : collectorRoute typeName (normalizeConsumer consumer) publishers = .ok route) :
    Documents (buildConsumerRouteDoc (consumerRecord consumer) (publishers.map publisherRecord))
        ⟨consumer.enabled, route⟩ ↔
      consumer.options.exitOnEmpty = false ∧ OutputKept consumer publishers := by
  obtain ⟨input, options, -⟩ := collectorRoute_output started
  have sameInput : route.input = consumer.endpoint := input
  have sameOptions : route.options = consumer.options := options
  rw [← output_kept_iff started, ← options_iff]
  constructor
  · intro documents
    constructor
    · have := documents.options
      rwa [sameOptions] at this
    · have := documents.output
      rwa [documentedOutput_eq] at this
  · rintro ⟨options, output⟩
    refine ⟨?_, ?_, ?_⟩
    · rw [sameInput]
      exact prop_input
    · rw [documentedOutput_eq]
      exact output
    · rw [sameOptions]
      exact options

end

def answeringConsumer (exitOnEmpty : Bool) : ConsumerConfig where
  id := "c1"
  name := "orders"
  endpoint := topicEndpoint "orders"
  output := .response (some { payload := "accepted" })
  options := { exitOnEmpty }

def answeringRoute (exitOnEmpty : Bool) : Route where
  input := topicEndpoint "orders"
  output := .new (.static { body := "accepted", raw := true, metadata := [] })
  options := { exitOnEmpty }

theorem answering_exported :
    Documents (buildConsumerRouteDoc (consumerRecord (answeringConsumer false)) []) ⟨true, answeringRoute false⟩ := by
  have started : collectorRoute (fun _ => []) (normalizeConsumer (answeringConsumer false)) [] =
      .ok (answeringRoute false) := rfl
  refine (exported_route_iff started).mpr ⟨rfl, ?_⟩
  exact ⟨_, rfl, by simp, Or.inr (by decide)⟩

/-- The option to stop on an empty input is not exported. -/
theorem exit_on_empty_dropped :
    collectorRoute (fun _ => []) (normalizeConsumer (answeringConsumer true)) [] = .ok (answeringRoute true) ∧
      ¬ Documents (buildConsumerRouteDoc (consumerRecord (answeringConsumer true)) [])
        ⟨(answeringConsumer true).enabled, answeringRoute true⟩ := by
  refine ⟨rfl, fun documents => ?_⟩
  have option := documents.options ("exit_on_empty", .bool true) (by simp [optionFields, RouteOptions.toFields, answeringRoute])
  revert option
  decide

end MqBridge.Workspace
