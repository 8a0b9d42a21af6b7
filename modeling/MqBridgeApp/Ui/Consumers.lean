import MqBridgeApp.Config.Model

/-!
# Consumers at runtime

The key a consumer runs under, how an update normalises it, and the route it is started with.
-/

namespace MqBridge.Ui
open Text Config

inductive UpdateConfigError where
  | validation (message : Text)
  | unsupportedCustomResponses (message : Text)
  | registerOutputEndpoint (message : Text)
  | other (message : Text)

def UpdateConfigError.message : UpdateConfigError → Text
  | .validation message | .unsupportedCustomResponses message | .registerOutputEndpoint message
  | .other message => message

def consumerRuntimeKey (consumer : ConsumerConfig) : Text :=
  if (trim consumer.id).isEmpty then trim consumer.name else trim consumer.id

def consumerMatchesLookup (consumer : ConsumerConfig) (lookup : Text) : Bool :=
  consumerRuntimeKey consumer == lookup || consumer.name == lookup

def findByKey (consumers : List ConsumerConfig) (key : Text) : Option ConsumerConfig :=
  consumers.find? fun consumer => consumerRuntimeKey consumer == key

def endpointSupportsConsumerResponse (endpoint : Endpoint) : Bool :=
  match endpoint.endpointType with
  | .http _ _ => true
  | .connector kind _ =>
    kind ∈ [Connector.nats, .memory, .amqp, .mongodb, .mqtt, .zeromq, .kafka]
  | _ => false

def normalizeConsumerResponse (response : Option ConsumerResponseConfig) : Option ConsumerResponseConfig :=
  response.bind fun response =>
    let headers := response.headers.retain fun header => !(trim header.1).isEmpty && !(trim header.2).isEmpty
    if headers.entries.isEmpty && (trim response.payload).isEmpty then none else some { response with headers }

def normalizeConsumerOutput (output : ConsumerOutputConfig) (fallbackResponse : Option ConsumerResponseConfig) :
    ConsumerOutputConfig :=
  let normalizedFallback := normalizeConsumerResponse fallbackResponse
  match output with
  | .publisher publisher publisherId => .publisher (trim publisher) publisherId
  | .response response => .response ((normalizeConsumerResponse response).or normalizedFallback)
  | .none =>
    match normalizedFallback with
    | some response => .response (some response)
    | none => .none

def consumerOutputResponseCompat : ConsumerOutputConfig → Option ConsumerResponseConfig
  | .response response => normalizeConsumerResponse response
  | _ => none

def normalizeConsumerCapture (capture : ConsumerMessageCaptureConfig) : ConsumerMessageCaptureConfig :=
  { capture with keepLast := max capture.keepLast 1 }

def normalizeConsumer (consumer : ConsumerConfig) : ConsumerConfig :=
  let output := normalizeConsumerOutput consumer.output consumer.response
  { consumer with
    name := trim consumer.name
    output
    response := consumerOutputResponseCompat output
    messageCapture := normalizeConsumerCapture consumer.messageCapture }

inductive ResolvedConsumerOutput where
  | none
  | publisher (endpoint : Endpoint)
  | response (response : Option ConsumerResponseConfig)

/-- The publisher an output refers to: the first with its id or its name. -/
def findPublisher (publishers : List PublisherClient) (publisher : Text) (publisherId : Option Text) :
    Option PublisherClient :=
  let publisherName := trim publisher
  let publisherId := (publisherId.map trim).filter fun id => !id.isEmpty
  publishers.find? fun candidate =>
    publisherId == some candidate.id || (!publisherName.isEmpty && candidate.name == publisherName)

section
variable (typeName : EndpointType → Text)

def resolveConsumerOutput (consumer : ConsumerConfig) (publishers : List PublisherClient) :
    Except UpdateConfigError ResolvedConsumerOutput :=
  match consumer.output with
  | .none => .ok .none
  | .response response =>
    if endpointSupportsConsumerResponse consumer.endpoint then
      .ok (.response (normalizeConsumerResponse response))
    else
      .error (.unsupportedCustomResponses ("Consumer " ++ consumer.name ++
        ": custom responses are not supported for endpoint type " ++ typeName consumer.endpoint.endpointType))
  | .publisher publisher publisherId =>
    let publisherName := trim publisher
    let id := (publisherId.map trim).filter fun id => !id.isEmpty
    if publisherName.isEmpty && id.isNone then
      .error (.validation ("Consumer " ++ consumer.name ++
        ": publisher output requires a selected publisher"))
    else
      match findPublisher publishers publisher publisherId with
      | some found => .ok (.publisher found.endpoint)
      | none =>
        .error (.validation ("Consumer " ++ consumer.name ++ ": referenced publisher not found: " ++
          id.getD publisherName))

def ResolvedConsumerOutput.validated : ResolvedConsumerOutput → Endpoint
  | .none => .new .null
  | .publisher endpoint => endpoint
  | .response _ => .new .response

def ResolvedConsumerOutput.started : ResolvedConsumerOutput → Endpoint
  | .none => .new .null
  | .publisher endpoint => endpoint
  | .response (some answer) =>
    .new (.static { body := answer.payload, raw := true, metadata := answer.headers.entries })
  | .response .none => .new .null

def collectorRoute (consumer : ConsumerConfig) (publishers : List PublisherClient) :
    Except UpdateConfigError Route :=
  (resolveConsumerOutput typeName consumer publishers).map fun resolved =>
    { input := consumer.endpoint, output := resolved.started, options := consumer.options }

end

end MqBridge.Ui
