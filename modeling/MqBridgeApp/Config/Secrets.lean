import MqBridgeApp.Endpoint.Tree
import MqBridgeApp.Config.Model
import MqBridgeApp.Lib.Assoc

/-!
# Secret extraction

`AppConfig.extractSecrets` moves secrets out of a configuration into a map of environment variables.
What the connectors extract themselves is a parameter; the HTTP headers are extracted here, by a walk
over the endpoint tree.
-/

namespace MqBridge.Config
open Text

def isSensitiveHttpHeader (key : Text) : Bool :=
  toAsciiLowercase (trim key) ∈
    (["authorization", "x-api-key", "api-key", "x-auth-token", "proxy-authorization"] : List Text)

def isSecretRow (header : HeaderRow) : Bool := !header.value.isEmpty && isSensitiveHttpHeader header.key

def sanitizeNameForEnv (name : Text) : Text :=
  (trim name).map fun c => if c.isAlphanum then c.toUpper else '_'

structure Bridge where
  /-- Unicode upper case. -/
  toUppercase : Text → Text
  /-- What the connectors of an endpoint extract: the endpoint without its secrets, and each secret
  under the end of its variable's name. -/
  endpoint : Endpoint → Endpoint × List (Text × Text)
  route : Route → Route × List (Text × Text)
  /-- The order a map of secrets is iterated in. -/
  iterate : List (Text × Text) → List (Text × Text)

section
variable (bridge : Bridge)

def sanitizeIdForEnv (id : Text) : Text := bridge.toUppercase (replaceChar '-' '_' (trim id))

def headerEnvName (key : Text) : Text := bridge.toUppercase (replaceChar '-' '_' (trim key))

def publisherHeaderEnvSuffix (key : Text) : Text := "__HEADERS__" ++ headerEnvName bridge key

/-! ### The walk

Each function returns what is left and the variables it sets, in order. -/

def extractCustomHeaders (headers : List (Text × Text)) (pre : Text) :
    List (Text × Text) × List (Text × Text) :=
  (headers.filter fun header => !isSensitiveHttpHeader header.1,
    (headers.filter fun header => isSensitiveHttpHeader header.1).map fun header =>
      (pre ++ "__HTTP__CUSTOM_HEADERS__" ++ headerEnvName bridge header.1, header.2))

mutual
def extractHttpHeaderSecretsFromEndpoint : Endpoint → Text → Endpoint × List (Text × Text)
  | .mk middlewares endpointType, pre =>
    let (middlewares, fromMiddlewares) := extractFromMiddlewares middlewares pre 0
    let (endpointType, fromType) := extractFromType endpointType pre
    (.mk middlewares endpointType, fromMiddlewares ++ fromType)
def extractFromMiddlewares : List Middleware → Text → Nat → List Middleware × List (Text × Text)
  | [], _, _ => ([], [])
  | .dlq endpoint :: rest, pre, index =>
    let (endpoint, here) := extractHttpHeaderSecretsFromEndpoint endpoint
      (pre ++ "__MIDDLEWARES__" ++ ofNat index ++ "__DLQ__ENDPOINT")
    let (rest, later) := extractFromMiddlewares rest pre (index + 1)
    (.dlq endpoint :: rest, here ++ later)
  | .other tag config named :: rest, pre, index =>
    let (rest, later) := extractFromMiddlewares rest pre (index + 1)
    (.other tag config named :: rest, later)
def extractFromType : EndpointType → Text → EndpointType × List (Text × Text)
  | .http config streamResponseTo, pre =>
    let (customHeaders, secrets) := extractCustomHeaders bridge config.customHeaders pre
    (.http { config with customHeaders } streamResponseTo, secrets)
  | .fanout branches, pre =>
    let (branches, secrets) := extractFromBranches branches pre 0
    (.fanout branches, secrets)
  | .switch metadataKey cases when_ default, pre =>
    let (cases, fromCases) := extractFromCases cases pre
    let (default, fromDefault) := extractFromDefault default pre
    (.switch metadataKey cases when_ default, fromCases ++ fromDefault)
  | .reader nested, pre =>
    let (nested, secrets) := extractHttpHeaderSecretsFromEndpoint nested (pre ++ "__READER")
    (.reader nested, secrets)
  | endpointType, _ => (endpointType, [])
def extractFromBranches : List Endpoint → Text → Nat → List Endpoint × List (Text × Text)
  | [], _, _ => ([], [])
  | nested :: rest, pre, index =>
    let (nested, here) := extractHttpHeaderSecretsFromEndpoint nested (pre ++ "__FANOUT__" ++ ofNat index)
    let (rest, later) := extractFromBranches rest pre (index + 1)
    (nested :: rest, here ++ later)
def extractFromCases : List (Text × Endpoint) → Text → List (Text × Endpoint) × List (Text × Text)
  | [], _ => ([], [])
  | (name, nested) :: rest, pre =>
    let (nested, here) := extractHttpHeaderSecretsFromEndpoint nested
      (pre ++ "__SWITCH__CASES__" ++ bridge.toUppercase name)
    let (rest, later) := extractFromCases rest pre
    ((name, nested) :: rest, here ++ later)
def extractFromDefault : Option Endpoint → Text → Option Endpoint × List (Text × Text)
  | none, _ => (none, [])
  | some nested, pre =>
    let (nested, secrets) := extractHttpHeaderSecretsFromEndpoint nested (pre ++ "__SWITCH__DEFAULT")
    (some nested, secrets)
end

def extractHttpHeaderSecretsFromRoute (route : Route) (pre : Text) : Route × List (Text × Text) :=
  let (input, fromInput) := extractHttpHeaderSecretsFromEndpoint bridge route.input (pre ++ "__INPUT")
  let (output, fromOutput) := extractHttpHeaderSecretsFromEndpoint bridge route.output (pre ++ "__OUTPUT")
  ({ route with input, output }, fromInput ++ fromOutput)

def extractAllSecretsFromEndpoint (endpoint : Endpoint) (pre : Text) : Endpoint × List (Text × Text) :=
  let (endpoint, own) := bridge.endpoint endpoint
  let (endpoint, headers) := extractHttpHeaderSecretsFromEndpoint bridge endpoint pre
  (endpoint, own.map (fun secret => (pre ++ secret.1, secret.2)) ++ headers)

inductive EntityType where
  | consumers
  | publishers

def EntityType.text : EntityType → Text
  | .consumers => "CONSUMERS"
  | .publishers => "PUBLISHERS"

/-- The start of an entity's variables, given its sanitised name or id. -/
def entityPrefix (entityType : EntityType) (part : Text) : Text :=
  "MQB__" ++ entityType.text ++ "__" ++ part

def extractSecretsToAll (name id : Text) (entityType : EntityType) (endpoint : Endpoint) :
    Endpoint × List (Text × Text) :=
  let idPart := sanitizeIdForEnv bridge id
  let finalPrefix := entityPrefix entityType idPart ++ "__"
  let (endpoint, secrets) := extractAllSecretsFromEndpoint bridge endpoint finalPrefix
  let namePart := sanitizeNameForEnv name
  (endpoint, (bridge.iterate (Assoc.insertAll [] secrets)).flatMap fun secret =>
    -- every key of the map starts with the prefix it was made with
    let suffix := (stripPrefix finalPrefix secret.1).getD secret.1
    [(entityPrefix entityType namePart ++ suffix, secret.2), (entityPrefix entityType idPart ++ suffix, secret.2)])

def extractPublisherHeaderSecrets (publisher : PublisherClient) : PublisherClient × List (Text × Text) :=
  let namePart := sanitizeNameForEnv publisher.name
  let idPart := sanitizeIdForEnv bridge publisher.id
  ({ publisher with
      headers := publisher.headers.map fun header =>
        if isSecretRow header then { header with value := [] } else header },
    (publisher.headers.filter isSecretRow).flatMap fun header =>
      let suffix := publisherHeaderEnvSuffix bridge header.key
      [(entityPrefix .publishers namePart ++ suffix, header.value),
        (entityPrefix .publishers idPart ++ suffix, header.value)])

def extractRouteSecrets (name : Text) (config : RouteConfig) : RouteConfig × List (Text × Text) :=
  let pre := "MQB__ROUTES__" ++ sanitizeNameForEnv name ++ "__"
  let (route, own) := bridge.route config.route
  let (route, headers) := extractHttpHeaderSecretsFromRoute bridge route pre
  ({ config with route }, own.map (fun secret => (pre ++ secret.1, secret.2)) ++ headers)

def extractConsumerSecrets (consumer : ConsumerConfig) : ConsumerConfig × List (Text × Text) :=
  let (endpoint, secrets) := extractSecretsToAll bridge consumer.name consumer.id .consumers consumer.endpoint
  ({ consumer with endpoint }, secrets)

def extractPublisherSecrets (publisher : PublisherClient) : PublisherClient × List (Text × Text) :=
  let (endpoint, secrets) := extractSecretsToAll bridge publisher.name publisher.id .publishers publisher.endpoint
  let (publisher, rows) := extractPublisherHeaderSecrets bridge { publisher with endpoint }
  (publisher, secrets ++ rows)

def AppConfig.secretWrites (config : AppConfig) : List (Text × Text) :=
  (config.routes.flatMap fun entry => (extractRouteSecrets bridge entry.1 entry.2).2) ++
    (config.consumers.flatMap fun consumer => (extractConsumerSecrets bridge consumer).2) ++
    config.publishers.flatMap fun publisher => (extractPublisherSecrets bridge publisher).2

def AppConfig.extractSecretValues (config : AppConfig) : AppConfig × List (Text × Text) :=
  ({ config with
      routes := config.routes.map fun entry => (entry.1, (extractRouteSecrets bridge entry.1 entry.2).1)
      consumers := config.consumers.map fun consumer => (extractConsumerSecrets bridge consumer).1
      publishers := config.publishers.map fun publisher => (extractPublisherSecrets bridge publisher).1 },
    Assoc.insertAll [] (config.secretWrites bridge))

end

end MqBridge.Config
