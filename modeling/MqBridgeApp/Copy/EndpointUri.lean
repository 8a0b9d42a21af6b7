import Mathlib.Algebra.Group.Nat.Defs
import MqBridgeApp.Copy.UriErrors
import MqBridgeApp.Endpoint.Model
import MqBridgeApp.Lib.Blanking

/-!
# Endpoint URIs

The endpoint that a `--from` or `--to` value names: a URI whose scheme selects the endpoint and whose query
parameters configure it, followed by middlewares. A parameter may be an endpoint URI itself.
-/

namespace MqBridge.Copy
open Text

/-! ### What the parser relies on -/

/-- A query parameter, decoded. Its value is shorter than the text that it was read from. -/
structure QueryPair (bound : Nat) where
  key : Text
  value : Text
  shorter : value.length < bound

structure ParsedUri (bound : Nat) where
  scheme : Text
  host : Text
  path : Text
  queryPairs : List (QueryPair bound)

/-- The JSON type that a configuration field expects. -/
inductive FieldType where
  | bool
  | integer
  | number
  | object
  | stringLike
deriving DecidableEq

/-- The libraries and the surroundings of the parser. -/
structure UriServices where
  parseUrl : (uri : Text) → Except Text (ParsedUri uri.length)
  formPairs : (query : Text) → List (QueryPair (query.length + 1))
  /-- The URI with these parameters and no fragment, and with its path or without. -/
  connectionUrl : Text → Bool → List (Text × Text) → Text
  parseFloat : Text → Option Json
  parseJson : Text → Except Text Json
  endpointFields : Text → List (Text × FieldType)
  middlewareFields : Text → List (Text × FieldType)
  buildEndpoint : Text → List (Text × Json) → Except Text EndpointType
  buildMiddleware : Text → List (Text × Json) → Except Text Middleware
  readFile : Text → Except Text Text
  isRegistered : Text → Bool

def reject {α : Type} (site : ErrorSite) (quoted value : Text) : Except Rejection α := .error [⟨site, quoted, value⟩]

def withContext {α : Type} (message : ErrorMessage) : Except Rejection α → Except Rejection α
  | .ok a => .ok a
  | .error causes => .error (message :: causes)

/-- The result of a library, whose error is a cause. -/
def orCause {α : Type} : Except Text α → Except Rejection α
  | .ok a => .ok a
  | .error error => .error [⟨.cause, error, []⟩]

def parseDigits (limit : Nat) (digits : Text) : Option Nat :=
  let number := Nat.ofDigitChars 10 digits 0
  if !digits.isEmpty && digits.all Char.isDigit && decide (number < limit) then some number else none

def parseU64 (text : Text) : Option Nat := parseDigits (2 ^ 64) ((stripPrefix "+" text).getD text)

def parseI64 (text : Text) : Option Int :=
  match stripPrefix "-" text with
  | some digits => (parseDigits (2 ^ 63 + 1) digits).map fun number => -(number : Int)
  | none => (parseDigits (2 ^ 63) ((stripPrefix "+" text).getD text)).map Int.ofNat

def trimSlashes (text : Text) : Text := (text.dropWhile (· == '/')).rdropWhile (· == '/')

def beforeQuery (uri : Text) : Text := ((splitOnce '?' uri).map Prod.fst).getD uri

section
variable (services : UriServices)

/-- The JSON value of a parameter, by the type its field expects. -/
def coerceScalar (value : Text) : FieldType → Json
  | .bool => if value = "true" then .bool true else if value = "false" then .bool false else .str value
  | .integer => ((parseI64 value).map fun number => .num (.ofInt number)).getD (.str value)
  | .number => (services.parseFloat value).getD (.str value)
  | .object | .stringLike => .str value

def buildFromUri (tag uri : Text) (config : List (Text × Json)) : Except Rejection Endpoint :=
  (withContext ⟨.couldNotBuild tag, uri, []⟩ (orCause (services.buildEndpoint tag config))).map Endpoint.new

variable {bound : Nat} (uri : Text)

structure StaticParams where
  body : Option Text := none
  raw : Bool := false
  metadata : List (Text × Text) := []

def staticParam (params : StaticParams) (pair : QueryPair bound) : Except Rejection StaticParams :=
  if pair.key = "body" then .ok { params with body := some pair.value }
  else if pair.key = "body_file" then
    (withContext ⟨.bodyFile, pair.value, []⟩ (orCause (services.readFile pair.value))).map
      fun body => { params with body := some body }
  else if pair.key = "raw" then .ok { params with raw := pair.value == ("true" : Text) }
  else .ok { params with metadata := Assoc.insert params.metadata (pair.key, pair.value) }

def staticEndpoint (pairs : List (QueryPair bound)) : Except Rejection Endpoint :=
  (pairs.foldlM (staticParam services) {}).bind fun params =>
    buildFromUri services "static" uri [("body", .str (params.body.getD [])), ("raw", .bool params.raw),
      ("metadata", (Data.textMap params.metadata).toValue)]

def responseEndpoint : List (QueryPair bound) → Except Rejection Endpoint
  | pair :: _ => reject (.responseParam pair.key) uri []
  | [] => .ok (.new .response)

def memoryTopic (host path : Text) : Text :=
  let path := trimSlashes path
  if path.isEmpty then host else if host.isEmpty then path else host ++ '/' :: path

def memoryParam (config : List (Text × Json)) (pair : QueryPair bound) : Except Rejection (List (Text × Json)) :=
  if pair.key = "capacity" then
    .ok (((parseU64 pair.value).map fun number =>
      Assoc.insert config ("capacity", .num (.ofNat number))).getD config)
  else if pair.key = "subscribe_mode" then
    .ok (Assoc.insert config ("subscribe_mode", .bool (pair.value == ("true" : Text))))
  else reject (.memoryParam pair.key) uri []

def memoryEndpoint (parsed : ParsedUri bound) : Except Rejection Endpoint :=
  let topic := memoryTopic parsed.host parsed.path
  if topic.isEmpty then reject .memoryTopic uri []
  else (parsed.queryPairs.foldlM (memoryParam uri) [("topic", .str topic)]).bind (buildFromUri services "memory" uri)

section
variable (nested : (value : Text) → value.length < bound → Except Rejection Endpoint)

def nestedEndpoint (pair : QueryPair bound) : Except Rejection Endpoint :=
  withContext ⟨.nestedEndpoint pair.key, uri, pair.value⟩ (nested pair.value pair.shorter)

/-- A branch that can neither answer the caller nor fail the message for the others. -/
def discardingRequest (branch : Endpoint) : Endpoint := .new (.request branch (.new .null))

def fanoutBranch (branches : List Endpoint) (pair : QueryPair bound) : Except Rejection (List Endpoint) :=
  if pair.key = "to" then (nestedEndpoint uri nested pair).map fun branch => branches ++ [branch]
  else if pair.key = "mirror" then
    (nestedEndpoint uri nested pair).map fun branch => branches ++ [discardingRequest branch]
  else reject (.fanoutParam pair.key) uri []

def fanoutEndpoint (pairs : List (QueryPair bound)) : Except Rejection Endpoint :=
  (pairs.foldlM (fanoutBranch uri nested) []).bind fun branches =>
    if branches.isEmpty then reject .fanoutEmpty uri [] else .ok (.new (.fanout branches))

structure RequestParams where
  to_ : Option Endpoint := none
  forwardTo : Option Endpoint := none

def requestParam (params : RequestParams) (pair : QueryPair bound) : Except Rejection RequestParams :=
  if pair.key = "to" then
    if params.to_.isSome then reject (.requestDuplicate pair.key) uri []
    else (nestedEndpoint uri nested pair).map fun to_ => { params with to_ := some to_ }
  else if pair.key = "forward_to" then
    if params.forwardTo.isSome then reject (.requestDuplicate pair.key) uri []
    else (nestedEndpoint uri nested pair).map fun forwardTo => { params with forwardTo := some forwardTo }
  else reject (.requestParam pair.key) uri []

def requestEndpoint (pairs : List (QueryPair bound)) : Except Rejection Endpoint :=
  (pairs.foldlM (requestParam uri nested) {}).bind fun params =>
    match params.to_ with
    | none => reject .requestNeedsTo uri []
    | some to_ => .ok (.new (.request to_ (params.forwardTo.getD (.new .null))))

structure SwitchParams where
  metadataKey : Option Text := none
  cases : List (Text × Endpoint) := []
  when_ : List (Text × Endpoint) := []
  /-- The condition that waits for its endpoint. -/
  condition : Option Text := none
  default : Option Endpoint := none

def switchParam (params : SwitchParams) (pair : QueryPair bound) : Except Rejection SwitchParams :=
  if pair.key = "metadata_key" then .ok { params with metadataKey := some pair.value }
  else if pair.key = "when" then
    match params.condition with
    | some previous => reject .switchUnfinished uri previous
    | none => .ok { params with condition := some pair.value }
  else if pair.key = "to" then
    match params.condition with
    | none => reject .switchUnpreceded uri pair.value
    | some condition => (nestedEndpoint uri nested pair).map fun to_ =>
      { params with condition := none, when_ := params.when_ ++ [(condition, to_)] }
  else if pair.key = "default" then
    (nestedEndpoint uri nested pair).map fun default => { params with default := some default }
  else
    match stripPrefix "case." pair.key with
    | some name => (nestedEndpoint uri nested pair).map fun endpoint =>
      { params with cases := Assoc.insert params.cases (name, endpoint) }
    | none => reject (.switchParam pair.key) uri []

def switchEndpoint (pairs : List (QueryPair bound)) : Except Rejection Endpoint :=
  (pairs.foldlM (switchParam uri nested) {}).bind fun params =>
    match params.condition with
    | some dangling => reject .switchUnfinished uri dangling
    | none =>
      if !params.when_.isEmpty && (params.metadataKey.isSome || !params.cases.isEmpty) then
        reject .switchMixed uri []
      else if params.when_.isEmpty && params.metadataKey.isNone then reject .switchNeedsKey uri []
      else if params.when_.isEmpty && params.cases.isEmpty then reject .switchNoCases uri []
      else .ok (.new (.switch (params.metadataKey.getD []) params.cases params.when_ params.default))

end

/-! ### Connectors -/

def connectorSchemes : List (Text × List Text) :=
  [("sqlx", ["postgres", "postgresql", "mysql", "mariadb", "sqlite"]),
    ("postgres_cdc", ["postgres-cdc", "pgcdc"]),
    ("nats", ["nats"]),
    ("mongodb", ["mongodb"]),
    ("redis", ["redis", "rediss", "redis_streams"]),
    ("file", ["file"]),
    ("object_store", ["s3", "s3a", "gs", "gcs", "az", "azure", "abfs", "abfss"]),
    ("kafka", ["kafka"]),
    ("mqtt", ["mqtt", "mqtts"]),
    ("amqp", ["amqp", "amqps", "rabbitmq", "rabbitmqs"]),
    ("http", ["http", "https"]),
    ("clickhouse", ["clickhouse", "clickhouses"]),
    ("websocket", ["ws", "wss"]),
    ("grpc", ["grpc", "grpcs"]),
    ("ibmmq", ["ibmmq", "ibm-mq"]),
    ("aws", ["aws", "aws-sqs"]),
    ("zeromq", ["zeromq", "zmq"])]

def connectorTag (scheme : Text) : Option Text :=
  (connectorSchemes.find? fun entry => decide (scheme ∈ entry.2)).map Prod.fst

/-- An unrecognised parameter stays on the connection URL as an option of the driver. -/
def driverOptions (tag : Text) : Bool :=
  tag ∈ (["sqlx", "postgres_cdc", "mongodb", "redis", "amqp", "http", "clickhouse", "websocket"] : List Text)

/-- The value is written as a JSON object or array. -/
def isJsonLiteral (value : Text) : Bool :=
  match trimStart value with
  | c :: _ => c == '{' || c == '['
  | [] => false

structure ConnectorParams where
  config : List (Text × Json) := []
  driverParams : List (Text × Text) := []
  escapedUrl : Option Text := none

def connectorParam (tag : Text) (params : ConnectorParams) (pair : QueryPair bound) : Except Rejection ConnectorParams :=
  if pair.key = "path" ∧ tag = "file" then .ok params
  else if pair.key = "url" ∧ tag ≠ "file" then .ok { params with escapedUrl := some pair.value }
  else
    match (services.endpointFields tag).lookup pair.key with
    | some .object =>
      if !driverOptions tag || isJsonLiteral pair.value then
        (withContext ⟨.jsonLiteral pair.key, uri, pair.value⟩ (orCause (services.parseJson pair.value))).map
          fun value => { params with config := Assoc.insert params.config (pair.key, value) }
      else .ok { params with driverParams := params.driverParams ++ [(pair.key, pair.value)] }
    | none =>
      if driverOptions tag then .ok { params with driverParams := params.driverParams ++ [(pair.key, pair.value)] }
      else reject (.unrecognisedParam pair.key tag) uri []
    | some type =>
      .ok { params with config := Assoc.insert params.config (pair.key, coerceScalar services pair.value type) }

/-- A source is not consumed unless it is asked for. -/
def withConsume (tag : Text) (config : List (Text × Json)) : List (Text × Json) :=
  if tag = "mongodb" ∧ (config.lookup ("consume" : Text)).isNone ∧ (config.lookup ("change_stream" : Text)).isNone then
    Assoc.insert config ("consume", .str "capture_all")
  else config

def replacePrefix : List (Text × Text) → Text → Text
  | [], url => url
  | (before, after) :: rest, url =>
    match stripPrefix before url with
    | some tail => after ++ tail
    | none => replacePrefix rest url

/-- What the driver expects in place of a scheme that only selects the endpoint. -/
def schemeRewrites (tag : Text) : List (Text × Text) :=
  (([("postgres_cdc", [("postgres-cdc://", "postgres://"), ("pgcdc://", "postgres://")]),
    ("kafka", [("kafka://", [])]),
    ("mqtt", [("mqtts://", "ssl://"), ("mqtt://", "tcp://")]),
    ("amqp", [("rabbitmqs://", "amqps://"), ("rabbitmq://", "amqp://")]),
    ("clickhouse", [("clickhouses://", "https://"), ("clickhouse://", "http://")]),
    ("grpc", [("grpcs://", "https://"), ("grpc://", "http://")]),
    ("zeromq", [("zeromq://", "tcp://"), ("zmq://", "tcp://")]),
    ("object_store", [("gcs://", "gs://")])] : List (Text × List (Text × Text))).lookup tag).getD []

def trimEndSlashes (text : Text) : Text := text.rdropWhile (· == '/')

def driverUrl (tag url : Text) : Text :=
  let url := replacePrefix (schemeRewrites tag) url
  if tag = "kafka" then trimEndSlashes url
  else if tag = "ibmmq" then
    match stripPrefix "ibmmq://" url with
    | some rest =>
      match rsplitOnce ':' (trimEndSlashes rest) with
      | some (host, port) => host ++ '(' :: port ++ ")"
      | none => trimEndSlashes rest
    | none => url
  else url

def withConnection (tag : Text) (parsed : ParsedUri bound) (params : ConnectorParams) :
    Except Rejection (List (Text × Json)) :=
  let config := withConsume tag params.config
  if tag = "file" then
    let path := (stripPrefix "file://" (beforeQuery uri)).getD (beforeQuery uri)
    if path.isEmpty then reject .filePath uri [] else .ok (Assoc.insert config ("path", .str path))
  else
    match params.escapedUrl with
    | some url =>
      match params.driverParams with
      | (key, _) :: _ => reject (.escapedParam key) uri []
      | [] => .ok (Assoc.insert config ("url", .str url))
    | none =>
      let path := trimSlashes parsed.path
      let config :=
        if tag = "nats" ∧ ¬ path.isEmpty ∧ (config.lookup ("subject" : Text)).isNone then
          Assoc.insert config ("subject", .str path)
        else config
      let url := driverUrl tag (services.connectionUrl uri (decide (tag ≠ "nats")) params.driverParams)
      .ok (if tag = "aws" then config else Assoc.insert config ("url", .str url))

def connectorEndpoint (tag : Text) (parsed : ParsedUri bound) : Except Rejection Endpoint :=
  ((parsed.queryPairs.foldlM (connectorParam services uri tag) {}).bind (withConnection services uri tag parsed)).bind
    (buildFromUri services tag uri)

structure CustomParams where
  url : Text
  config : List (Text × Text) := []

def customParam (params : CustomParams) (pair : QueryPair bound) : CustomParams :=
  if pair.key = "url" then { params with url := pair.value }
  else { params with config := Assoc.insert params.config (pair.key, pair.value) }

def customEndpoint (name : Text) (parsed : ParsedUri bound) : Endpoint :=
  let params := parsed.queryPairs.foldl customParam { url := beforeQuery uri }
  .new (.custom name (.textMap (Assoc.insert params.config ("url", params.url))))

def parsedEndpoint (parsed : ParsedUri bound)
    (nested : (value : Text) → value.length < bound → Except Rejection Endpoint) : Except Rejection Endpoint :=
  if parsed.scheme = "null" then .ok (.new .null)
  else if parsed.scheme = "static" then staticEndpoint services uri parsed.queryPairs
  else if parsed.scheme = "response" then responseEndpoint uri parsed.queryPairs
  else if parsed.scheme = "fanout" then fanoutEndpoint uri nested parsed.queryPairs
  else if parsed.scheme = "request" then requestEndpoint uri nested parsed.queryPairs
  else if parsed.scheme = "switch" then switchEndpoint uri nested parsed.queryPairs
  else if parsed.scheme = "memory" then memoryEndpoint services uri parsed
  else
    match connectorTag parsed.scheme with
    | some tag => connectorEndpoint services uri tag parsed
    | none =>
      if services.isRegistered parsed.scheme then .ok (customEndpoint uri parsed.scheme parsed)
      else reject (.scheme parsed.scheme) uri []

def baseEndpointFromUri (nested : (value : Text) → value.length < uri.length → Except Rejection Endpoint) :
    Except Rejection Endpoint :=
  (withContext ⟨.notAUri, uri, []⟩ (orCause (services.parseUrl uri))).bind fun parsed =>
    parsedEndpoint services uri parsed nested

def supportedMiddlewares : List Text :=
  ["deduplication", "metrics", "dlq", "retry", "random_panic", "delay", "weak_join", "limiter", "buffer", "cookie_jar",
    "transform", "encryption", "compression"]

def middlewareFieldTypes (tag : Text) : Option (List (Text × FieldType)) :=
  if tag ∈ supportedMiddlewares then some (services.middlewareFields tag)
  else if tag = "custom" then some [("name", .stringLike), ("config", .object)]
  else none

variable (spec : Text)

def middlewareParam (tag : Text) (fields : List (Text × FieldType))
    (nested : (value : Text) → value.length < bound → Except Rejection Endpoint) (config : List (Text × Json))
    (pair : QueryPair bound) : Except Rejection (List (Text × Json)) :=
  if tag = "dlq" ∧ pair.key = "endpoint" then
    (withContext ⟨.dlqEndpoint, pair.value, []⟩ (nested pair.value pair.shorter)).map
      fun endpoint => Assoc.insert config (pair.key, endpoint.toValue)
  else
    match fields.lookup pair.key with
    | some .object =>
      (withContext ⟨.middlewareLiteral pair.key, spec, pair.value⟩ (orCause (services.parseJson pair.value))).map
        fun value => Assoc.insert config (pair.key, value)
    | none =>
      .ok (Assoc.insert config (pair.key, (services.parseJson pair.value).toOption.getD (.str pair.value)))
    | some type => .ok (Assoc.insert config (pair.key, coerceScalar services pair.value type))

def middlewareName : Text := trim (beforeQuery spec)

def middlewareQuery : Text := ((splitOnce '?' spec).map Prod.snd).getD []

def middlewareFromSpec
    (nested : (value : Text) → value.length < (middlewareQuery spec).length + 1 → Except Rejection Endpoint) :
    Except Rejection Middleware :=
  let tag := replaceChar '-' '_' (middlewareName spec)
  match middlewareFieldTypes services tag with
  | none => reject (.unsupportedMiddleware tag) [] []
  | some fields =>
    ((services.formPairs (middlewareQuery spec)).foldlM (middlewareParam services spec tag fields nested) []).bind
      fun config => withContext ⟨.couldNotBuildMiddleware tag, spec, []⟩ (orCause (services.buildMiddleware tag config))

def baseSegment : Text := ((splitOnce '|' uri).map Prod.fst).getD uri

def middlewareSpecs : List Text := ((splitOnce '|' uri).map fun parts => parts.2.splitOn '|').getD []

end

theorem baseSegment_length (uri : Text) : (baseSegment uri).length ≤ uri.length := by
  unfold baseSegment
  cases split : splitOnce '|' uri with
  | none => exact Nat.le_refl _
  | some parts =>
    obtain ⟨base, rest⟩ := parts
    obtain ⟨rfl, -⟩ := splitOnce_eq_some.mp split
    simp only [Option.map_some, Option.getD_some, List.length_append, List.length_cons]
    omega

theorem middlewareQuery_length (spec : Text) : (middlewareQuery spec).length ≤ spec.length := by
  unfold middlewareQuery
  cases split : splitOnce '?' spec with
  | none => exact Nat.zero_le _
  | some parts =>
    obtain ⟨name, query⟩ := parts
    obtain ⟨rfl, -⟩ := splitOnce_eq_some.mp split
    simp only [Option.map_some, Option.getD_some, List.length_append, List.length_cons]
    omega

theorem middlewareSpecs_length {uri spec : Text} (member : spec ∈ middlewareSpecs uri) : spec.length < uri.length := by
  unfold middlewareSpecs at member
  cases split : splitOnce '|' uri with
  | none =>
    rw [split] at member
    cases member
  | some parts =>
    obtain ⟨base, rest⟩ := parts
    rw [split] at member
    obtain ⟨rfl, -⟩ := splitOnce_eq_some.mp split
    have within : spec.length ≤ rest.length := Blanking.length_le_of_mem_splitOn member
    simp only [List.length_append, List.length_cons]
    omega

section
variable (services : UriServices)

def pushMiddleware (uri : Text) (nested : (value : Text) → value.length < uri.length → Except Rejection Endpoint)
    (middlewares : List Middleware) (spec : { spec : Text // spec ∈ middlewareSpecs uri }) :
    Except Rejection (List Middleware) :=
  (withContext ⟨.middleware, uri, spec.1⟩ (middlewareFromSpec services spec.1 fun value shorter =>
    nested value (by
      have inside := middlewareQuery_length spec.1
      have within := middlewareSpecs_length spec.2
      omega))).map fun middleware => middlewares ++ [middleware]

/-- The endpoint of a URI, with the middlewares that follow it. -/
def endpointFromUri (uri : Text) : Except Rejection Endpoint :=
  (baseEndpointFromUri services (baseSegment uri) fun value _ => endpointFromUri value).bind fun endpoint =>
    ((middlewareSpecs uri).attach.foldlM (pushMiddleware services uri fun value _ => endpointFromUri value)
      endpoint.middlewares).map fun middlewares => .mk middlewares endpoint.endpointType
termination_by uri.length
decreasing_by
  · have within := baseSegment_length uri
    omega
  · assumption

end

end MqBridge.Copy
