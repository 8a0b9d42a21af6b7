import MqBridgeApp.Lib.Serde

/-!
# Endpoints

The endpoint tree of a route, with the variants the application looks into spelled out and every
other connector's configuration kept as the data it serialises to. A hash map is the list of its
entries in iteration order.
-/

namespace MqBridge

/-- The endpoint variants whose configuration the application passes through. -/
inductive Connector where
  | aws | kafka | nats | file | objectStore | ref | memory | sled | amqp | mongodb | mqtt | websocket
  | ibmmq | zeromq | redisStreams | grpc | sqlx | clickhouse | postgresCdc | streamBuffer
  deriving DecidableEq

def Connector.tag : Connector → Text
  | .aws => "aws"
  | .kafka => "kafka"
  | .nats => "nats"
  | .file => "file"
  | .objectStore => "object_store"
  | .ref => "ref"
  | .memory => "memory"
  | .sled => "sled"
  | .amqp => "amqp"
  | .mongodb => "mongodb"
  | .mqtt => "mqtt"
  | .websocket => "websocket"
  | .ibmmq => "ibmmq"
  | .zeromq => "zeromq"
  | .redisStreams => "redis_streams"
  | .grpc => "grpc"
  | .sqlx => "sqlx"
  | .clickhouse => "clickhouse"
  | .postgresCdc => "postgres_cdc"
  | .streamBuffer => "stream_buffer"

structure HttpConfig where
  url : Text
  basicAuth : Option (Text × Text) := none
  customHeaders : List (Text × Text) := []
  settings : List (Text × Data) := []

structure StaticConfig where
  body : Text
  raw : Bool
  metadata : List (Text × Text)

mutual
inductive Endpoint where
  | mk (middlewares : List Middleware) (endpointType : EndpointType)
inductive Middleware where
  | dlq (endpoint : Endpoint)
  | other (tag : Text) (config : Data) (named : tag ≠ "dlq")
inductive EndpointType where
  | null
  | http (config : HttpConfig) (streamResponseTo : Option Endpoint)
  | static (config : StaticConfig)
  | response
  | fanout (branches : List Endpoint)
  | switch (metadataKey : Text) (cases : List (Text × Endpoint)) (when_ : List (Text × Endpoint))
      (default : Option Endpoint)
  | reader (nested : Endpoint)
  | request (to_ forwardTo : Endpoint)
  | custom (name : Text) (config : Data)
  | connector (kind : Connector) (config : Data)
end

namespace Endpoint

def new (endpointType : EndpointType) : Endpoint := .mk [] endpointType

def middlewares : Endpoint → List Middleware
  | .mk middlewares _ => middlewares

def endpointType : Endpoint → EndpointType
  | .mk _ endpointType => endpointType

end Endpoint

def EndpointType.tag : EndpointType → Text
  | .null => "null"
  | .http _ _ => "http"
  | .static _ => "static"
  | .response => "response"
  | .fanout _ => "fanout"
  | .switch _ _ _ _ => "switch"
  | .reader _ => "reader"
  | .request _ _ => "request"
  | .custom _ _ => "custom"
  | .connector kind _ => kind.tag

/-! ### Serialisation

An endpoint is an object with its middlewares and its configuration under the variant's tag. -/

mutual
def Endpoint.toData : Endpoint → Data
  | .mk middlewares endpointType =>
    .record [("middlewares", .seq (Middleware.toDatas middlewares)),
      (endpointType.tag, endpointType.toData)]
def Middleware.toData : Middleware → Data
  | .dlq endpoint => .record [("dlq", .record [("endpoint", endpoint.toData)])]
  | .other tag config _ => .record [(tag, config)]
def Middleware.toDatas : List Middleware → List Data
  | [] => []
  | middleware :: rest => middleware.toData :: Middleware.toDatas rest
def EndpointType.toData : EndpointType → Data
  | .null => .null
  | .http config streamResponseTo =>
    .record (("url", .str config.url) ::
      ("stream_response_to", Endpoint.optionToData streamResponseTo) ::
      ("basic_auth", .option (fun pair => .seq [.str pair.1, .str pair.2]) config.basicAuth) ::
      ("custom_headers", .textMap config.customHeaders) :: config.settings)
  | .static config =>
    .record [("body", .str config.body), ("raw", .bool config.raw), ("metadata", .textMap config.metadata)]
  | .response => .record []
  | .fanout branches => .seq (Endpoint.toDatas branches)
  | .switch metadataKey cases when_ default =>
    .record [("metadata_key", .str metadataKey), ("cases", .map (Endpoint.caseDatas cases)),
      ("when", .seq (Endpoint.whenDatas when_)), ("default", Endpoint.optionToData default)]
  | .reader nested => nested.toData
  | .request to_ forwardTo => .record [("to", to_.toData), ("forward_to", forwardTo.toData)]
  | .custom name config => .record [("name", .str name), ("config", config)]
  | .connector _ config => config
def Endpoint.optionToData : Option Endpoint → Data
  | some endpoint => endpoint.toData
  | none => .null
def Endpoint.toDatas : List Endpoint → List Data
  | [] => []
  | endpoint :: rest => endpoint.toData :: Endpoint.toDatas rest
def Endpoint.caseDatas : List (Text × Endpoint) → List (Text × Data)
  | [] => []
  | (name, endpoint) :: rest => (name, endpoint.toData) :: Endpoint.caseDatas rest
def Endpoint.whenDatas : List (Text × Endpoint) → List Data
  | [] => []
  | (condition, endpoint) :: rest =>
    .record [("if", .str condition), ("to", endpoint.toData)] :: Endpoint.whenDatas rest
end

def Endpoint.toValue (endpoint : Endpoint) : Json := endpoint.toData.toValue

end MqBridge
