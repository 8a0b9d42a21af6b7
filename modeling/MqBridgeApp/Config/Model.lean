import MqBridgeApp.Endpoint.Model
import Mathlib.Data.List.Nodup

/-!
# The application configuration

The configuration file's data model, with the defaults of its fields and what it serialises to. A
hash map is the list of its entries in iteration order.
-/

namespace MqBridge.Config

inductive ConfigSecurityMode where
  | unencrypted
  | balanced
  | envTemporaryMessages
  | temporaryMessages
  | sensitive
  | durable
  deriving DecidableEq

def ConfigSecurityMode.label : ConfigSecurityMode → Text
  | .unencrypted => "unencrypted"
  | .balanced => "balanced"
  | .envTemporaryMessages => "env_temporary_messages"
  | .temporaryMessages => "temporary_messages"
  | .sensitive => "sensitive"
  | .durable => "durable"

structure ConfigSecurity where
  mode : ConfigSecurityMode := .balanced

structure HeaderRow where
  key : Text := []
  value : Text := []
  enabled : Bool := true

/-- The options of a route, with the defaults its schema states. -/
structure RouteOptions where
  description : Text := []
  concurrency : Nat := 1
  batchSize : Nat := 512
  commitConcurrencyLimit : Nat := 4096
  startupTimeoutMs : Nat := 5000
  reconnectIntervalMs : Nat := 5000
  emptyBatchDelayMs : Nat := 10
  allowFaultInjection : Bool := false
  exitOnEmpty : Bool := false

structure Route where
  input : Endpoint
  output : Endpoint
  options : RouteOptions

structure RouteConfig where
  enabled : Bool := true
  route : Route

structure TextMap where
  entries : List (Text × Text) := []
  distinct : (entries.map Prod.fst).Nodup := by exact List.nodup_nil

def TextMap.retain (keep : Text × Text → Bool) (map : TextMap) : TextMap where
  entries := map.entries.filter keep
  distinct := map.distinct.sublist (List.filter_sublist.map _)

structure ConsumerResponseConfig where
  headers : TextMap := {}
  payload : Text := []

inductive ConsumerOutputConfig where
  | none
  | publisher (publisher : Text) (publisherId : Option Text)
  | response (response : Option ConsumerResponseConfig)

structure ConsumerMessageCaptureConfig where
  enabled : Bool := true
  keepLast : Nat := 100

structure ConsumerConfig where
  id : Text
  name : Text := []
  enabled : Bool := true
  endpoint : Endpoint
  comment : Text := []
  response : Option ConsumerResponseConfig := .none
  output : ConsumerOutputConfig := .none
  messageCapture : ConsumerMessageCaptureConfig := {}
  options : RouteOptions := {}

structure PublisherClient where
  id : Text
  name : Text := []
  endpoint : Endpoint
  comment : Text := []
  payload : Text := []
  headers : List HeaderRow := []
  sortOrder : Option Int := none

structure AppConfig where
  logLevel : Text := "info"
  logger : Text := []
  uiAddr : Text := []
  metricsAddr : Text := []
  plugins : List Text := []
  routes : List (Text × RouteConfig) := []
  consumers : List ConsumerConfig := []
  publishers : List PublisherClient := []
  history : List (Text × Json) := []
  envVars : List (Text × Text) := []
  configSecurity : Option ConfigSecurity := none
  extractSecrets : Bool := false
  defaultTab : Text := []

/-! ### Serialisation

A field that is skipped when it has a particular value is left out. -/

def written (name : Text) (value : Data) : List (Text × Data) := [(name, value)]

def skippedIf (skip : Bool) (name : Text) (value : Data) : List (Text × Data) :=
  if skip then [] else written name value

def RouteOptions.toFields (options : RouteOptions) : List (Text × Data) :=
  [("description", .str options.description), ("concurrency", .num (.ofNat options.concurrency)),
    ("batch_size", .num (.ofNat options.batchSize)),
    ("commit_concurrency_limit", .num (.ofNat options.commitConcurrencyLimit)),
    ("startup_timeout_ms", .num (.ofNat options.startupTimeoutMs)),
    ("reconnect_interval_ms", .num (.ofNat options.reconnectIntervalMs)),
    ("empty_batch_delay_ms", .num (.ofNat options.emptyBatchDelayMs)),
    ("allow_fault_injection", .bool options.allowFaultInjection),
    ("exit_on_empty", .bool options.exitOnEmpty)]

def RouteConfig.toData (config : RouteConfig) : Data :=
  .record (("enabled", .bool config.enabled) :: ("input", config.route.input.toData) ::
    ("output", config.route.output.toData) :: config.route.options.toFields)

def ConsumerResponseConfig.toData (response : ConsumerResponseConfig) : Data :=
  .record [("headers", .textMap response.headers.entries), ("payload", .str response.payload)]

def ConsumerOutputConfig.isNone : ConsumerOutputConfig → Bool
  | .none => true
  | _ => false

def ConsumerOutputConfig.mode : ConsumerOutputConfig → Text
  | .none => "none"
  | .publisher _ _ => "publisher"
  | .response _ => "response"

def ConsumerOutputConfig.toFields (output : ConsumerOutputConfig) : List (Text × Data) :=
  ("mode", .str output.mode) ::
    match output with
    | .none => []
    | .publisher name publisherId =>
      ("publisher", .str name) :: skippedIf publisherId.isNone "publisher_id" (.option .str publisherId)
    | .response answer =>
      skippedIf answer.isNone "response" (.option ConsumerResponseConfig.toData answer)

def ConsumerOutputConfig.toData (output : ConsumerOutputConfig) : Data := .record output.toFields

def ConsumerMessageCaptureConfig.toData (capture : ConsumerMessageCaptureConfig) : Data :=
  .record [("enabled", .bool capture.enabled), ("keep_last", .num (.ofNat capture.keepLast))]

def ConsumerConfig.toFields (consumer : ConsumerConfig) : List (Text × Data) :=
  written "id" (.str consumer.id) ++ written "name" (.str consumer.name) ++
    skippedIf consumer.enabled "enabled" (.bool consumer.enabled) ++
    written "endpoint" consumer.endpoint.toData ++ written "comment" (.str consumer.comment) ++
    skippedIf consumer.response.isNone "response" (.option ConsumerResponseConfig.toData consumer.response) ++
    skippedIf consumer.output.isNone "output" consumer.output.toData ++
    written "message_capture" consumer.messageCapture.toData ++ consumer.options.toFields

def ConsumerConfig.toData (consumer : ConsumerConfig) : Data := .record consumer.toFields

def ConsumerConfig.toValue (consumer : ConsumerConfig) : Json := consumer.toData.toValue

def HeaderRow.toData (row : HeaderRow) : Data :=
  .record [("key", .str row.key), ("value", .str row.value), ("enabled", .bool row.enabled)]

def PublisherClient.toData (publisher : PublisherClient) : Data :=
  .record (written "id" (.str publisher.id) ++ written "name" (.str publisher.name) ++
    written "endpoint" publisher.endpoint.toData ++ written "comment" (.str publisher.comment) ++
    skippedIf publisher.payload.isEmpty "payload" (.str publisher.payload) ++
    skippedIf publisher.headers.isEmpty "headers" (.seq (publisher.headers.map HeaderRow.toData)) ++
    skippedIf publisher.sortOrder.isNone "sort_order"
      (.option (fun order => .num (.ofInt order)) publisher.sortOrder))

def ConfigSecurity.toData (security : ConfigSecurity) : Data := .record [("mode", .str security.mode.label)]

mutual
/-- A value kept as it is: its objects keep their order. -/
def ofJson : Json → Data
  | .null => .null
  | .bool b => .bool b
  | .num n => .num n
  | .str s => .str s
  | .arr items => .seq (ofJsons items)
  | .obj entries => .record (ofEntries entries)
def ofJsons : List Json → List Data
  | [] => []
  | item :: rest => ofJson item :: ofJsons rest
def ofEntries : List (Text × Json) → List (Text × Data)
  | [] => []
  | (key, value) :: rest => (key, ofJson value) :: ofEntries rest
end

def AppConfig.toFields (config : AppConfig) : List (Text × Data) :=
  written "log_level" (.str config.logLevel) ++ written "logger" (.str config.logger) ++
    written "ui_addr" (.str config.uiAddr) ++ written "metrics_addr" (.str config.metricsAddr) ++
    skippedIf config.plugins.isEmpty "plugins" (.seq (config.plugins.map .str)) ++
    skippedIf config.routes.isEmpty "routes"
      (.map (config.routes.map fun entry => (entry.1, entry.2.toData))) ++
    written "consumers" (.seq (config.consumers.map ConsumerConfig.toData)) ++
    written "publishers" (.seq (config.publishers.map PublisherClient.toData)) ++
    skippedIf config.history.isEmpty "history"
      (.map (config.history.map fun entry => (entry.1, ofJson entry.2))) ++
    written "env_vars" (.textMap config.envVars) ++
    skippedIf config.configSecurity.isNone "config_security"
      (.option ConfigSecurity.toData config.configSecurity) ++
    skippedIf (!config.extractSecrets) "extract_secrets" (.bool config.extractSecrets) ++
    written "default_tab" (.str config.defaultTab)

def AppConfig.toValue (config : AppConfig) : Json := (Data.record config.toFields).toValue

end MqBridge.Config
