import MqBridgeApp.Config.Save
import MqBridgeApp.Lib.JsonText

/-!
# Loading

A file is decrypted when it is an encrypted one, the variables in its text are expanded, and the text
is read as settings. Routes at the top level are moved under `routes`, and the settings are read as a
configuration, which is then migrated.
-/

namespace MqBridge.Config
open Text

/-- What loading relies on outside the application. -/
structure Crates where
  /-- A text with its placeholders replaced by the values of variables. -/
  expand : (Text → Option Text) → Text → Text
  /-- A text read as a plain value. -/
  value : FileFormat → Text → Option Json
  /-- The settings in a text, over defaults. -/
  build : List (Text × Json) → Option (FileFormat × Text) → Option Json
  string : Json → Option Text
  bool : Json → Option Bool
  nat : Json → Option Nat
  int : Json → Option Int
  items : Json → Option (List Json)
  table : Json → Option (List (Text × Json))
  /-- The fields of a struct, given their names in order. -/
  fields : List Text → Json → Option (List (Text × Json))
  endpoint : Json → Option Endpoint
  route : List (Text × Json) → Option Route
  routeOptions : List (Text × Json) → Option RouteOptions

/-- The value of a field under one of its names, if it is given. A field given twice is an error. -/
def givenField (names : List Text) (entries : List (Text × Json)) : Option (Option Json) :=
  match entries.filter fun entry => decide (entry.1 ∈ names) with
  | [] => some none
  | [entry] => some (some entry.2)
  | _ => none

def readRequired {α : Type*} (names : List Text) (read : Json → Option α) (entries : List (Text × Json)) : Option α :=
  (givenField names entries).bind fun given => given.bind read

def readOptional {α : Type*} (names : List Text) (default : α) (read : Json → Option α)
    (entries : List (Text × Json)) : Option α :=
  (givenField names entries).bind fun given => given.elim (some default) read

def readNullable {α : Type*} (read : Json → Option α) : Json → Option (Option α)
  | .null => some none
  | value => (read value).map some

def readEntities {α : Type*} (read : Nat → Json → Option (α × Nat)) : List Json → Nat → Option (List α × Nat)
  | [], used => some ([], used)
  | item :: rest, used =>
    (read used item).bind fun first =>
      (readEntities read rest first.2).map fun others => (first.1 :: others.1, others.2)

def TextMap.ofEntries (entries : List (Text × Text)) : TextMap where
  entries := Assoc.insertAll [] entries
  distinct := Assoc.nodup_insertAll List.nodup_nil

section Reading
variable (crates : Crates)

def Crates.list {α : Type*} (read : Json → Option α) (value : Json) : Option (List α) :=
  (crates.items value).bind fun items => items.mapM read

/-- A hash map, where the last entry of a key counts. -/
def Crates.hashMap {α : Type*} (read : Json → Option α) (value : Json) : Option (List (Text × α)) :=
  (crates.table value).bind fun entries =>
    (entries.mapM fun entry => (read entry.2).map fun value => (entry.1, value)).map (Assoc.insertAll [])

def ConfigSecurityMode.ofLabel (label : Text) : Option ConfigSecurityMode :=
  [ConfigSecurityMode.unencrypted, .balanced, .envTemporaryMessages, .temporaryMessages, .sensitive, .durable].find?
    fun mode => mode.label == label

def ConfigSecurity.read (value : Json) : Option ConfigSecurity := do
  let entries ← crates.fields ["mode"] value
  let mode ← readOptional ["mode"] .balanced (fun given => (crates.string given).bind ConfigSecurityMode.ofLabel) entries
  return { mode }

def HeaderRow.read (value : Json) : Option HeaderRow := do
  let entries ← crates.fields ["key", "value", "enabled"] value
  let key ← readOptional ["key"] [] crates.string entries
  let value ← readOptional ["value"] [] crates.string entries
  let enabled ← readOptional ["enabled"] true crates.bool entries
  return { key, value, enabled }

def RouteConfig.read (value : Json) : Option RouteConfig := do
  let entries ← crates.table value
  let enabled ← readOptional ["enabled"] true crates.bool entries
  let route ← crates.route (entries.filter fun entry => entry.1 != ("enabled" : Text))
  return { enabled, route }

def ConsumerResponseConfig.read (value : Json) : Option ConsumerResponseConfig := do
  let entries ← crates.fields ["headers", "payload"] value
  let headers ← readOptional ["headers"] {} (fun given => (crates.hashMap crates.string given).map TextMap.ofEntries) entries
  let payload ← readOptional ["payload"] [] crates.string entries
  return { headers, payload }

/-- The output of a mode, which is a tag among the output's fields. -/
def readOutputAs (mode : Text) (entries : List (Text × Json)) : Option ConsumerOutputConfig :=
  if mode = ("none" : Text) then some .none
  else if mode = ("publisher" : Text) then do
    let publisher ← readRequired ["publisher"] crates.string entries
    let publisherId ← readOptional ["publisher_id"] none (readNullable crates.string) entries
    return .publisher publisher publisherId
  else if mode = ("response" : Text) then
    (readOptional ["response"] none (readNullable (ConsumerResponseConfig.read crates)) entries).map .response
  else none

def ConsumerOutputConfig.read (value : Json) : Option ConsumerOutputConfig := do
  let entries ← crates.table value
  let mode ← readRequired ["mode"] crates.string entries
  readOutputAs crates mode entries

def ConsumerMessageCaptureConfig.read (value : Json) : Option ConsumerMessageCaptureConfig := do
  let entries ← crates.fields ["enabled", "keep_last"] value
  let enabled ← readOptional ["enabled"] true crates.bool entries
  let keepLast ← readOptional ["keep_last", "keepLast"] 100 crates.nat entries
  return { enabled, keepLast }

def Crates.readId (ids : IdSupply) (used : Nat) (entries : List (Text × Json)) : Option (Text × Nat) :=
  readOptional ["id"] (ids used, used + 1) (fun given => (crates.string given).map fun id => (id, used)) entries

/-- The fields of a consumer that are not options of its route. -/
def consumerFields : List Text :=
  ["id", "name", "enabled", "endpoint", "comment", "response", "output", "message_capture"]

def ConsumerConfig.read (ids : IdSupply) (used : Nat) (value : Json) : Option (ConsumerConfig × Nat) := do
  let entries ← crates.table value
  let (id, used) ← crates.readId ids used entries
  let name ← readOptional ["name"] [] crates.string entries
  let enabled ← readOptional ["enabled"] true crates.bool entries
  let endpoint ← readRequired ["endpoint"] crates.endpoint entries
  let comment ← readOptional ["comment"] [] crates.string entries
  let response ← readOptional ["response"] none (readNullable (ConsumerResponseConfig.read crates)) entries
  let output ← readOptional ["output"] .none (ConsumerOutputConfig.read crates) entries
  let messageCapture ← readOptional ["message_capture"] {} (ConsumerMessageCaptureConfig.read crates) entries
  let options ← crates.routeOptions (entries.filter fun entry => decide (entry.1 ∉ consumerFields))
  return ({ id, name, enabled, endpoint, comment, response, output, messageCapture, options }, used)

def publisherFields : List Text := ["id", "name", "endpoint", "comment", "payload", "headers", "sort_order"]

def PublisherClient.read (ids : IdSupply) (used : Nat) (value : Json) : Option (PublisherClient × Nat) := do
  let entries ← crates.fields publisherFields value
  let (id, used) ← crates.readId ids used entries
  let name ← readOptional ["name"] [] crates.string entries
  let endpoint ← readRequired ["endpoint"] crates.endpoint entries
  let comment ← readOptional ["comment"] [] crates.string entries
  let payload ← readOptional ["payload"] [] crates.string entries
  let headers ← readOptional ["headers"] [] (crates.list (HeaderRow.read crates)) entries
  let sortOrder ← readOptional ["sort_order", "sortOrder"] none (readNullable crates.int) entries
  return ({ id, name, endpoint, comment, payload, headers, sortOrder }, used)

def appFields : List Text :=
  ["log_level", "logger", "ui_addr", "metrics_addr", "plugins", "routes", "consumers", "publishers", "history",
    "env_vars", "config_security", "extract_secrets", "default_tab"]

/-- The names that settings of the application are read under. -/
def settingNames : List Text := "envVars" :: appFields

/-- A configuration, and how many ids were generated for it. -/
def AppConfig.read (ids : IdSupply) (settings : Json) : Option (AppConfig × Nat) := do
  let entries ← crates.fields appFields settings
  let logLevel ← readOptional ["log_level"] ("info" : Text) crates.string entries
  let logger ← readOptional ["logger"] [] crates.string entries
  let uiAddr ← readOptional ["ui_addr"] [] crates.string entries
  let metricsAddr ← readOptional ["metrics_addr"] [] crates.string entries
  let plugins ← readOptional ["plugins"] [] (crates.list crates.string) entries
  let routes ← readOptional ["routes"] [] (crates.hashMap (RouteConfig.read crates)) entries
  let (consumers, used) ← readOptional ["consumers"] ([], 0)
    (fun given => (crates.items given).bind fun items => readEntities (ConsumerConfig.read crates ids) items 0) entries
  let (publishers, used) ← readOptional ["publishers"] ([], used)
    (fun given => (crates.items given).bind fun items => readEntities (PublisherClient.read crates ids) items used) entries
  let history ← readOptional ["history"] [] (crates.hashMap some) entries
  let envVars ← readOptional ["env_vars", "envVars"] [] (crates.hashMap crates.string) entries
  let configSecurity ← readOptional ["config_security"] none (readNullable (ConfigSecurity.read crates)) entries
  let extractSecrets ← readOptional ["extract_secrets"] false crates.bool entries
  let defaultTab ← readOptional ["default_tab"] [] crates.string entries
  return ({ logLevel, logger, uiAddr, metricsAddr, plugins, routes, consumers, publishers, history, envVars,
            configSecurity, extractSecrets, defaultTab }, used)

end Reading

/-- The top-level keys that belong to the application: those a default configuration has, and those
it skips. -/
def appLevelFields : List Text :=
  (AppConfig.toFields {}).map Prod.fst ++
    (["envVars", "routes", "plugins", "history", "config_security", "extract_secrets"] : List Text)

def singleRouteName : Text := "route"

def hasKey (key : Text) (entries : List (Text × Json)) : Bool := (entries.lookup key).isSome

def isAppField (entry : Text × Json) : Bool := decide (entry.1 ∈ appLevelFields)

def isNamedRoute (entry : Text × Json) : Bool :=
  !isAppField entry &&
    match entry.2 with
    | .obj route => hasKey "input" route
    | _ => false

def withRoutes (entries : List (Text × Json)) (routes : Json) : Json :=
  .obj (entries ++ [(("routes" : Text), routes)])

/-- Moves routes written at the top level under `routes`, if there are any. -/
def liftBareRoutes : Json → Option Json
  | .obj entries =>
    if hasKey "routes" entries then none
    else if hasKey "input" entries then
      some (withRoutes (entries.filter isAppField)
        (.obj [(singleRouteName, .obj (entries.filter fun entry => !isAppField entry))]))
    else if (entries.filter isNamedRoute).isEmpty then none
    else some (withRoutes (entries.filter fun entry => !isNamedRoute entry) (.obj (entries.filter isNamedRoute)))
  | _ => none

section Loading
variable (crates : Crates) (formats : Formats) (cipher : Cipher) (source : MasterKeySource)

def Crates.extractInlineEnvVars (content : Text) (format : FileFormat) : List (Text × Text) :=
  match crates.value format content with
  | none => []
  | some root =>
    match (root.get? "env_vars").or (root.get? "envVars") with
    | some (.obj entries) =>
      entries.filterMap fun entry =>
        match entry.2 with
        | .str value => some (entry.1, value)
        | _ => none
    | _ => []

/-- A variable of the process, or one that the text gives itself. -/
def Crates.expandVariables (env : Text → Option Text) (content : Text) (format : FileFormat) : Text :=
  crates.expand (fun key => (env key).or ((crates.extractInlineEnvVars content format).lookup key)) content

def settingDefaults : List (Text × Json) := [("log_level", .str "info")]

def Crates.settings (env : Text → Option Text) (path : Text) : Option Text → Option Json
  | none => crates.build settingDefaults none
  | some content =>
    let format := configFileFormatFromPath path
    (effectiveContent formats cipher source content format).toOption.bind fun effective =>
      crates.build settingDefaults (some (format, crates.expandVariables env effective format))

def Crates.configOf (ids : IdSupply) (settings : Json) : Option AppConfig :=
  let read : Option (AppConfig × Nat) :=
    match liftBareRoutes settings with
    | some lifted => (crates.build [] (some (.json, lifted.render))).bind (AppConfig.read crates ids)
    | none => AppConfig.read crates ids settings
  read.map fun (config, used) => config.migrateLegacyRoutes fun n => ids (used + n)

def Crates.loadConfigAtPath (ids : IdSupply) (env : Text → Option Text) (path : Text) (file : Option Text) :
    Option AppConfig :=
  (crates.settings formats cipher source env path file).bind (crates.configOf ids)

end Loading

end MqBridge.Config
