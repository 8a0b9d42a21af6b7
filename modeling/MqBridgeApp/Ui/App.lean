import MqBridgeApp.Config.Save
import MqBridgeApp.Lib.JsonText
import MqBridgeApp.Ui.Consumers

/-!
# The application behind the UI

Its state and the calls that change it, each as the steps it takes one lock at a time.
-/

namespace MqBridge.Ui
open Text Config

structure RouteHandle where
  route : Route
  ended : Bool

structure UiApp where
  config : AppConfig
  handles : List (Text × RouteHandle)
  file : Option Text
  storageSecurity : Json

structure Services where
  storage : Storage
  configFilePath : Text
  trustedPluginPaths : List Text
  canonicalPluginPaths : List Text → List (Text × Text) → Except Text (List Text)
  typeName : EndpointType → Text
  checkRoute : Endpoint → Endpoint → Text → Except Text Unit
  isRef : Endpoint → Endpoint → Bool
  registerOutputEndpoint : Endpoint → Endpoint → Except Text Unit
  /-- The error of a route that does not start. -/
  runRoute : Route → Text → Except Text Unit
  storageSavePrepare : Option (AppConfig → Except Text Unit)
  storageSecurityResolver : Option (AppConfig → Json)

structure UpdatePlan where
  config : AppConfig
  consumers : List ConsumerConfig

section
variable (services : Services)

def startupOnly : Text :=
  "Native plugins are startup-only; edit the trusted startup configuration and restart the application to change them"

def checkPlugins (new : AppConfig) : Except UpdateConfigError Unit :=
  match services.canonicalPluginPaths new.plugins new.envVars with
  | .error error => .error (.validation (error ++ ". " ++ startupOnly))
  | .ok requested =>
    if (requested.all fun path => path ∈ services.trustedPluginPaths) &&
        (services.trustedPluginPaths.all fun path => path ∈ requested) then .ok ()
    else .error (.validation startupOnly)

def validateConsumer (publishers : List PublisherClient) (consumer : ConsumerConfig) :
    Except UpdateConfigError Unit :=
  match resolveConsumerOutput services.typeName consumer publishers with
  | .error error => .error error
  | .ok resolved =>
    let key := consumerRuntimeKey consumer
    match services.checkRoute consumer.endpoint resolved.validated key with
    | .ok () => .ok ()
    | .error error =>
      .error (.validation ("Consumer " ++ (if consumer.name.isEmpty then key else consumer.name) ++
        ": validation failed: " ++ error))

/-- Runs a fallible step on every element, up to the first failure. -/
def forEach {α ε : Type*} (step : α → Except ε Unit) : List α → Except ε Unit
  | [] => .ok ()
  | a :: rest =>
    match step a with
    | .ok () => forEach step rest
    | .error error => .error error

/-- The part of an update that changes nothing: validation and the storage hook. -/
def planUpdate (new : AppConfig) : Except UpdateConfigError UpdatePlan :=
  match checkPlugins services new with
  | .error error => .error error
  | .ok () =>
    let config := new.migrateLegacyRoutes services.storage.ids
    let consumers := config.consumers.map normalizeConsumer
    match forEach (validateConsumer services config.publishers) consumers with
    | .error error => .error error
    | .ok () =>
      match (services.storageSavePrepare.map fun prepare => prepare config).getD (.ok ()) with
      | .error error => .error (.other ("Failed to prepare encrypted storage: " ++ error))
      | .ok () => .ok { config, consumers }

/-- Whether the route under `key` is stopped when `old` gives way to `new`. -/
def shouldStop (old new : List ConsumerConfig) (key : Text) : Bool :=
  match findByKey old key, findByKey new key with
  | some oldConsumer, some newConsumer => !oldConsumer.toValue.same newConsumer.toValue
  | _, _ => true

def stopStale (old new : List ConsumerConfig) (handles : List (Text × RouteHandle)) : List (Text × RouteHandle) :=
  handles.filter fun handle => !shouldStop old new handle.1

def registerConsumer (publishers : List PublisherClient) (consumer : ConsumerConfig) :
    Except UpdateConfigError Unit :=
  match resolveConsumerOutput services.typeName consumer publishers with
  | .error error => .error error
  | .ok resolved =>
    if services.isRef consumer.endpoint resolved.validated then
      match services.registerOutputEndpoint consumer.endpoint resolved.validated with
      | .ok () => .ok ()
      | .error error => .error (.registerOutputEndpoint ("register_output_endpoint failed: " ++ error))
    else .ok ()

def UpdatePlan.final (plan : UpdatePlan) : AppConfig := { plan.config with consumers := plan.consumers }

/-- Registers the outputs and saves: the state of the file, and the error of the step that failed. -/
def commitUpdate (plan : UpdatePlan) (file : Option Text) : Option Text × Except UpdateConfigError Unit :=
  match forEach (registerConsumer services plan.config.publishers) plan.consumers with
  | .error error => (file, .error error)
  | .ok () =>
    match plan.final.saveWithSecretStore services.storage services.configFilePath file with
    | (file, .ok ()) => (file, .ok ())
    | (file, .error error) => (file, .error (.other ("Failed to save configuration: " ++ error)))

/-- What the UI shows of the storage after the update. -/
def UpdatePlan.storageSecurity (plan : UpdatePlan) (current : Json) : Json :=
  (services.storageSecurityResolver.map fun resolve => resolve plan.final).getD current

def updateConfig (app : UiApp) (new : AppConfig) : UiApp × Except UpdateConfigError Unit :=
  match planUpdate services new with
  | .error error => (app, .error error)
  | .ok plan =>
    let app := { app with handles := stopStale app.config.consumers plan.consumers app.handles }
    match commitUpdate services plan app.file with
    | (file, .error error) => ({ app with file }, .error error)
    | (file, .ok ()) =>
      ({ app with
          file
          storageSecurity := plan.storageSecurity services app.storageSecurity
          config := plan.final }, .ok ())

/-- Starts a consumer's route, unless it runs already or has no input. -/
def startUiCollectorRoute (consumer : ConsumerConfig) (publishers : List PublisherClient)
    (handles : List (Text × RouteHandle)) : List (Text × RouteHandle) × Except Text Unit :=
  if EndpointType.isNull consumer.endpoint.endpointType then (handles, .ok ())
  else
    let key := consumerRuntimeKey consumer
    if (handles.lookup key).any fun handle => !handle.ended then (handles, .ok ())
    else
      match collectorRoute services.typeName consumer publishers with
      | .error error => (handles, .error error.message)
      | .ok route =>
        match services.runRoute route key with
        | .error error => (handles, .error error)
        | .ok () => (Assoc.insert handles (key, { route, ended := false }), .ok ())

def findByLookup (consumers : List ConsumerConfig) (lookup : Text) : Option ConsumerConfig :=
  consumers.find? fun consumer => consumerMatchesLookup consumer lookup

def startConsumer (app : UiApp) (lookup : Text) : UiApp × Except Text Bool :=
  match findByLookup app.config.consumers lookup with
  | none => (app, .ok false)
  | some consumer =>
    let (handles, result) := startUiCollectorRoute services consumer app.config.publishers app.handles
    ({ app with handles }, result.map fun _ => true)

def stopKey (config : AppConfig) (lookup : Text) : Text :=
  ((findByLookup config.consumers lookup).map consumerRuntimeKey).getD lookup

def stopConsumer (app : UiApp) (lookup : Text) : UiApp × Bool :=
  let key := stopKey app.config lookup
  ({ app with handles := app.handles.filter fun handle => handle.1 != key }, (app.handles.lookup key).isSome)

/-- The route under `key` ends by itself. -/
def endRoute (app : UiApp) (key : Text) : UiApp :=
  { app with
    handles := app.handles.map fun handle =>
      if handle.1 == key then (handle.1, { handle.2 with ended := true }) else handle }

end

def workingServices : Services where
  storage :=
    { bridge := { toUppercase := toAsciiUppercase, endpoint := fun e => (e, []), route := fun r => (r, []), iterate := id }
      ids := fun n => "id-" ++ ofNat n
      storeSecrets := fun _ => .ok ()
      createParent := fun _ => .ok ()
      serialize := fun _ value => .ok value.render
      encrypt := fun plaintext _ _ => .ok plaintext
      write := fun _ _ => .ok () }
  configFilePath := "config.yml"
  trustedPluginPaths := []
  canonicalPluginPaths paths _ := .ok paths
  typeName := EndpointType.tag
  checkRoute _ _ _ := .ok ()
  isRef _ _ := false
  registerOutputEndpoint _ _ := .ok ()
  runRoute _ _ := .ok ()
  storageSavePrepare := none
  storageSecurityResolver := none

end MqBridge.Ui
