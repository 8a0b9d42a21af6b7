import MqBridgeApp.Config.Model

/-!
# Migration

What loading and saving do to a configuration: legacy fields and routes become consumers and
publishers, every entity gets an id of its own, and an output names the publisher it refers to.
Generated ids come from a supply, and a function that generates some returns how many are used up.
-/

namespace MqBridge.Config
open Text

/-- The ids a process generates, in order. -/
abbrev IdSupply := Nat → Text

def nextUniqueName (base : Text) (existing : List Text) : Text :=
  if base ∈ existing then
    -- one more candidate than there are names to avoid
    (((List.range (existing.length + 1)).map fun i => base ++ "_" ++ ofNat (i + 1)).find?
      fun candidate => candidate ∉ existing).getD base
  else base

def sameEndpointValue (a b : Endpoint) : Bool := a.toValue.same b.toValue

section Ids
variable {α : Type*} (id : α → Text) (setId : Text → α → α) (ids : IdSupply)

/-- Gives every entity without an id, or with one already seen, a generated one. -/
def ensureIds : List α → List Text → Nat → List α × Nat
  | [], _, used => ([], used)
  | entity :: rest, known, used =>
    if (trim (id entity)).isEmpty || id entity ∈ known then
      let (rest, used') := ensureIds rest (ids used :: known) (used + 1)
      (setId (ids used) entity :: rest, used')
    else
      let (rest, used') := ensureIds rest (id entity :: known) used
      (entity :: rest, used')

end Ids

def AppConfig.ensureEntityIds (ids : IdSupply) (config : AppConfig) (used : Nat) : AppConfig × Nat :=
  let (publishers, used) := ensureIds PublisherClient.id (fun id entity => { entity with id }) ids
    config.publishers [] used
  let (consumers, used) := ensureIds ConsumerConfig.id (fun id entity => { entity with id }) ids
    config.consumers [] used
  ({ config with publishers, consumers }, used)

/-- The output of a consumer, given the publishers' names by id and ids by name. -/
def normalizePublisherOutput (nameOfId idOfName : Text → Option Text) : ConsumerOutputConfig → ConsumerOutputConfig
  | .publisher publisher publisherId =>
    match publisherId.bind nameOfId with
    | some name => .publisher name publisherId
    | none => .publisher (trim publisher) (idOfName (trim publisher))
  | output => output

def AppConfig.normalizeConsumerPublisherOutputs (config : AppConfig) : AppConfig :=
  -- a map collected from pairs keeps the last value of a key
  let publishersById := (config.publishers.map fun publisher => (publisher.id, publisher.name)).reverse
  let publisherIdsByName := (config.publishers.map fun publisher => (publisher.name, publisher.id)).reverse
  { config with
    consumers := config.consumers.map fun consumer =>
      { consumer with
        output := normalizePublisherOutput (fun id => publishersById.lookup id)
          (fun name => publisherIdsByName.lookup name) consumer.output } }

def AppConfig.securityMode (config : AppConfig) : ConfigSecurityMode :=
  match config.configSecurity with
  | some security => security.mode
  | none => if config.extractSecrets then .balanced else .unencrypted

def AppConfig.migrateLegacySecurityMode (config : AppConfig) : AppConfig :=
  { config with configSecurity := some { mode := config.securityMode }, extractSecrets := false }

def migrateConsumerResponse (consumer : ConsumerConfig) : ConsumerConfig :=
  match consumer.output, consumer.response with
  | .none, some response => { consumer with output := .response (some response), response := none }
  | _, _ => consumer

def AppConfig.migrateLegacyConsumerResponse (config : AppConfig) : AppConfig :=
  { config with consumers := config.consumers.map migrateConsumerResponse }

def EndpointType.isNull : EndpointType → Bool
  | .null => true
  | _ => false

/-- Turns one route into a consumer, and into a publisher when none has its output yet. -/
def migrateRoute (ids : IdSupply) (publishers : List PublisherClient) (consumers : List ConsumerConfig)
    (used : Nat) (routeName : Text) (config : RouteConfig) :
    List PublisherClient × List ConsumerConfig × Nat :=
  let normalizedRouteName := trim routeName
  let (publishers, output, used) : List PublisherClient × ConsumerOutputConfig × Nat :=
    if EndpointType.isNull config.route.output.endpointType then (publishers, .none, used)
    else
      match publishers.find? fun publisher => sameEndpointValue publisher.endpoint config.route.output with
      | some existing => (publishers, .publisher existing.name (some existing.id), used)
      | none =>
        let publisherName := nextUniqueName (normalizedRouteName ++ "_publisher") (publishers.map (·.name))
        (publishers ++ [{ id := ids used, name := publisherName, endpoint := config.route.output }],
          .publisher publisherName (some (ids used)), used + 1)
  let consumer : ConsumerConfig :=
    { id := ids used
      name := nextUniqueName normalizedRouteName (consumers.map (·.name))
      enabled := config.enabled
      endpoint := config.route.input
      output
      messageCapture := { enabled := false }
      options := config.route.options }
  (publishers, consumers ++ [consumer], used + 1)

def migrateRoutes (ids : IdSupply) : List (Text × RouteConfig) → List PublisherClient → List ConsumerConfig →
    Nat → List PublisherClient × List ConsumerConfig × Nat
  | [], publishers, consumers, used => (publishers, consumers, used)
  | (name, config) :: rest, publishers, consumers, used =>
    let (publishers, consumers, used) := migrateRoute ids publishers consumers used name config
    migrateRoutes ids rest publishers consumers used

def AppConfig.migrateLegacyRoutes (ids : IdSupply) (config : AppConfig) : AppConfig :=
  let config := config.migrateLegacySecurityMode.migrateLegacyConsumerResponse
  let config := if trim config.defaultTab == ("routes" : Text) then { config with defaultTab := "consumers" } else config
  let (publishers, consumers, used) := migrateRoutes ids config.routes config.publishers config.consumers 0
  let config := { config with routes := [], publishers, consumers }
  (config.ensureEntityIds ids used).1.normalizeConsumerPublisherOutputs

end MqBridge.Config
