import MqBridgeApp.Lib.JavaScript

/-!
# Publishers and consumers in the browser

The views keep each entity as an object and normalise it when it comes from outside: every field gets
a default, and an entity without an id gets one.
-/

namespace MqBridge.Workspace
open Text

/-- What the views rely on: the defaults of an endpoint, the id of an entity that has none, and
`Math.max(1, n)`. -/
structure Forms where
  normalizeEndpoint : Option Json → Json
  createLocalEntityId : Record → Text
  atLeastOne : JsonNumber → JsonNumber

/-- `String(value ?? "")` -/
def nullishText : Option Json → Text
  | none | some .null => []
  | some value => value.toText

/-- `String(id || "").trim()`, or a new id. -/
def Forms.entityId (forms : Forms) (input : Record) : Text :=
  let id := jsTrim (Json.textOr [] (input.prop "id"))
  if id.isEmpty then forms.createLocalEntityId input else id

def normalizeHeaderRow (row : Json) : Json :=
  .obj [("key", .str (Json.textOr [] (row.get? "key"))), ("value", .str (Json.textOr [] (row.get? "value"))),
    ("enabled", .bool (row.get? "enabled" != some (.bool false)))]

def normalizePublisher (forms : Forms) (input : Record) : Record :=
  let next := input.assign "id" (.str (forms.entityId input))
  let next := next.assign "name" (.str (Json.textOr [] (input.prop "name")))
  let next := next.assign "comment" (.str (Json.textOr [] (input.prop "comment")))
  let next := next.assign "endpoint" (forms.normalizeEndpoint (input.prop "endpoint"))
  let next := next.assign "payload" (.str (Json.textOr "{}" (input.prop "payload")))
  next.assign "headers" (.arr ((Json.items (input.prop "headers")).map normalizeHeaderRow))

def normalizeMessageCapture (forms : Forms) (input : Option Json) : Json :=
  let enabled :=
    match input.bind (Json.get? "enabled") with
    | none | some .null => .bool true
    | some enabled => enabled
  let keepLast :=
    match input.bind (Json.get? "keep_last") with
    | some (.num n) => forms.atLeastOne n
    | _ => .ofNat 100
  .obj [("enabled", enabled), ("keep_last", .num keepLast)]

def normalizeOutput (input : Option Json) : Json :=
  match (Json.asObject input).lookup ("mode" : Text) with
  | some (.str mode) =>
    if mode = ("publisher" : Text) then
      let publisher := Json.textOr [] ((Json.asObject input).lookup ("publisher" : Text))
      let publisherId := jsTrim (Json.textOr [] ((Json.asObject input).lookup ("publisher_id" : Text)))
      let output : Record := [("mode", .str mode), ("publisher", .str publisher)]
      .obj (if publisherId.isEmpty then output else output.assign "publisher_id" (.str publisherId))
    else if mode = ("response" : Text) then
      let response :=
        match (Json.asObject input).lookup ("response" : Text) with
        | none | some .null => .obj [("payload", .str []), ("headers", .obj [])]
        | some response => response
      .obj [("mode", .str mode), ("response", response)]
    else .obj [("mode", .str "none")]
  | _ => .obj [("mode", .str "none")]

def normalizeConsumerResponse (response : Option Json) : Json :=
  match response with
  | some (.obj entries) =>
    let headers := (Json.asObject (entries.lookup ("headers" : Text))).map fun header =>
      (jsTrim header.1, jsTrim header.2.toText)
    let headers := Assoc.insertAll [] (headers.filter fun header => !header.1.isEmpty && !header.2.isEmpty)
    let payload :=
      match entries.lookup ("payload" : Text) with
      | some (.str payload) => payload
      | _ => []
    if headers.isEmpty && (jsTrim payload).isEmpty then .null
    else .obj [("headers", .obj (headers.map fun header => (header.1, .str header.2))), ("payload", .str payload)]
  | _ => .null

def normalizeConsumerConfig (forms : Forms) (input : Record) : Record :=
  let next := input.assign "id" (.str (forms.entityId input))
  let next := next.assign "name" (.str (nullishText (input.prop "name")))
  let next := next.assign "endpoint" (forms.normalizeEndpoint (input.prop "endpoint"))
  let next := next.assign "message_capture" (normalizeMessageCapture forms (input.prop "message_capture"))
  let next := next.assign "output" (normalizeOutput (input.prop "output"))
  next.assign "response" (normalizeConsumerResponse (input.prop "response"))

def getEndpointType (endpoint : Record) : Text :=
  match (["ref", "static"] : List Text).find? fun key => (endpoint.lookup key).isSome with
  | some key => key
  | none => ((endpoint.map Prod.fst).find? fun key => key != ("middlewares" : Text)).getD "http"

def normalizeScalarEndpointValue (endpointType : Text) (value : Option Json) : Json :=
  match value.bind (Json.get? endpointType), value with
  | some (.str text), _ => .str text
  | _, some (.str text) => .str text
  | _, _ => .str []

/-- The value of a `static` or `ref` endpoint as a text. -/
def settleScalarEndpoint : Option Json → Option Json
  | some (.obj endpoint) =>
    let endpointType := getEndpointType endpoint
    if endpointType = ("static" : Text) ∨ endpointType = ("ref" : Text) then
      some (.obj (Record.assign endpoint endpointType
        (normalizeScalarEndpointValue endpointType (endpoint.lookup endpointType))))
    else some (.obj endpoint)
  | endpoint => endpoint

section
variable (forms : Forms) (input : Record)

@[simp] theorem normalizePublisher_id :
    (normalizePublisher forms input).lookup ("id" : Text) = some (.str (forms.entityId input)) := by
  simp [normalizePublisher, lit]

@[simp] theorem normalizePublisher_name :
    (normalizePublisher forms input).lookup ("name" : Text) = some (.str (Json.textOr [] (input.prop "name"))) := by
  simp [normalizePublisher, lit]

@[simp] theorem normalizePublisher_endpoint :
    (normalizePublisher forms input).lookup ("endpoint" : Text) =
      some (forms.normalizeEndpoint (input.prop "endpoint")) := by
  simp [normalizePublisher, lit]

@[simp] theorem normalizeConsumerConfig_id :
    (normalizeConsumerConfig forms input).lookup ("id" : Text) = some (.str (forms.entityId input)) := by
  simp [normalizeConsumerConfig, lit]

@[simp] theorem normalizeConsumerConfig_name :
    (normalizeConsumerConfig forms input).lookup ("name" : Text) = some (.str (nullishText (input.prop "name"))) := by
  simp [normalizeConsumerConfig, lit]

@[simp] theorem normalizeConsumerConfig_endpoint :
    (normalizeConsumerConfig forms input).lookup ("endpoint" : Text) =
      some (forms.normalizeEndpoint (input.prop "endpoint")) := by
  simp [normalizeConsumerConfig, lit]

end

def plainForms : Forms where
  normalizeEndpoint endpoint := endpoint.getD .null
  createLocalEntityId _ := "entity_1"
  atLeastOne n := n

end MqBridge.Workspace
