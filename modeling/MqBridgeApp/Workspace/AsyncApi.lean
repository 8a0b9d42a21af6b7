import MqBridgeApp.Workspace.PublisherRequest
import MqBridgeApp.Config.RoundTrip
import MqBridgeApp.Lib.JsonPointer

/-!
# Requests of an AsyncAPI document

A document of version 3 lists operations, each with a reference to its channel and to its messages. A
request is made for each operation that a channel is found for. References are resolved with their keys as
they are written.
-/

namespace MqBridge.Workspace
open Text

structure PublisherPreset where
  name : Text
  payload : Text
  headers : List MetadataRow
  endpointType : Text
  method : Text
  url : Text
  requestFields : List (Text × Text)
deriving DecidableEq

/-- `value && typeof value === "object"` -/
def isObjectValue : Option Json → Bool
  | some (.obj _) | some (.arr _) => true
  | _ => false

/-- `current[part]`, where an array has its length besides its items. What is inherited has no properties that
are read. -/
def memberAt (part : Text) : Json → Option Json
  | .obj entries => entries.lookup part
  | .arr items => if part = "length" then some (.num (.ofNat items.length)) else Pointer.itemAt part items
  | _ => none

def resolveRef (root : Json) (ref : Text) : Option Json :=
  (stripPrefix "#/" ref).bind fun pointer =>
    Json.present ((pointer.splitOn '/').foldl (fun current part => current.bind (memberAt part)) (some root))

/-- `JSON.stringify(value, null, 2)` -/
def stringifyIndented (value : Json) : Text := Config.prettyAt 0 value

def pickPayloadExample (messageNode : Option Json) : Text :=
  let message : Record := Json.asObject messageNode
  let messagePayload : Record := Json.asObject (message.prop "payload")
  match message.prop "example", messagePayload.prop "example", Json.items (messagePayload.prop "examples") with
  | some example_, _, _ => stringifyIndented example_
  | none, some example_, _ => stringifyIndented example_
  | none, none, example_ :: _ => stringifyIndented example_
  | none, none, [] => []

def refTextOf (node : Option Json) : Text := Json.textOr [] (Record.prop (Json.asObject node) "$ref")

def channelRef (operation : Record) : Text := refTextOf (operation.prop "channel")

def messageRefs (operation : Record) : List Text :=
  (Json.items (operation.prop "messages")).map fun message => refTextOf (some message)

def addressOf (channelNode : Option Json) : Text := Json.textOr [] (Record.prop (Json.asObject channelNode) "address")

def firstPayload : List Text → Text
  | [] => []
  | payload :: rest => if payload.isEmpty then firstPayload rest else payload

def operationLabel (operationName : Text) (operation : Record) (channelAddress : Text) : Text :=
  Json.textOr (Json.textOr (orText operationName (orText channelAddress "AsyncAPI operation")) (operation.prop "title"))
    (operation.prop "summary")

/-- `address.replace(/^\/+/, "")` -/
def normalizedAddress (address : Text) : Text := address.dropWhile (· == '/')

def asyncApiPreset (name payload address : Text) : PublisherPreset where
  name
  payload
  headers := []
  endpointType := "http"
  method := "POST"
  url := "$\x7bbaseUrl\x7d/" ++ address
  requestFields := [("url", "$\x7bbaseUrl\x7d/" ++ address)]

/-- The request of an operation whose channel has an address and whose message has a payload. -/
def operationPreset (operation : Text × Json) (channelAddress payload : Text) : PublisherPreset :=
  asyncApiPreset (operationLabel operation.1 (Json.asObject (some operation.2)) channelAddress) payload
    (normalizedAddress channelAddress)

def requestOf (doc : Json) (operation : Text × Json) : Option PublisherPreset :=
  let fields := Json.asObject (some operation.2)
  let channelAddress := addressOf (resolveRef doc (channelRef fields))
  let payload := firstPayload ((messageRefs fields).map fun ref => pickPayloadExample (resolveRef doc ref))
  if (normalizedAddress channelAddress).isEmpty then none else some (operationPreset operation channelAddress payload)

/-- The requests of a channel in a document before version 3. -/
def requestsOfChannel (channel : Text × Json) : List PublisherPreset :=
  let fields : Record := Json.asObject (some channel.2)
  let candidates : List (Text × Text) := [("PUBLISH", "publish"), ("SUBSCRIBE", "subscribe")]
  (candidates.filter fun candidate => isObjectValue (fields.prop candidate.2)).map fun candidate =>
    let operation : Record := Json.asObject (fields.prop candidate.2)
    asyncApiPreset
      (Json.textOr (Json.textOr (candidate.1 ++ " " ++ channel.1) (operation.prop "operationId")) (operation.prop "summary"))
      (pickPayloadExample (operation.prop "message")) (normalizedAddress channel.1)

def entriesAt (doc : Json) (key : Text) : Record := (Record.prop (Json.asObject (some doc)) key).elim [] objectEntries

def asyncApiVersion (doc : Json) : Option Json := Record.prop (Json.asObject (some doc)) "asyncapi"

def isVersion3 (doc : Json) : Bool := decide (("3" : Text) <+: Json.textOr [] (asyncApiVersion doc))

def parseAsyncApiDocument (doc : Json) : List PublisherPreset × List (Text × Text) :=
  if !(asyncApiVersion doc).any Json.truthy then ([], [])
  else
    let presets :=
      if isVersion3 doc then (entriesAt doc "operations").filterMap (requestOf doc)
      else (entriesAt doc "channels").flatMap requestsOfChannel
    let firstServerUrl := Json.textOr [] (Record.prop (Json.asObject ((entriesAt doc "servers").head?.map Prod.snd)) "url")
    (presets, if firstServerUrl.isEmpty then [] else [("baseUrl", firstServerUrl)])

section
variable (doc : Json) (operation : Text × Json)

noncomputable def meantAddress : Text := addressOf (Pointer.target doc (channelRef (Json.asObject (some operation.2))))

noncomputable def meantPayload : Text :=
  firstPayload ((messageRefs (Json.asObject (some operation.2))).map fun ref => pickPayloadExample (Pointer.target doc ref))

/-- The request that an operation is meant to have: one if its channel has an address. -/
noncomputable def meantRequest : Option PublisherPreset :=
  if (meantAddress doc operation).isEmpty then none
  else some (operationPreset operation (meantAddress doc operation) (meantPayload doc operation))

/-- What stands at the keys of a reference as they are written. -/
def asWritten (ref : Text) : Option Json :=
  (stripPrefix "#/" ref).bind fun pointer => Pointer.evaluate (pointer.splitOn '/') doc

def writtenAddress : Text := addressOf (asWritten doc (channelRef (Json.asObject (some operation.2))))

def writtenPayload : Text :=
  firstPayload ((messageRefs (Json.asObject (some operation.2))).map fun ref => pickPayloadExample (asWritten doc ref))

/-- The operation has a label besides the address of its channel. -/
def IsLabelled : Prop :=
  operation.1 ≠ [] ∨ (Record.prop (Json.asObject (some operation.2)) "summary").any Json.truthy = true ∨
    (Record.prop (Json.asObject (some operation.2)) "title").any Json.truthy = true

/-- What stands at the keys as they are written has the same address, but for leading slashes, and the same
example as what is meant, and the address is more than slashes. -/
def ReadsAsMeant : Prop :=
  meantAddress doc operation = [] ∧ normalizedAddress (writtenAddress doc operation) = [] ∨
    normalizedAddress (meantAddress doc operation) ≠ [] ∧
      normalizedAddress (writtenAddress doc operation) = normalizedAddress (meantAddress doc operation) ∧
      (writtenAddress doc operation = meantAddress doc operation ∨ IsLabelled operation) ∧
      writtenPayload doc operation = meantPayload doc operation

/-- A reference has no escapes and names no further reference. -/
def IsPlainRef (ref : Text) : Prop :=
  '~' ∉ ref ∧ ref ≠ "#" ∧ ∀ value, Pointer.pointee doc ref = some value → Pointer.referenceOf value = none

/-- The references of an operation are plain, and the address of its channel is more than slashes. -/
structure IsPlainOperation : Prop where
  channel : IsPlainRef doc (channelRef (Json.asObject (some operation.2)))
  messages : ∀ ref ∈ messageRefs (Json.asObject (some operation.2)), IsPlainRef doc ref
  address : meantAddress doc operation = [] ∨ normalizedAddress (meantAddress doc operation) ≠ []

end

/-- Besides what a reference means, its keys as they are written can only lead to a length. -/
def Reads (written meant : Option Json) : Prop := written = meant ∨ meant = none ∧ ∃ n, written = some (.num n)

theorem itemAt_length (items : List Json) : Pointer.itemAt "length" items = none := by
  unfold Pointer.itemAt
  have none : (List.range items.length).find? (fun i => ofNat i == ("length" : Text)) = none := by
    rw [List.find?_eq_none]
    intro i _ same
    have letter : 'l' ∈ ofNat i := by
      rw [eq_of_beq same]
      decide
    exact absurd (Nat.isDigit_of_mem_toDigits (by decide) (by decide) letter) (by decide)
  rw [none]
  rfl

theorem Reads.member {written meant : Option Json} (reads : Reads written meant) (part : Text) :
    Reads (written.bind (memberAt part)) (meant.bind (Pointer.child part)) := by
  rcases reads with rfl | ⟨rfl, n, rfl⟩
  · cases written with
    | none => exact .inl rfl
    | some value =>
      cases value with
      | arr items =>
        show Reads (if part = "length" then _ else _) (Pointer.itemAt part items)
        split
        · next same => exact .inr ⟨same ▸ itemAt_length items, _, rfl⟩
        · exact .inl rfl
      | _ => exact .inl rfl
  · exact .inl rfl

theorem Reads.members {written meant : Option Json} (reads : Reads written meant) (parts : List Text) :
    Reads (parts.foldl (fun current part => current.bind (memberAt part)) written)
      (parts.foldl (fun current part => current.bind (Pointer.child part)) meant) := by
  induction parts generalizing written meant with
  | nil => exact reads
  | cons part rest ih => exact ih (reads.member part)

theorem asObject_present (value : Option Json) : Json.asObject (Json.present value) = Json.asObject value := by
  cases value with
  | none => rfl
  | some value => cases value <;> rfl

theorem resolveRef_asWritten (doc : Json) (ref : Text) :
    Json.asObject (resolveRef doc ref) = Json.asObject (asWritten doc ref) := by
  unfold resolveRef asWritten Pointer.evaluate
  cases stripPrefix "#/" ref with
  | none => rfl
  | some pointer =>
    rw [Option.bind_some, asObject_present, Option.bind_some]
    have reads : Reads (some doc) (some doc) := .inl rfl
    rcases reads.members (pointer.splitOn '/') with same | ⟨none, n, number⟩
    · rw [same]
    · rw [none, number]
      rfl

theorem asWritten_plain {doc : Json} {ref : Text} (plain : IsPlainRef doc ref) : asWritten doc ref = Pointer.target doc ref := by
  rw [Pointer.target_eq_pointee plain.2.2, asWritten, Pointer.pointee, Pointer.tokens_plain plain.1 plain.2.1]
  cases stripPrefix "#/" ref <;> rfl

/-! ### Requests -/

theorem pickPayloadExample_congr {node node' : Option Json} (same : Json.asObject node = Json.asObject node') :
    pickPayloadExample node = pickPayloadExample node' := by
  unfold pickPayloadExample
  rw [same]

section
variable (doc : Json) (operation : Text × Json)

theorem requestOf_eq : requestOf doc operation =
    if (normalizedAddress (writtenAddress doc operation)).isEmpty then none
    else some (operationPreset operation (writtenAddress doc operation) (writtenPayload doc operation)) := by
  have address : addressOf (resolveRef doc (channelRef (Json.asObject (some operation.2)))) = writtenAddress doc operation := by
    unfold addressOf writtenAddress
    rw [resolveRef_asWritten]
    rfl
  have payload : firstPayload ((messageRefs (Json.asObject (some operation.2))).map fun ref =>
      pickPayloadExample (resolveRef doc ref)) = writtenPayload doc operation := by
    unfold writtenPayload
    exact congrArg firstPayload (List.map_congr_left fun ref _ => pickPayloadExample_congr (resolveRef_asWritten doc ref))
  unfold requestOf
  dsimp only
  rw [address, payload]

theorem operationLabel_labelled {operation : Text × Json} (labelled : IsLabelled operation) (address other : Text) :
    operationLabel operation.1 (Json.asObject (some operation.2)) address =
      operationLabel operation.1 (Json.asObject (some operation.2)) other := by
  unfold operationLabel
  have named : orText operation.1 (orText address "AsyncAPI operation") = orText operation.1 (orText other "AsyncAPI operation") ∨
      (Record.prop (Json.asObject (some operation.2)) "summary").any Json.truthy = true ∨
      (Record.prop (Json.asObject (some operation.2)) "title").any Json.truthy = true := by
    refine labelled.imp (fun nonempty => ?_) id
    unfold orText
    rw [if_neg (by simpa using nonempty), if_neg (by simpa using nonempty)]
  rcases named with same | summary | title
  · rw [same]
  · cases there : Record.prop (Json.asObject (some operation.2)) "summary" with
    | none =>
      rw [there] at summary
      cases summary
    | some value =>
      rw [there, Option.any_some] at summary
      rw [Json.textOr, Json.textOr, if_pos summary, if_pos summary]
  · cases there : Record.prop (Json.asObject (some operation.2)) "title" with
    | none =>
      rw [there] at title
      cases title
    | some value =>
      rw [there, Option.any_some] at title
      have inner : ∀ fallback, Json.textOr fallback (some value) = value.toText := fun fallback => if_pos title
      rw [inner, inner]

/-- Without a label of its own, the label of an operation is the address of its channel. -/
theorem operationLabel_address {operation : Text × Json} (unlabelled : ¬ IsLabelled operation) {address : Text}
    (nonempty : address ≠ []) : operationLabel operation.1 (Json.asObject (some operation.2)) address = address := by
  unfold IsLabelled at unlabelled
  rw [not_or, not_or, not_not] at unlabelled
  obtain ⟨unnamed, summary, title⟩ := unlabelled
  have absent : ∀ {value : Option Json}, ¬ value.any Json.truthy = true → ∀ fallback, Json.textOr fallback value = fallback := by
    intro value falsy fallback
    cases value with
    | none => rfl
    | some value => exact if_neg falsy
  unfold operationLabel
  rw [absent summary, absent title, unnamed]
  show orText address "AsyncAPI operation" = address
  rw [orText, if_neg (by simpa using nonempty)]

theorem nonempty_of_normalized {address : Text} (more : normalizedAddress address ≠ []) : address ≠ [] := by
  rintro rfl
  exact more rfl

/-- The request of an operation is the one that is meant if and only if its references read as they are meant. -/
theorem requestOf_iff : requestOf doc operation = meantRequest doc operation ↔ ReadsAsMeant doc operation := by
  rw [requestOf_eq, meantRequest, ReadsAsMeant]
  by_cases unread : normalizedAddress (writtenAddress doc operation) = []
  · rw [unread, List.isEmpty_nil, if_pos rfl]
    by_cases unmeant : meantAddress doc operation = []
    · rw [unmeant, List.isEmpty_nil, if_pos rfl]
      exact ⟨fun _ => .inl ⟨rfl, rfl⟩, fun _ => rfl⟩
    · rw [if_neg (by simpa using unmeant)]
      refine ⟨nofun, ?_⟩
      rintro (⟨empty, -⟩ | ⟨more, same, -⟩)
      · exact absurd empty unmeant
      · exact absurd same.symm more
  · rw [if_neg (by simpa using unread)]
    by_cases unmeant : meantAddress doc operation = []
    · rw [unmeant, List.isEmpty_nil, if_pos rfl]
      refine ⟨nofun, ?_⟩
      rintro (⟨-, empty⟩ | ⟨more, -⟩)
      · exact absurd empty unread
      · exact absurd rfl more
    · rw [if_neg (by simpa using unmeant), Option.some.injEq]
      constructor
      · intro same
        have addresses : normalizedAddress (writtenAddress doc operation) = normalizedAddress (meantAddress doc operation) :=
          List.append_cancel_left (congrArg PublisherPreset.url same)
        refine .inr ⟨addresses ▸ unread, addresses, ?_, congrArg PublisherPreset.payload same⟩
        by_cases labelled : IsLabelled operation
        · exact .inr labelled
        · have names := congrArg PublisherPreset.name same
          refine .inl ?_
          rwa [operationPreset, operationPreset, asyncApiPreset, asyncApiPreset,
            operationLabel_address labelled (nonempty_of_normalized unread), operationLabel_address labelled unmeant] at names
      · rintro (⟨empty, -⟩ | ⟨-, addresses, label, payload⟩)
        · exact absurd empty unmeant
        · have names : operationLabel operation.1 (Json.asObject (some operation.2)) (writtenAddress doc operation) =
              operationLabel operation.1 (Json.asObject (some operation.2)) (meantAddress doc operation) := by
            rcases label with same | labelled
            · rw [same]
            · exact operationLabel_labelled labelled _ _
          rw [operationPreset, operationPreset, names, addresses, payload]

theorem readsAsMeant_plain {doc : Json} {operation : Text × Json} (plain : IsPlainOperation doc operation) :
    ReadsAsMeant doc operation := by
  have address : writtenAddress doc operation = meantAddress doc operation := by
    rw [writtenAddress, meantAddress, asWritten_plain plain.channel]
  have payload : writtenPayload doc operation = meantPayload doc operation := by
    rw [writtenPayload, meantPayload]
    exact congrArg firstPayload (List.map_congr_left fun ref member => by rw [asWritten_plain (plain.messages ref member)])
  rw [ReadsAsMeant, address]
  rcases plain.address with empty | more
  · exact .inl ⟨empty, by rw [empty]; rfl⟩
  · exact .inr ⟨more, rfl, .inl rfl, payload⟩

end

theorem presets_eq {doc : Json} (version : isVersion3 doc = true) :
    (parseAsyncApiDocument doc).1 = (entriesAt doc "operations").filterMap (requestOf doc) := by
  have truthy : (asyncApiVersion doc).any Json.truthy = true := by
    unfold isVersion3 at version
    cases there : asyncApiVersion doc with
    | none =>
      rw [there] at version
      cases version
    | some value =>
      rw [there] at version
      rw [Option.any_some]
      by_contra falsy
      rw [Json.textOr, if_neg falsy] at version
      cases version
  unfold parseAsyncApiDocument
  rw [truthy, if_neg (by decide), if_pos version]

def signupDocument (channel ref : Text) : Json := .obj
  [("asyncapi", .str "3.0.0"),
    ("channels", .obj [(channel, .obj [("address", .str "user/signedup"), ("messages", .obj [])])]),
    ("operations", .obj [("onSignup", .obj [("channel", .obj [("$ref", .str ref)])])])]

end MqBridge.Workspace
