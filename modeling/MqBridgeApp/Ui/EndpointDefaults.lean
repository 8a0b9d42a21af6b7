import MqBridgeApp.Endpoint.Shape
import MqBridgeApp.Lib.Lists
import MqBridgeApp.Lib.Properties

/-!
# Defaults of an endpoint in a form

Before an endpoint is shown, its form gets what it needs: a switch has cases and a default, a list of middlewares is
there, and an encryption block that nobody filled in is dropped again. The endpoints inside it are treated alike.
-/

namespace MqBridge.Ui.EndpointForm
open Text EndpointJson

def emptyRef : Json := .obj [("ref", .str [])]

def defaultMetricsMiddleware : List Json := []

def unwrapRoot (endpoint : Option Json) : Option Record :=
  match endpoint with
  | some (.obj fields) =>
    match Record.prop fields "root" with
    | some (.obj root) => some root
    | _ => some fields
  | _ => none

def createDefaultEndpoint (type : Text) : Record :=
  if type = "static" ∨ type = "ref" then [(type, .str [])]
  else if type = "switch" then
    [("switch", .obj [("metadata_key", .str "type"), ("cases", .obj []), ("default", emptyRef)]), ("middlewares", .arr [])]
  else if type = "fanout" then [("fanout", .arr [emptyRef]), ("middlewares", .arr [])]
  else [(type, .obj []), ("middlewares", .arr defaultMetricsMiddleware)]

def getEndpointType (endpoint : Record) : Text :=
  match (["ref", "static"] : List Text).find? fun key => key ∈ endpoint.map Prod.fst with
  | some key => key
  | none => orText (((endpoint.map Prod.fst).find? fun key => key != ("middlewares" : Text)).getD []) "http"

/-- `{ ...target, ...source }` -/
def spread (target source : Record) : Record :=
  source.foldl (fun record property => defineProperty record property.1 property.2) target

def seededEncryptionDefaults : Record := [("cipher", .str "xchacha20poly1305"), ("key_id", .str "default")]

/-- A setting that the form seeds, or that is empty. -/
def isUnsetSetting (setting : Text × Json) : Bool :=
  match setting.2 with
  | .null => true
  | .arr items => items.isEmpty
  | .obj fields => fields.isEmpty
  | value => value = .str [] ∨ seededEncryptionDefaults.lookup setting.1 = some value

def isUnsetEncryption (encryption : Record) : Bool := encryption.all isUnsetSetting

def dropUnsetEncryption (config : Record) : Record :=
  match Record.prop config "encryption" with
  | some (.obj encryption) => if isUnsetEncryption encryption then Assoc.erase config ("encryption" : Text) else config
  | _ => config

/-! ### Middlewares and switches -/

section
variable (recurse : Option Json → Record)

def nested (endpoint : Option Json) : Json := .obj (recurse endpoint)

/-- `recurse(endpoint ?? { ref: "" })` -/
def nestedOrRef (endpoint : Option Json) : Json := nested recurse (some ((Json.present endpoint).getD emptyRef))

def normalizeMiddleware (row : Record) : Record :=
  match row.prop "dlq" with
  | some (.obj dlq) =>
    setInPlace row "dlq" (.obj (setInPlace dlq "endpoint" (nestedOrRef recurse (Record.prop dlq "endpoint"))))
  | _ => row

def normalizeMiddlewares (middlewares : Option Json) : List Json :=
  (Json.items middlewares).filterMap fun middleware =>
    match middleware with
    | .obj row => some (.obj (normalizeMiddleware recurse row))
    | _ => none

def spreadOf : Json → Record
  | .obj fields => fields
  | .arr items => items.mapIdx fun index item => (ofNat index, item)
  | _ => []

/-- `{ ...record, to: recurse(record.to) }` -/
def normalizeRule (entry : Json) : Json :=
  .obj (defineProperty (spreadOf entry) "to" (nested recurse (Record.prop (spreadOf entry) "to")))

def normalizeCases (cases : Option Json) : Record :=
  (Json.asObject cases).foldl (fun normalized case => setInPlace normalized case.1 (nested recurse (some case.2))) []

/-- `if (!record.metadata_key) record.metadata_key = "type"` -/
def withMetadataKey (record : Record) : Record :=
  if (record.prop "metadata_key").any Json.truthy then record else setInPlace record "metadata_key" (.str "type")

def normalizeLookup (record : Record) : Record :=
  let record := withMetadataKey (Assoc.erase record ("when" : Text))
  setInPlace record "cases" (.obj (normalizeCases recurse (record.prop "cases")))

def normalizeSwitch (record : Record) : Record :=
  let record :=
    match record.prop "when" with
    | some (.arr (entry :: entries)) =>
      let record := setInPlace record "when" (.arr ((entry :: entries).map (normalizeRule recurse)))
      Assoc.erase (Assoc.erase record ("metadata_key" : Text)) "cases"
    | _ => normalizeLookup recurse record
  setInPlace record "default" (nestedOrRef recurse (Record.prop record "default"))

def scalarText (endpointType : Text) (value : Option Json) : Text :=
  match value with
  | some (.str text) => text
  | some (.obj fields) =>
    match Record.prop fields endpointType with
    | some (.str text) => text
    | _ => []
  | _ => []

/-- What becomes of the configuration under the type of an endpoint, before its encryption is looked at. -/
def normalizeConfig (endpointType : Text) (config : Json) : Json :=
  if endpointType = "switch" then
    match config with
    | .obj record => .obj (normalizeSwitch recurse record)
    | _ => config
  else if endpointType = "fanout" then
    match config with
    | .arr items => .arr (items.map fun item => nested recurse (some item))
    | _ => .arr [emptyRef]
  else if endpointType = "static" ∨ endpointType = "ref" then .str (scalarText endpointType (some config))
  else config

def withoutUnsetEncryption (config : Json) : Json :=
  match config with
  | .obj fields => .obj (dropUnsetEncryption fields)
  | _ => config

def ensureEndpointDefaults (endpoint : Option Json) : Record :=
  match unwrapRoot endpoint with
  | none => createDefaultEndpoint "http"
  | some data =>
    let endpointType := getEndpointType data
    let normalized := spread (createDefaultEndpoint endpointType) data
    -- The default endpoint has a configuration under its type.
    let config := (normalized.prop endpointType).getD .null
    let normalized := setInPlace normalized endpointType (withoutUnsetEncryption (normalizeConfig recurse endpointType config))
    setInPlace normalized "middlewares" (.arr (normalizeMiddlewares recurse (normalized.prop "middlewares")))

end

/-- `ensureEndpointDefaults` with itself for the endpoints inside, to a depth. -/
def normalizeEndpoint : Nat → Option Json → Record
  | 0, _ => []
  | depth + 1, endpoint => ensureEndpointDefaults (normalizeEndpoint depth) endpoint

/-- The recursion comes to an end with an endpoint. -/
def Normalizes (endpoint : Json) (normalized : Record) : Prop :=
  ∃ enough, ∀ depth ≥ enough, normalizeEndpoint depth (some endpoint) = normalized

/-! ### Levels that are read -/

/-- The properties of an endpoint: its kind under a name, and its middlewares, which may be missing. -/
inductive Written (name : Text) (config : Json) : Record → Option Json → Prop where
  | alone : Written name config [(name, config)] none
  | first (middlewares : Json) : Written name config [(name, config), ("middlewares", middlewares)] (some middlewares)
  | last (middlewares : Json) : Written name config [("middlewares", middlewares), (name, config)] (some middlewares)

/-- The name of a kind is no other property of an endpoint. -/
structure Named (name : Text) : Prop where
  middlewares : name ≠ "middlewares"
  root : name ≠ "root"
  full : name ≠ []

theorem readShape_written {json : Json} {shape : Shape Json} (read : readShape json = some shape) :
    ∃ fields name config middlewares, json = .obj fields ∧ Written name config fields middlewares ∧ Named name ∧
      ∃ kind layers, readKind name config = some kind ∧ readField readLayers [] middlewares = some layers ∧
        shape = ⟨kind, layers⟩ := by
  have parts : ∀ {name config middlewares}, readParts name config middlewares = some shape →
      Named name ∧ ∃ kind layers, readKind name config = some kind ∧ readField readLayers [] middlewares = some layers ∧
        shape = ⟨kind, layers⟩ := by
    intro name config middlewares parts
    unfold readParts at parts
    split at parts
    · cases parts
    · next other =>
      simp only [List.mem_cons, List.not_mem_nil, or_false, not_or] at other
      obtain ⟨kind, kinds, more⟩ := Option.bind_eq_some_iff.mp parts
      obtain ⟨layers, listed, rfl⟩ := Option.map_eq_some_iff.mp more
      exact ⟨⟨other.1, other.2.1, other.2.2⟩, kind, layers, kinds, listed, rfl⟩
  unfold readShape at read
  split at read
  · exact ⟨_, _, _, _, rfl, .alone, parts read⟩
  · split at read
    · next same =>
      subst same
      exact ⟨_, _, _, _, rfl, .first _, parts read⟩
    · split at read
      · next same =>
        subst same
        exact ⟨_, _, _, _, rfl, .last _, parts read⟩
      · cases read
  · cases read

section
variable {name : Text} {config : Json} {fields : Record} {middlewares : Option Json}

theorem unwrapRoot_written (written : Written name config fields middlewares) (named : Named name) :
    unwrapRoot (some (.obj fields)) = some fields := by
  have apart : (lit "root" == lit "middlewares") = false := by decide
  have plain : Record.prop fields "root" = none := by
    cases written <;> simp [Record.prop, List.lookup_cons, beq_eq_false_iff_ne.mpr named.root.symm, apart]
  rw [unwrapRoot, plain]

theorem getEndpointType_written (written : Written name config fields middlewares) (named : Named name) :
    getEndpointType fields = name := by
  have keys : ∀ key, key ∈ fields.map Prod.fst → key = name ∨ key = "middlewares" := by
    intro key member
    cases written <;> simp at member <;> tauto
  have own : name ∈ fields.map Prod.fst := by
    cases written <;> simp
  have found : (fields.map Prod.fst).find? (fun key => key != ("middlewares" : Text)) = some name := by
    cases written <;> simp [named.middlewares]
  unfold getEndpointType
  split
  · next key scalar =>
    have member := List.find?_some scalar
    have among := List.mem_of_find?_eq_some scalar
    refine (keys key (of_decide_eq_true member)).resolve_right ?_
    rintro rfl
    exact absurd among (by decide)
  · rw [found, Option.getD_some, orText, if_neg (by simpa using named.full)]

/-- Setting the properties of a default endpoint gives both in the order of a level. -/
theorem spread_written (written : Written name config fields middlewares) (named : Named name) :
    spread (createDefaultEndpoint name) fields =
      (name, config) :: (if (name = "static" ∨ name = "ref") ∧ middlewares = none then []
        else [("middlewares", middlewares.getD (.arr []))]) := by
  have other : ∃ value, createDefaultEndpoint name =
      (name, value) :: if name = "static" ∨ name = "ref" then [] else [("middlewares", .arr [])] := by
    unfold createDefaultEndpoint
    split
    · exact ⟨_, rfl⟩
    · split
      · next same => exact ⟨_, by rw [same]⟩
      · split
        · next same => exact ⟨_, by rw [same]⟩
        · exact ⟨_, rfl⟩
  obtain ⟨value, made⟩ := other
  rw [made, spread]
  have apart := named.middlewares
  by_cases scalar : name = "static" ∨ name = "ref"
  · rw [if_pos scalar]
    cases written <;> simp [defineProperty, scalar, apart, apart.symm]
  · rw [if_neg scalar]
    cases written <;> simp [defineProperty, scalar, apart, apart.symm]

/-- A level is written with its configuration first and its middlewares last. -/
theorem ensureEndpointDefaults_written (recurse : Option Json → Record) (written : Written name config fields middlewares)
    (named : Named name) : ensureEndpointDefaults recurse (some (.obj fields)) =
      [(name, withoutUnsetEncryption (normalizeConfig recurse name config)),
        ("middlewares", .arr (normalizeMiddlewares recurse middlewares))] := by
  rw [ensureEndpointDefaults, unwrapRoot_written written named]
  dsimp only
  rw [getEndpointType_written written named, spread_written written named]
  have apart := named.middlewares
  have different : (lit "middlewares" == name) = false := beq_eq_false_iff_ne.mpr apart.symm
  have visible : lit "middlewares" ≠ lit "__proto__" := by decide
  split
  · next scalar =>
    simp [setInPlace, defineProperty, Record.prop, apart.symm, visible, different, List.lookup_cons, scalar.2]
  · cases middlewares with
    | none =>
      simp [setInPlace, defineProperty, Record.prop, apart, apart.symm, different, List.lookup_cons, normalizeMiddlewares,
        Json.items]
    | some middlewares =>
      simp [setInPlace, defineProperty, Record.prop, apart, apart.symm, different, List.lookup_cons]

end

/-! ### Middlewares that are read -/

section
variable (recurse : Option Json → Record)

def layerJson : Layer Json → Json
  | .dlq endpoint => .obj [("dlq", .obj [("endpoint", endpoint)])]
  | .other row => .obj row

/-- A dead-letter queue has an endpoint, and only that is written under its name. -/
def LayerKnown : Layer Json → Prop
  | .dlq endpoint => endpoint ≠ .null
  | .other row => Record.prop row "dlq" = none

theorem readLayer_eq_some {row : Json} {layer : Layer Json} :
    readLayer row = some layer ↔ row = layerJson layer ∧ LayerKnown layer := by
  constructor
  · intro read
    unfold readLayer at read
    split at read
    · next row =>
      split at read
      · next absent =>
        obtain rfl := Option.some.inj read
        exact ⟨rfl, absent⟩
      · next name endpoint found =>
        split at read
        · next whole =>
          obtain ⟨single, rfl, there⟩ := whole
          obtain rfl := Option.some.inj read
          obtain ⟨entry, rfl⟩ := List.length_eq_one_iff.mp single
          obtain rfl := List.mem_singleton.mp (Assoc.mem_of_lookup found)
          exact ⟨rfl, there⟩
        · cases read
      · cases read
    · cases read
  · rintro ⟨rfl, known⟩
    cases layer with
    | dlq endpoint =>
      have found : Record.prop [("dlq", Json.obj [("endpoint", endpoint)])] "dlq" = some (.obj [("endpoint", endpoint)]) := rfl
      rw [layerJson, readLayer, found]
      exact if_pos ⟨rfl, rfl, known⟩
    | other row =>
      rw [layerJson, readLayer, known]

theorem normalizeMiddleware_layer {layer : Layer Json} (known : LayerKnown layer) :
    normalizeMiddlewares recurse (some (.arr [layerJson layer])) =
      [layerJson (layer.map fun part => nested recurse (some part))] := by
  cases layer with
  | dlq endpoint =>
    have present : Json.present (some endpoint) = some endpoint := by
      cases endpoint <;> first | rfl | exact absurd rfl known
    have found : Record.prop [("dlq", Json.obj [("endpoint", endpoint)])] "dlq" = some (.obj [("endpoint", endpoint)]) := rfl
    have inside : Record.prop [("endpoint", endpoint)] "endpoint" = some endpoint := rfl
    simp only [normalizeMiddlewares, layerJson, Json.items, List.filterMap_cons, List.filterMap_nil, normalizeMiddleware, found,
      nestedOrRef, inside, present]
    rfl
  | other row =>
    have absent : Record.prop row "dlq" = none := known
    simp [normalizeMiddlewares, layerJson, Json.items, normalizeMiddleware, absent, Layer.map]

theorem normalizeMiddlewares_layers {layers : List (Layer Json)} (known : ∀ layer ∈ layers, LayerKnown layer) :
    normalizeMiddlewares recurse (some (.arr (layers.map layerJson))) =
      (layers.map (·.map fun part => nested recurse (some part))).map layerJson := by
  induction layers with
  | nil => rfl
  | cons layer layers ih =>
    rw [List.forall_mem_cons] at known
    have split_ : normalizeMiddlewares recurse (some (.arr (layerJson layer :: layers.map layerJson))) =
        normalizeMiddlewares recurse (some (.arr [layerJson layer])) ++
          normalizeMiddlewares recurse (some (.arr (layers.map layerJson))) :=
      List.filterMap_append (l := [layerJson layer])
    rw [List.map_cons, split_, normalizeMiddleware_layer recurse known.1, ih known.2]
    rfl

end

theorem readLayers_items {middlewares : Option Json} {layers : List (Layer Json)}
    (read : readField readLayers [] middlewares = some layers) :
    Json.items middlewares = layers.map layerJson ∧ ∀ layer ∈ layers, LayerKnown layer := by
  cases middlewares with
  | none =>
    obtain rfl := Option.some.inj read
    exact ⟨rfl, nofun⟩
  | some rows =>
    cases rows with
    | arr rows =>
      have each := Lists.mapM_eq_some_iff.mp read
      refine ⟨?_, ?_⟩
      · show rows = _
        rw [← Lists.map_of_forall₂ (f := id) (g := layerJson) (fun _ _ one => (readLayer_eq_some.mp one).1) each, List.map_id]
      · intro layer member
        obtain ⟨row, -, one⟩ := Lists.exists_of_forall₂ each.flip member
        exact (readLayer_eq_some.mp one).2
    | _ => cases read

theorem readLayers_layers {layers : List (Layer Json)} (known : ∀ layer ∈ layers, LayerKnown layer) :
    readField readLayers [] (some (.arr (layers.map layerJson))) = some layers := by
  refine Lists.mapM_eq_some_iff.mpr (List.forall₂_map_left_iff.mpr ?_)
  exact List.forall₂_same.mpr fun layer member => readLayer_eq_some.mpr ⟨rfl, known layer member⟩

theorem known_map (recurse : Option Json → Record) {layer : Layer Json} (known : LayerKnown layer) :
    LayerKnown (layer.map fun part => nested recurse (some part)) := by
  cases layer with
  | dlq endpoint => exact nofun
  | other row => exact known

end MqBridge.Ui.EndpointForm
