import MqBridgeApp.Lib.Properties

/-!
# What the JSON of an endpoint means

The backend reads an endpoint level by level: its kind with the endpoints inside it, and its middlewares. A level
is read here with the endpoints inside it as they are written, and what a whole tree means follows from its levels.
-/

namespace MqBridge.EndpointJson
open Text

/-- The kind of an endpoint, with the endpoints inside it. -/
inductive Kind (α : Type) where
  | static (body : Text) (raw : Bool) (metadata : List (Text × Text))
  | ref (name : Text)
  | fanout (branches : List α)
  | lookup (metadataKey : Text) (cases : List (Text × α)) (default : Option α)
  | predicates (when_ : List (Text × α)) (default : Option α)
  | connector (name : Text) (config : Json) (encryption : Option Record)

inductive Layer (α : Type) where
  | dlq (endpoint : α)
  | other (row : Record)

structure Shape (α : Type) where
  kind : Kind α
  middlewares : List (Layer α)

section
variable {α β γ : Type}

def Kind.map (f : α → β) : Kind α → Kind β
  | .static body raw metadata => .static body raw metadata
  | .ref name => .ref name
  | .fanout branches => .fanout (branches.map f)
  | .lookup metadataKey cases default =>
    .lookup metadataKey (cases.map fun case => (case.1, f case.2)) (default.map f)
  | .predicates when_ default => .predicates (when_.map fun rule => (rule.1, f rule.2)) (default.map f)
  | .connector name config encryption => .connector name config encryption

def Kind.parts : Kind α → List α
  | .fanout branches => branches
  | .lookup _ cases default => cases.map Prod.snd ++ default.toList
  | .predicates when_ default => when_.map Prod.snd ++ default.toList
  | _ => []

def Layer.map (f : α → β) : Layer α → Layer β
  | .dlq endpoint => .dlq (f endpoint)
  | .other row => .other row

def Layer.parts : Layer α → List α
  | .dlq endpoint => [endpoint]
  | .other _ => []

def Shape.map (f : α → β) (shape : Shape α) : Shape β := ⟨shape.kind.map f, shape.middlewares.map (·.map f)⟩

def Shape.parts (shape : Shape α) : List α := shape.kind.parts ++ shape.middlewares.flatMap Layer.parts

theorem Kind.map_map (f : α → β) (g : β → γ) (kind : Kind α) : (kind.map f).map g = kind.map (g ∘ f) := by
  cases kind <;> simp [Kind.map, Function.comp_def]

theorem Layer.map_map (f : α → β) (g : β → γ) (layer : Layer α) : (layer.map f).map g = layer.map (g ∘ f) := by
  cases layer <;> rfl

theorem Shape.map_map (f : α → β) (g : β → γ) (shape : Shape α) : (shape.map f).map g = shape.map (g ∘ f) := by
  simp [Shape.map, Kind.map_map, Layer.map_map]

theorem Kind.parts_map (f : α → β) (kind : Kind α) : (kind.map f).parts = kind.parts.map f := by
  cases kind with
  | lookup metadataKey cases default => cases default <;> simp [Kind.map, Kind.parts]
  | predicates when_ default => cases default <;> simp [Kind.map, Kind.parts]
  | _ => rfl

theorem Layer.parts_map (f : α → β) (layer : Layer α) : (layer.map f).parts = layer.parts.map f := by
  cases layer <;> rfl

theorem Shape.parts_map (f : α → β) (shape : Shape α) : (shape.map f).parts = shape.parts.map f := by
  simp [Shape.map, Shape.parts, Kind.parts_map, List.flatMap_map, Layer.parts_map, List.map_flatMap]

/-- Maps that agree on the endpoints inside a level agree on the level. -/
theorem Kind.map_congr {f g : α → β} {kind : Kind α} (same : ∀ part ∈ kind.parts, f part = g part) :
    kind.map f = kind.map g := by
  cases kind with
  | fanout branches => exact congrArg Kind.fanout (List.map_congr_left same)
  | lookup metadataKey cases default =>
    simp only [Kind.parts, List.mem_append, List.mem_map, Option.mem_toList] at same
    simp only [Kind.map, Kind.lookup.injEq, true_and]
    refine ⟨List.map_congr_left fun case member => ?_, Option.map_congr fun part inside => same part (.inr inside)⟩
    rw [same case.2 (.inl ⟨case, member, rfl⟩)]
  | predicates when_ default =>
    simp only [Kind.parts, List.mem_append, List.mem_map, Option.mem_toList] at same
    simp only [Kind.map, Kind.predicates.injEq]
    refine ⟨List.map_congr_left fun rule member => ?_, Option.map_congr fun part inside => same part (.inr inside)⟩
    rw [same rule.2 (.inl ⟨rule, member, rfl⟩)]
  | _ => rfl

theorem Shape.map_congr {f g : α → β} {shape : Shape α} (same : ∀ part ∈ shape.parts, f part = g part) :
    shape.map f = shape.map g := by
  simp only [Shape.map, Shape.mk.injEq]
  constructor
  · exact Kind.map_congr fun part inside => same part (List.mem_append_left _ inside)
  · refine List.map_congr_left fun layer member => ?_
    cases layer with
    | dlq endpoint =>
      rw [Layer.map, Layer.map, same endpoint (List.mem_append_right _ (List.mem_flatMap.mpr ⟨_, member, by simp [Layer.parts]⟩))]
    | other row => rfl

end

/-- The fields of an object have distinct names, and only these. -/
def HasOnly (fields : Record) (names : List Text) : Prop :=
  (fields.map Prod.fst).Nodup ∧ ∀ name ∈ fields.map Prod.fst, name ∈ names

instance (fields : Record) (names : List Text) : Decidable (HasOnly fields names) := inferInstanceAs (Decidable (_ ∧ _))

theorem HasOnly.set {fields : Record} {names : List Text} (only : HasOnly fields names) {name : Text} (known : name ∈ names)
    (value : Json) : HasOnly (setInPlace fields name value) names := by
  refine ⟨nodup_setInPlace only.1 name value, fun other member => ?_⟩
  unfold setInPlace at member
  split at member
  · exact only.2 other member
  · rcases (keys_defineProperty ..).mp member with old | rfl
    · exact only.2 other old
    · exact known

theorem HasOnly.erase {fields : Record} {names : List Text} (only : HasOnly fields names) (name : Text) :
    HasOnly (Assoc.erase fields name) names := by
  refine ⟨nodup_erase only.1 name, fun other member => only.2 other ?_⟩
  exact (List.filter_sublist.map Prod.fst).subset member

theorem HasOnly.prop_eq_none {fields : Record} {names : List Text} (only : HasOnly fields names) {name : Text}
    (other : name ∉ names) : fields.prop name = none :=
  Assoc.lookup_eq_none.mpr fun value member => other (only.2 name (List.mem_map.mpr ⟨(name, value), member, rfl⟩))

def readField {α : Type} (read : Json → Option α) (fallback : α) : Option Json → Option α
  | none => some fallback
  | some value => read value

def readText : Json → Option Text
  | .str text => some text
  | _ => none

def readFlag : Json → Option Bool
  | .bool flag => some flag
  | _ => none

def readTexts : Json → Option (List (Text × Text))
  | .obj entries => entries.mapM fun entry => (readText entry.2).map fun text => (entry.1, text)
  | _ => none

/-- The response body as a text, or an object with the body, a raw flag and metadata. -/
def readStatic : Json → Option (Kind Json)
  | .str body => some (.static body false [])
  | .obj fields =>
    if HasOnly fields ["body", "raw", "metadata"] then
      ((Record.prop fields "body").bind readText).bind fun body =>
        (readField readFlag false (Record.prop fields "raw")).bind fun raw =>
          (readField readTexts [] (Record.prop fields "metadata")).map fun metadata => .static body raw metadata
    else none
  | _ => none

def readPair (first second : Text) : Json → Option (Json × Json)
  | .obj [(name, value), (other, more)] =>
    if name = first ∧ other = second then some (value, more)
    else if name = second ∧ other = first then some (more, value)
    else none
  | _ => none

def readRule (row : Json) : Option (Text × Json) :=
  (readPair "if" "to" row).bind fun rule => (readText rule.1).map fun condition => (condition, rule.2)

def readRules : Json → Option (List (Text × Json))
  | .arr rows => rows.mapM readRule
  | _ => none

def readCases : Json → Option (List (Text × Json))
  | .obj cases => if (cases.map Prod.fst).Nodup then some cases else none
  | _ => none

def switchNames : List Text := ["metadata_key", "cases", "when", "default"]

/-- A switch looks up a metadata key among its cases, or has predicates, and never both. -/
def readSwitch : Json → Option (Kind Json)
  | .obj fields =>
    if HasOnly fields switchNames then
      (readField readText [] (Record.prop fields "metadata_key")).bind fun metadataKey =>
        (readField readCases [] (Record.prop fields "cases")).bind fun cases =>
          (readField readRules [] (Record.prop fields "when")).bind fun rules =>
            let default := Json.present (Record.prop fields "default")
            if rules = [] then some (.lookup metadataKey cases default)
            else if metadataKey = [] ∧ cases = [] then some (.predicates rules default)
            else none
    else none
  | _ => none

def readEncryption : Json → Option (Option Record)
  | .null => some none
  | .obj fields => ((Record.prop fields "key").bind readText).map fun _ => some fields
  | _ => none

def readConnector (name : Text) : Json → Option (Kind Json)
  | .obj fields =>
    (readField readEncryption none (Record.prop fields "encryption")).map fun encryption =>
      .connector name (.obj (Assoc.erase fields ("encryption" : Text))) encryption
  | config => some (.connector name config none)

def readKind (name : Text) (config : Json) : Option (Kind Json) :=
  if name = "static" then readStatic config
  else if name = "ref" then (readText config).map .ref
  else if name = "fanout" then
    match config with
    | .arr branches => some (.fanout branches)
    | _ => none
  else if name = "switch" then readSwitch config
  else readConnector name config

/-- A middleware, where a dead-letter queue has an endpoint. -/
def readLayer : Json → Option (Layer Json)
  | .obj row =>
    match Record.prop row "dlq" with
    | none => some (.other row)
    | some (.obj [(name, endpoint)]) =>
      if row.length = 1 ∧ name = "endpoint" ∧ endpoint ≠ .null then some (.dlq endpoint) else none
    | some _ => none
  | _ => none

def readLayers : Json → Option (List (Layer Json))
  | .arr rows => rows.mapM readLayer
  | _ => none

/-- A level with its kind under a name of its own. -/
def readParts (name : Text) (config : Json) (middlewares : Option Json) : Option (Shape Json) :=
  if name ∈ (["middlewares", "root", ""] : List Text) then none
  else
    (readKind name config).bind fun kind =>
      (readField readLayers [] middlewares).map fun layers => ⟨kind, layers⟩

/-- An endpoint is an object with its kind and its middlewares, which may be missing. -/
def readShape : Json → Option (Shape Json)
  | .obj [(name, config)] => readParts name config none
  | .obj [(name, config), (other, more)] =>
    if other = "middlewares" then readParts name config (some more)
    else if name = "middlewares" then readParts other more (some config)
    else none
  | _ => none

/-- What an endpoint means, with the endpoints inside it. -/
inductive Meaning where
  | mk (shape : Shape Meaning)

/-- The backend accepts the JSON of an endpoint with a meaning. -/
inductive Means : Json → Meaning → Prop where
  | level {json : Json} (shape : Shape (Json × Meaning)) (read : readShape json = some (shape.map Prod.fst))
      (parts : ∀ part ∈ shape.parts, Means part.1 part.2) : Means json (.mk (shape.map Prod.snd))

theorem Means.skeleton {json : Json} {shape : Shape Meaning} {level : Shape Json} (means : Means json (.mk shape))
    (read : readShape json = some level) : level.map (fun _ => ()) = shape.map fun _ => () := by
  cases means with
  | level whole read' =>
    obtain rfl := Option.some.inj (read'.symm.trans read)
    rw [Shape.map_map, Shape.map_map]
    rfl

end MqBridge.EndpointJson
