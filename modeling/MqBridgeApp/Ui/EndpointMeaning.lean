import MqBridgeApp.Ui.KindDefaults

/-!
# The meaning of an endpoint in a form

An endpoint with its defaults means what it did, up to the defaults, at every level of its tree. Giving the defaults
again changes nothing.
-/

namespace MqBridge.Ui.EndpointForm
open Text EndpointJson

/-! ### One level -/

def defaultedShape {α : Type} (empty : α) (shape : Shape α) : Shape α := ⟨defaultedKind empty shape.kind, shape.middlewares⟩

section
variable {recurse again : Option Json → Record} {json : Json} {shape : Shape Json}

structure Level (json : Json) (shape : Shape Json) (name : Text) (config : Json) : Prop where
  named : Named name
  found : json.get? name = some config
  kind : readKind name config = some shape.kind
  known : ∀ layer ∈ shape.middlewares, LayerKnown layer
  written : ∀ recurse, ensureEndpointDefaults recurse (some json) =
    [(name, defaultedConfig recurse name config),
      ("middlewares", .arr ((shape.middlewares.map (·.map fun part => nested recurse (some part))).map layerJson))]

theorem readShape_level (read : readShape json = some shape) : ∃ name config, Level json shape name config := by
  obtain ⟨fields, name, config, middlewares, rfl, written, named, kind, layers, kindRead, listed, rfl⟩ :=
    readShape_written read
  obtain ⟨items, known⟩ := readLayers_items listed
  refine ⟨name, config, named, ?_, kindRead, known, fun recurse => ?_⟩
  · have apart : (name == lit "middlewares") = false := beq_eq_false_iff_ne.mpr named.middlewares
    cases written <;> simp [Json.get?, List.lookup_cons, apart]
  · rw [ensureEndpointDefaults_written recurse written named, ← normalizeMiddlewares_layers recurse known, ← items]
    rfl

theorem known_nested (recurse : Option Json → Record) (known : ∀ layer ∈ shape.middlewares, LayerKnown layer) :
    ∀ layer ∈ shape.middlewares.map (·.map fun part => nested recurse (some part)), LayerKnown layer := by
  intro layer member
  obtain ⟨before, inside, rfl⟩ := List.mem_map.mp member
  exact known_map recurse (known before inside)

/-- The level that is read after the defaults is the one before with its defaults. -/
theorem readShape_defaulted (read : readShape json = some shape) (text : ∀ fields, json.get? "static" ≠ some (.obj fields))
    (plain : ("__proto__" : Text) ∉ caseNames shape.kind) :
    readShape (.obj (ensureEndpointDefaults recurse (some json))) =
      some (defaultedShape (nested recurse (some emptyRef)) (shape.map fun part => nested recurse (some part))) := by
  obtain ⟨name, config, level⟩ := readShape_level read
  have static : name = "static" → ∀ fields, config ≠ .obj fields := by
    rintro rfl fields rfl
    exact text fields level.found
  have parts : readParts name (defaultedConfig recurse name config)
      (some (.arr ((shape.middlewares.map (·.map fun part => nested recurse (some part))).map layerJson))) =
        some (defaultedShape (nested recurse (some emptyRef)) (shape.map fun part => nested recurse (some part))) := by
    have other : name ∉ (["middlewares", "root", ""] : List Text) := by
      rintro (_ | ⟨_, _ | ⟨_, _ | ⟨_, ⟨⟩⟩⟩⟩)
      · exact level.named.middlewares rfl
      · exact level.named.root rfl
      · exact level.named.full rfl
    rw [readParts, if_neg other, readKind_defaulted level.kind static plain, readLayers_layers (known_nested recurse level.known)]
    rfl
  rw [level.written recurse, readShape, if_pos rfl]
  exact parts

/-- Defaults are given once. -/
theorem ensureEndpointDefaults_twice (read : readShape json = some shape)
    (settled : ∀ part ∈ shape.parts, again (some (nested recurse (some part))) = recurse (some part))
    (ref : again (some (nested recurse (some emptyRef))) = recurse (some emptyRef)) :
    ensureEndpointDefaults again (some (.obj (ensureEndpointDefaults recurse (some json)))) =
      ensureEndpointDefaults recurse (some json) := by
  obtain ⟨name, config, level⟩ := readShape_level read
  rw [level.written recurse, ensureEndpointDefaults_written again (.first _) level.named,
    normalizeMiddlewares_layers again (known_nested recurse level.known)]
  have kept : defaultedConfig again name (defaultedConfig recurse name config) = defaultedConfig recurse name config :=
    defaultedConfig_twice level.kind (fun part inside => settled part (List.mem_append_left _ inside)) ref
  have whole : (shape.map fun part => nested recurse (some part)).map (fun part => nested again (some part)) =
      shape.map fun part => nested recurse (some part) := by
    rw [Shape.map_map]
    exact Shape.map_congr fun part inside => congrArg Json.obj (settled part inside)
  have layers : (shape.middlewares.map (·.map fun part => nested recurse (some part))).map
      (·.map fun part => nested again (some part)) = shape.middlewares.map (·.map fun part => nested recurse (some part)) :=
    congrArg Shape.middlewares whole
  rw [layers, ← defaultedConfig, kept]

theorem ensureEndpointDefaults_congr (read : readShape json = some shape)
    (same : ∀ part ∈ shape.parts, recurse (some part) = again (some part))
    (ref : recurse (some emptyRef) = again (some emptyRef)) :
    ensureEndpointDefaults recurse (some json) = ensureEndpointDefaults again (some json) := by
  obtain ⟨name, config, level⟩ := readShape_level read
  have whole : (shape.map fun part => nested recurse (some part)) = shape.map fun part => nested again (some part) :=
    Shape.map_congr fun part inside => congrArg Json.obj (same part inside)
  have layers : shape.middlewares.map (·.map fun part => nested recurse (some part)) =
      shape.middlewares.map (·.map fun part => nested again (some part)) := congrArg Shape.middlewares whole
  rw [level.written recurse, level.written again, layers,
    defaultedConfig_congr level.kind (fun part inside => same part (List.mem_append_left _ inside)) ref]

end

/-! ### Trees -/

theorem defaultedShape_map {α β : Type} (f : α → β) (empty : α) (shape : Shape α) :
    (defaultedShape empty shape).map f = defaultedShape (f empty) (shape.map f) := by
  obtain ⟨kind, middlewares⟩ := shape
  cases kind with
  | lookup metadataKey cases default => cases default <;> rfl
  | predicates when_ default => cases default <;> rfl
  | _ => rfl

theorem mem_defaultedShape_parts {α : Type} {empty part : α} {shape : Shape α}
    (inside : part ∈ (defaultedShape empty shape).parts) : part = empty ∨ part ∈ shape.parts := by
  obtain ⟨kind, middlewares⟩ := shape
  rcases List.mem_append.mp inside with own | layered
  · cases kind with
    | lookup metadataKey cases default =>
      rcases List.mem_append.mp own with listed | last
      · exact .inr (List.mem_append_left _ (List.mem_append_left _ listed))
      · obtain rfl : part = default.getD empty := by simpa using last
        cases default with
        | none => exact .inl rfl
        | some default => exact .inr (List.mem_append_left _ (List.mem_append_right _ (List.mem_singleton_self _)))
    | predicates when_ default =>
      rcases List.mem_append.mp own with listed | last
      · exact .inr (List.mem_append_left _ (List.mem_append_left _ listed))
      · obtain rfl : part = default.getD empty := by simpa using last
        cases default with
        | none => exact .inl rfl
        | some default => exact .inr (List.mem_append_left _ (List.mem_append_right _ (List.mem_singleton_self _)))
    | fanout branches => exact .inr (List.mem_append_left _ own)
    | _ => cases own
  · exact .inr (List.mem_append_right _ layered)

/-- The reference that stands in for a default, which refers to nothing. -/
def noDefault : Meaning := .mk ⟨.ref [], []⟩

instance : Inhabited Meaning := ⟨noDefault⟩

/-- One meaning is another one with the defaults of the form, here and in the endpoints inside. -/
inductive Defaulted : Meaning → Meaning → Prop where
  | level (shape : Shape (Meaning × Meaning)) (parts : ∀ part ∈ shape.parts, Defaulted part.1 part.2) :
      Defaulted (.mk (shape.map Prod.fst)) (.mk (defaultedShape noDefault (shape.map Prod.snd)))

/-- No endpoint of a tree has a static response with settings, or a case that would be the prototype of the cases. -/
inductive Plain : Json → Prop where
  | level {json : Json} {shape : Shape Json} (read : readShape json = some shape)
      (text : ∀ fields, json.get? "static" ≠ some (.obj fields)) (cases : ("__proto__" : Text) ∉ caseNames shape.kind)
      (parts : ∀ part ∈ shape.parts, Plain part) : Plain json

def emptyRefDefaults : Record := [("ref", .str []), ("middlewares", .arr [])]

theorem emptyRef_defaults (recurse : Option Json → Record) :
    ensureEndpointDefaults recurse (some emptyRef) = emptyRefDefaults ∧
      ensureEndpointDefaults recurse (some (.obj emptyRefDefaults)) = emptyRefDefaults :=
  ⟨rfl, rfl⟩

theorem emptyRefDefaults_means : Means (.obj emptyRefDefaults) noDefault :=
  .level ⟨.ref [], []⟩ rfl nofun

section
variable {json : Json} {shape : Shape (Json × Meaning)} {recordOf : Json × Meaning → Record}

/-- The recursion ends with an endpoint where it ends with the endpoints inside. -/
theorem normalizes_level (read : readShape json = some (shape.map Prod.fst))
    (ends : ∀ part ∈ shape.parts, Normalizes part.1 (recordOf part))
    (stays : ∀ part ∈ shape.parts, Normalizes (.obj (recordOf part)) (recordOf part)) :
    ∃ recurse, Normalizes json (ensureEndpointDefaults recurse (some json)) ∧
      Normalizes (.obj (ensureEndpointDefaults recurse (some json))) (ensureEndpointDefaults recurse (some json)) ∧
      recurse (some emptyRef) = emptyRefDefaults ∧ ∀ part ∈ shape.parts, recurse (some part.1) = recordOf part := by
  have inside : ∀ part ∈ (shape.map Prod.fst).parts, ∃ whole ∈ shape.parts, whole.1 = part := by
    intro part member
    rw [Shape.parts_map] at member
    exact List.mem_map.mp member
  -- From a depth on, the endpoints inside are what they come to.
  obtain ⟨enough, ended⟩ := Lists.exists_forall_ge ends
  obtain ⟨enough', stayed⟩ := Lists.exists_forall_ge stays
  have ref : ∀ depth ≥ max enough enough' + 1, normalizeEndpoint depth (some emptyRef) = emptyRefDefaults ∧
      normalizeEndpoint depth (some (.obj emptyRefDefaults)) = emptyRefDefaults := by
    intro depth deep
    cases depth with
    | zero => omega
    | succ depth => exact emptyRef_defaults _
  have own : ∀ part ∈ shape.parts, normalizeEndpoint (max enough enough' + 1) (some part.1) = recordOf part :=
    ended _ (by omega)
  have ownRef := (ref _ (Nat.le_refl _)).1
  refine ⟨normalizeEndpoint (max enough enough' + 1), ⟨max enough enough' + 2, fun depth deep => ?_⟩,
    ⟨max enough enough' + 2, fun depth deep => ?_⟩, ownRef, own⟩
  · cases depth with
    | zero => omega
    | succ depth =>
      refine ensureEndpointDefaults_congr read (fun part member => ?_) ?_
      · obtain ⟨whole, known, rfl⟩ := inside part member
        rw [own whole known]
        exact ended depth (by omega) whole known
      · rw [ownRef]
        exact (ref depth (by omega)).1
  · cases depth with
    | zero => omega
    | succ depth =>
      refine ensureEndpointDefaults_twice read (fun part member => ?_) ?_
      · obtain ⟨whole, known, rfl⟩ := inside part member
        rw [nested, own whole known]
        exact stayed depth (by omega) whole known
      · rw [nested, ownRef]
        exact (ref depth (by omega)).2

/-- An endpoint means what it did, with the defaults, where the endpoints inside do. -/
theorem means_level {recurse : Option Json → Record} {meaningOf : Json × Meaning → Meaning}
    (read : readShape json = some (shape.map Prod.fst)) (text : ∀ fields, json.get? "static" ≠ some (.obj fields))
    (cases : ("__proto__" : Text) ∉ caseNames (shape.map Prod.fst).kind)
    (ref : recurse (some emptyRef) = emptyRefDefaults) (own : ∀ part ∈ shape.parts, recurse (some part.1) = recordOf part)
    (means : ∀ part ∈ shape.parts, Means (.obj (recordOf part)) (meaningOf part))
    (defaulted : ∀ part ∈ shape.parts, Defaulted part.2 (meaningOf part)) :
    ∃ after, Means (.obj (ensureEndpointDefaults recurse (some json))) after ∧ Defaulted (.mk (shape.map Prod.snd)) after := by
  let result : Shape (Json × Meaning) := defaultedShape (.obj emptyRefDefaults, noDefault)
    (shape.map fun part => (.obj (recordOf part), meaningOf part))
  have after : result.map Prod.snd = defaultedShape noDefault (shape.map meaningOf) := by
    rw [defaultedShape_map, Shape.map_map]
    rfl
  refine ⟨.mk (result.map Prod.snd), .level result ?_ fun part member => ?_, ?_⟩
  · rw [readShape_defaulted read text cases, defaultedShape_map, Shape.map_map, Shape.map_map, nested, ref]
    exact congrArg (fun shape => some (defaultedShape (.obj emptyRefDefaults) shape))
      (Shape.map_congr fun part inside => congrArg Json.obj (own part inside))
  · rcases mem_defaultedShape_parts member with rfl | inside
    · exact emptyRefDefaults_means
    · rw [Shape.parts_map] at inside
      obtain ⟨whole, known, rfl⟩ := List.mem_map.mp inside
      exact means whole known
  · have level := Defaulted.level (shape.map fun part => (part.2, meaningOf part)) fun part inside => by
      rw [Shape.parts_map] at inside
      obtain ⟨whole, known, rfl⟩ := List.mem_map.mp inside
      exact defaulted whole known
    rw [Shape.map_map, Shape.map_map] at level
    rw [after]
    exact level

end

/-- Every endpoint that the backend accepts gets its defaults, and gets them once. Unless a static response has settings,
its meaning is the one before with the defaults. -/
theorem normalizes_means {json : Json} {meaning : Meaning} (accepted : Means json meaning) :
    ∃ record, Normalizes json record ∧ Normalizes (.obj record) record ∧
      (Plain json → ∃ after, Means (.obj record) after ∧ Defaulted meaning after) := by
  induction accepted with
  | level shape read parts ih =>
    choose! recordOf ends stays means using ih
    obtain ⟨recurse, ended, stayed, ref, own⟩ := normalizes_level read ends stays
    refine ⟨_, ended, stayed, fun plain => ?_⟩
    obtain ⟨read', text, cases, plainParts⟩ := plain
    obtain rfl := Option.some.inj (read'.symm.trans read)
    have partsMean : ∀ part ∈ shape.parts, ∃ after, Means (.obj (recordOf part)) after ∧ Defaulted part.2 after := by
      intro part member
      apply means part member
      apply plainParts
      rw [Shape.parts_map]
      exact List.mem_map_of_mem member
    choose! meaningOf after defaulted using partsMean
    exact means_level read text cases ref own after defaulted

theorem ref_means (name : Text) : Means (.obj [("ref", .str name)]) (.mk ⟨.ref name, []⟩) := .level ⟨.ref name, []⟩ rfl nofun

theorem ref_plain (name : Text) : Plain (.obj [("ref", .str name)]) :=
  @Plain.level _ ⟨.ref name, []⟩ rfl nofun nofun nofun

/-- A switch with a dead-letter queue that has no default. -/
def routedOrders : Json :=
  .obj [("switch", .obj [("metadata_key", .str "kind"), ("cases", .obj [("new", .obj [("ref", .str "orders")])])]),
    ("middlewares", .arr [.obj [("dlq", .obj [("endpoint", .obj [("ref", .str "failed")])])]])]

theorem normalizes_means_orders : ∃ record, Normalizes routedOrders record ∧ Normalizes (.obj record) record ∧
    ∃ after, Means (.obj record) after ∧
      Defaulted (.mk ⟨.lookup "kind" [("new", .mk ⟨.ref "orders", []⟩)] none, [.dlq (.mk ⟨.ref "failed", []⟩)]⟩) after := by
  have accepted : Means routedOrders
      (.mk ⟨.lookup "kind" [("new", .mk ⟨.ref "orders", []⟩)] none, [.dlq (.mk ⟨.ref "failed", []⟩)]⟩) := by
    refine .level ⟨.lookup "kind" [("new", .obj [("ref", .str "orders")], .mk ⟨.ref "orders", []⟩)] none,
      [.dlq (.obj [("ref", .str "failed")], .mk ⟨.ref "failed", []⟩)]⟩ rfl ?_
    rintro part (_ | ⟨_, _ | ⟨_, ⟨⟩⟩⟩)
    · exact ref_means "orders"
    · exact ref_means "failed"
  have plain : Plain routedOrders := by
    refine @Plain.level _ ⟨.lookup "kind" [("new", .obj [("ref", .str "orders")])] none,
      [.dlq (.obj [("ref", .str "failed")])]⟩ rfl nofun (by decide) ?_
    rintro part (_ | ⟨_, _ | ⟨_, ⟨⟩⟩⟩)
    · exact ref_plain "orders"
    · exact ref_plain "failed"
  obtain ⟨record, ends, stays, means⟩ := normalizes_means accepted
  exact ⟨record, ends, stays, means plain⟩

theorem not_means_of_changed {json : Json} {meaning : Shape Meaning} (changed : Shape Json)
    (read : ∀ depth, readShape (.obj (normalizeEndpoint (depth + 2) (some json))) = some changed)
    (apart : changed.map (fun _ => ()) ≠ meaning.map fun _ => ()) (record : Record) (ends : Normalizes json record) :
    ¬Means (.obj record) (.mk meaning) := by
  obtain ⟨enough, ended⟩ := ends
  have own := read enough
  rw [ended (enough + 2) (Nat.le_add_right _ _)] at own
  exact fun means => apart (means.skeleton own)

/-- The meaning of an accepted endpoint is another one once it has its defaults. -/
def MeaningChanges (json : Json) : Prop :=
  ∃ meaning, Means json meaning ∧ ∀ record, Normalizes json record → ¬Means (.obj record) meaning

def defaultedRef (name : Text) : Json := .obj [("ref", .str name), ("middlewares", .arr [])]

/-- A default is added, an empty metadata key is replaced, encryption with an empty key is dropped, the settings of a
static response are lost, and so is a case that becomes the prototype of the cases. -/
theorem meaning_changes :
    MeaningChanges (.obj [("switch", .obj [("metadata_key", .str "kind"), ("cases", .obj [])])]) ∧
    MeaningChanges (.obj [("switch", .obj [("metadata_key", .str []), ("default", .obj [("ref", .str "orders")])])]) ∧
    MeaningChanges (.obj [("file", .obj [("path", .str "log"), ("encryption", .obj [("key", .str [])])])]) ∧
    MeaningChanges (.obj [("static", .obj [("body", .str "ok"), ("raw", .bool true)])]) ∧
    MeaningChanges (.obj [("switch", .obj [("metadata_key", .str "kind"),
      ("cases", .obj [("__proto__", .obj [("ref", .str "orders")])]), ("default", .obj [("ref", .str "orders")])])]) := by
  refine ⟨⟨_, .level ⟨.lookup "kind" [] none, []⟩ rfl nofun,
      not_means_of_changed ⟨.lookup "kind" [] (some (defaultedRef [])), []⟩ (fun _ => rfl) (by simp [Shape.map, Kind.map])⟩,
    ⟨_, .level ⟨.lookup [] [] (some (.obj [("ref", .str "orders")], .mk ⟨.ref "orders", []⟩)), []⟩ rfl ?_,
      not_means_of_changed ⟨.lookup "type" [] (some (defaultedRef "orders")), []⟩ (fun _ => rfl)
        (by simp [Shape.map, Kind.map, Text.lit])⟩,
    ⟨_, .level ⟨.connector "file" (.obj [("path", .str "log")]) (some [("key", .str [])]), []⟩ rfl nofun,
      not_means_of_changed ⟨.connector "file" (.obj [("path", .str "log")]) none, []⟩ (fun _ => rfl)
        (by simp [Shape.map, Kind.map])⟩,
    ⟨_, .level ⟨.static "ok" true [], []⟩ rfl nofun,
      not_means_of_changed ⟨.static [] false [], []⟩ (fun _ => rfl) (by simp [Shape.map, Kind.map])⟩,
    ⟨_, .level ⟨.lookup "kind" [("__proto__", .obj [("ref", .str "orders")], .mk ⟨.ref "orders", []⟩)]
      (some (.obj [("ref", .str "orders")], .mk ⟨.ref "orders", []⟩)), []⟩ rfl ?_,
      not_means_of_changed ⟨.lookup "kind" [] (some (defaultedRef "orders")), []⟩ (fun _ => rfl)
        (by simp [Shape.map, Kind.map])⟩⟩
  · rintro part (_ | ⟨_, ⟨⟩⟩)
    exact ref_means "orders"
  · rintro part (_ | ⟨_, _ | ⟨_, ⟨⟩⟩⟩)
    · exact ref_means "orders"
    · exact ref_means "orders"

end MqBridge.Ui.EndpointForm
