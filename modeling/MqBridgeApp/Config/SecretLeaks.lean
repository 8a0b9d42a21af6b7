import MqBridgeApp.Config.Secrets
import MqBridgeApp.Lib.Lists

/-!
# What extraction leaves behind

The walk over an endpoint tree takes every sensitive header it comes to. It does not follow the
targets of a `request`, the predicates of a `switch` or the endpoint an HTTP endpoint streams its
responses to, and `headersClean_iff` says that nothing else is left.
-/

namespace MqBridge

/-! ### The edges the walk follows -/

def Edge.visited : Edge → Bool
  | .switchWhen _ | .requestTo | .requestForwardTo | .streamResponseTo => false
  | .dlq _ | .fanout _ | .switchCase _ | .switchDefault | .reader => true

namespace Config
open Text

section Walk
variable (bridge : Bridge)

def edgeEnvText : Edge → Text
  | .dlq index => "__MIDDLEWARES__" ++ ofNat index ++ "__DLQ__ENDPOINT"
  | .fanout index => "__FANOUT__" ++ ofNat index
  | .switchCase name => "__SWITCH__CASES__" ++ bridge.toUppercase name
  | .switchDefault => "__SWITCH__DEFAULT"
  | .reader => "__READER"
  | .switchWhen _ | .requestTo | .requestForwardTo | .streamResponseTo => []

def pathEnvText (path : List Edge) : Text := path.flatMap (edgeEnvText bridge)

def extractChild (pre : Text) (child : Edge × Endpoint) : Edge × Endpoint :=
  (child.1, if child.1.visited then
    (extractHttpHeaderSecretsFromEndpoint bridge child.2 (pre ++ edgeEnvText bridge child.1)).1 else child.2)

def childWrites (pre : Text) (child : Edge × Endpoint) : List (Text × Text) :=
  if child.1.visited then
    (extractHttpHeaderSecretsFromEndpoint bridge child.2 (pre ++ edgeEnvText bridge child.1)).2 else []

variable {bridge}

theorem extractFromMiddlewares_spec (middlewares : List Middleware) (pre : Text) (index : Nat) :
    Endpoint.dlqChildren (extractFromMiddlewares bridge middlewares pre index).1 index =
        (Endpoint.dlqChildren middlewares index).map (extractChild bridge pre) ∧
      (extractFromMiddlewares bridge middlewares pre index).2 =
        (Endpoint.dlqChildren middlewares index).flatMap (childWrites bridge pre) := by
  induction middlewares generalizing index with
  | nil => exact ⟨rfl, rfl⟩
  | cons middleware rest ih =>
    obtain ⟨left, right⟩ := ih (index + 1)
    cases middleware with
    | dlq nested =>
      simp only [extractFromMiddlewares, Endpoint.dlqChildren, List.map_cons, List.flatMap_cons, left, right,
        extractChild, childWrites, Edge.visited, edgeEnvText, if_true, List.append_assoc, and_self]
    | other tag config named =>
      simp only [extractFromMiddlewares, Endpoint.dlqChildren, left, right, and_self]

theorem extractFromBranches_spec (branches : List Endpoint) (pre : Text) (index : Nat) :
    Endpoint.indexed .fanout (extractFromBranches bridge branches pre index).1 index =
        (Endpoint.indexed .fanout branches index).map (extractChild bridge pre) ∧
      (extractFromBranches bridge branches pre index).2 =
        (Endpoint.indexed .fanout branches index).flatMap (childWrites bridge pre) := by
  induction branches generalizing index with
  | nil => exact ⟨rfl, rfl⟩
  | cons nested rest ih =>
    obtain ⟨left, right⟩ := ih (index + 1)
    simp only [extractFromBranches, Endpoint.indexed, List.map_cons, List.flatMap_cons, left, right,
      extractChild, childWrites, Edge.visited, edgeEnvText, if_true, List.append_assoc, and_self]

theorem extractFromCases_spec (cases : List (Text × Endpoint)) (pre : Text) :
    ((extractFromCases bridge cases pre).1.map fun entry => (Edge.switchCase entry.1, entry.2)) =
        (cases.map fun entry => (Edge.switchCase entry.1, entry.2)).map (extractChild bridge pre) ∧
      (extractFromCases bridge cases pre).2 =
        (cases.map fun entry => (Edge.switchCase entry.1, entry.2)).flatMap (childWrites bridge pre) := by
  induction cases with
  | nil => exact ⟨rfl, rfl⟩
  | cons entry rest ih =>
    obtain ⟨name, nested⟩ := entry
    obtain ⟨left, right⟩ := ih
    simp only [extractFromCases, List.map_cons, List.flatMap_cons, left, right,
      extractChild, childWrites, Edge.visited, edgeEnvText, if_true, List.append_assoc, and_self]

theorem indexed_when_spec (pre : Text) (nested : List Endpoint) (index : Nat) :
    (Endpoint.indexed .switchWhen nested index).map (extractChild bridge pre) =
        Endpoint.indexed .switchWhen nested index ∧
      (Endpoint.indexed .switchWhen nested index).flatMap (childWrites bridge pre) = [] := by
  induction nested generalizing index with
  | nil => exact ⟨rfl, rfl⟩
  | cons first rest ih =>
    obtain ⟨left, right⟩ := ih (index + 1)
    simp only [Endpoint.indexed, List.map_cons, List.flatMap_cons, left, right, extractChild, childWrites,
      Edge.visited, Bool.false_eq_true, if_false, List.append_nil, and_self]

theorem extractFromType_spec (endpointType : EndpointType) (pre : Text) :
    Endpoint.typeChildren (extractFromType bridge endpointType pre).1 =
        (Endpoint.typeChildren endpointType).map (extractChild bridge pre) ∧
      (extractFromType bridge endpointType pre).2 =
        (Endpoint.typeChildren endpointType).flatMap (childWrites bridge pre) ++
          (extractCustomHeaders bridge (Endpoint.new endpointType).customHeaders pre).2 := by
  cases endpointType with
  | fanout branches =>
    obtain ⟨left, right⟩ := @extractFromBranches_spec bridge branches pre 0
    exact ⟨left, by simpa [extractFromType, Endpoint.new, Endpoint.customHeaders, extractCustomHeaders,
      Endpoint.typeChildren] using right⟩
  | switch metadataKey cases_ when_ default =>
    obtain ⟨left, right⟩ := @extractFromCases_spec bridge cases_ pre
    obtain ⟨kept, silent⟩ := @indexed_when_spec bridge pre (when_.map Prod.snd) 0
    cases default <;>
      simp only [extractFromType, Endpoint.typeChildren, Endpoint.new, Endpoint.customHeaders,
        extractCustomHeaders, extractFromDefault, left, right, kept, silent, List.map_append,
        List.flatMap_append, Option.toList_none, Option.toList_some, List.map_nil, List.map_cons,
        List.flatMap_nil, List.flatMap_cons, List.filter_nil, List.append_nil, extractChild, childWrites,
        Edge.visited, edgeEnvText, if_true, and_self]
  | reader nested =>
    simp [extractFromType, Endpoint.typeChildren, Endpoint.new, Endpoint.customHeaders,
      extractCustomHeaders, extractChild, childWrites, Edge.visited, edgeEnvText]
  | request to_ forwardTo =>
    simp [extractFromType, Endpoint.typeChildren, Endpoint.new, Endpoint.customHeaders,
      extractCustomHeaders, extractChild, childWrites, Edge.visited]
  | http config streamResponseTo =>
    cases streamResponseTo <;>
      simp [extractFromType, Endpoint.typeChildren, Endpoint.new, Endpoint.customHeaders, extractChild, childWrites,
        Edge.visited]
  | _ => simp [extractFromType, Endpoint.typeChildren, Endpoint.new, Endpoint.customHeaders,
      extractCustomHeaders]

theorem children_extract (endpoint : Endpoint) (pre : Text) :
    (extractHttpHeaderSecretsFromEndpoint bridge endpoint pre).1.children =
      endpoint.children.map (extractChild bridge pre) := by
  obtain ⟨middlewares, endpointType⟩ := endpoint
  simp only [extractHttpHeaderSecretsFromEndpoint, Endpoint.children, List.map_append,
    (extractFromMiddlewares_spec middlewares pre 0).1, (extractFromType_spec endpointType pre).1]

theorem writes_extract (endpoint : Endpoint) (pre : Text) :
    (extractHttpHeaderSecretsFromEndpoint bridge endpoint pre).2 =
      endpoint.children.flatMap (childWrites bridge pre) ++
        (extractCustomHeaders bridge endpoint.customHeaders pre).2 := by
  obtain ⟨middlewares, endpointType⟩ := endpoint
  have own : (Endpoint.mk middlewares endpointType).customHeaders = (Endpoint.new endpointType).customHeaders := by
    cases endpointType <;> rfl
  simp only [extractHttpHeaderSecretsFromEndpoint, Endpoint.children, List.flatMap_append, own,
    (extractFromMiddlewares_spec middlewares pre 0).2, (extractFromType_spec endpointType pre).2,
    List.append_assoc]

theorem customHeaders_extract (endpoint : Endpoint) (pre : Text) :
    (extractHttpHeaderSecretsFromEndpoint bridge endpoint pre).1.customHeaders =
      endpoint.customHeaders.filter fun header => !isSensitiveHttpHeader header.1 := by
  obtain ⟨middlewares, endpointType⟩ := endpoint
  cases endpointType <;> rfl

/-- The endpoint at the end of a path, after the walk: walked over itself when the walk follows every
edge of the path, and otherwise as it was. -/
theorem reaches_extract {endpoint deep : Endpoint} {pre : Text} {path : List Edge} :
    Reaches (extractHttpHeaderSecretsFromEndpoint bridge endpoint pre).1 path deep ↔
      ∃ original, Reaches endpoint path original ∧ deep =
        if path.all Edge.visited then
          (extractHttpHeaderSecretsFromEndpoint bridge original (pre ++ pathEnvText bridge path)).1
        else original := by
  induction path generalizing endpoint pre with
  | nil => simp [reaches_nil, pathEnvText]
  | cons edge rest ih =>
    rw [reaches_cons, children_extract]
    constructor
    · rintro ⟨nested, member, reached⟩
      obtain ⟨⟨edge', child⟩, direct, same⟩ := List.mem_map.mp member
      obtain ⟨rfl, rfl⟩ := Prod.mk.inj same
      by_cases followed : edge'.visited = true
      · simp only [followed, if_true] at reached
        obtain ⟨original, inside, rfl⟩ := ih.mp reached
        refine ⟨original, .child direct inside, ?_⟩
        simp [followed, pathEnvText]
      · rw [if_neg followed] at reached
        exact ⟨deep, .child direct reached, by simp [followed]⟩
    · rintro ⟨original, reached, rfl⟩
      obtain ⟨child, direct, inside⟩ := reaches_cons.mp reached
      refine ⟨(extractChild bridge pre (edge, child)).2, List.mem_map.mpr ⟨_, direct, rfl⟩, ?_⟩
      by_cases followed : edge.visited = true
      · simp only [extractChild, followed, if_true]
        apply ih.mpr
        refine ⟨original, inside, ?_⟩
        simp [followed, pathEnvText]
      · rw [extractChild, if_neg followed]
        simpa [followed] using inside

end Walk

/-! ### What is left -/

def Exposed (header : Text × Text) : Prop := isSensitiveHttpHeader header.1 = true ∧ header.2 ≠ []

section Ways
variable (ways : Edge → Prop)

/-- No secret in an endpoint that is reached over the `ways`. -/
def EndpointClean (endpoint : Endpoint) : Prop :=
  ∀ path nested, Reaches endpoint path nested → (∀ edge ∈ path, ways edge) →
    ∀ header ∈ nested.customHeaders, ¬ Exposed header

/-- No secret that is reached over the `ways` lies below an edge the walk does not follow. -/
def NothingUnvisited (endpoint : Endpoint) : Prop :=
  ∀ path nested, Reaches endpoint path nested → (∀ edge ∈ path, ways edge) →
    (∃ edge ∈ path, edge.visited = false) → ∀ header ∈ nested.customHeaders, ¬ Exposed header

end Ways

def SameHeaders (endpoint endpoint' : Endpoint) : Prop :=
  ∀ path headers, (∃ nested, Reaches endpoint path nested ∧ nested.customHeaders = headers) ↔
    ∃ nested, Reaches endpoint' path nested ∧ nested.customHeaders = headers

theorem SameHeaders.nothingUnvisited {ways : Edge → Prop} {endpoint endpoint' : Endpoint}
    (same : SameHeaders endpoint endpoint') (clean : NothingUnvisited ways endpoint) :
    NothingUnvisited ways endpoint' := by
  intro path nested reached within hidden
  obtain ⟨original, inside, headers⟩ := (same path _).mpr ⟨nested, reached, rfl⟩
  rw [← headers]
  exact clean path original inside within hidden

theorem SameHeaders.symm {endpoint endpoint' : Endpoint} (same : SameHeaders endpoint endpoint') :
    SameHeaders endpoint' endpoint := fun path headers => (same path headers).symm

theorem endpointClean_extract_iff {ways : Edge → Prop} {bridge : Bridge} {endpoint : Endpoint} {pre : Text} :
    EndpointClean ways (extractHttpHeaderSecretsFromEndpoint bridge endpoint pre).1 ↔
      NothingUnvisited ways endpoint := by
  constructor
  · intro clean path nested reached within ⟨edge, member, skipped⟩
    have notAll : path.all Edge.visited = false := List.all_eq_false.mpr ⟨edge, member, by simp [skipped]⟩
    exact clean path nested (reaches_extract.mpr ⟨nested, reached, by simp [notAll]⟩) within
  · intro hidden path deep reached within header member exposed
    obtain ⟨original, inside, rfl⟩ := reaches_extract.mp reached
    by_cases followed : path.all Edge.visited = true
    · rw [if_pos followed, customHeaders_extract] at member
      simp [exposed.1] at member
    · rw [if_neg followed] at member
      obtain ⟨edge, onPath, skipped⟩ := List.all_eq_false.mp (Bool.not_eq_true _ ▸ followed)
      exact hidden path original inside within ⟨edge, onPath, by simpa using skipped⟩ header member exposed

/-- The endpoints at the roots of a configuration's trees. -/
def AppConfig.endpoints (config : AppConfig) : List Endpoint :=
  (config.routes.flatMap fun entry => [entry.2.route.input, entry.2.route.output]) ++
    config.consumers.map ConsumerConfig.endpoint ++ config.publishers.map PublisherClient.endpoint

/-- No secret in a custom header of any endpoint reached over the `ways` or in a publisher's header row. -/
def AppConfig.HeadersClean (ways : Edge → Prop) (config : AppConfig) : Prop :=
  (∀ endpoint ∈ config.endpoints, EndpointClean ways endpoint) ∧
    ∀ publisher ∈ config.publishers, ∀ row ∈ publisher.headers, ¬ Exposed (row.key, row.value)

/-- The connectors' own extraction leaves the custom headers where they are. -/
structure Bridge.KeepsHeaders (bridge : Bridge) : Prop where
  endpoint : ∀ endpoint, SameHeaders endpoint (bridge.endpoint endpoint).1
  input : ∀ route, SameHeaders route.input (bridge.route route).1.input
  output : ∀ route, SameHeaders route.output (bridge.route route).1.output

/-- `after` is what extraction makes of `before`. -/
def Walked (bridge : Bridge) (before after : Endpoint) : Prop :=
  ∃ kept pre, SameHeaders before kept ∧ after = (extractHttpHeaderSecretsFromEndpoint bridge kept pre).1

theorem Walked.clean_iff (ways : Edge → Prop) {bridge : Bridge} {before after : Endpoint}
    (walked : Walked bridge before after) : EndpointClean ways after ↔ NothingUnvisited ways before := by
  obtain ⟨kept, pre, same, rfl⟩ := walked
  rw [endpointClean_extract_iff]
  exact ⟨same.symm.nothingUnvisited, same.nothingUnvisited⟩

theorem endpoints_extract {bridge : Bridge} (keeps : bridge.KeepsHeaders) (config : AppConfig) :
    List.Forall₂ (Walked bridge) config.endpoints (config.extractSecretValues bridge).1.endpoints := by
  unfold AppConfig.endpoints AppConfig.extractSecretValues
  refine List.rel_append (List.rel_append ?_ ?_) ?_
  · induction config.routes with
    | nil => exact .nil
    | cons entry rest ih =>
      refine .cons ⟨_, _, keeps.input entry.2.route, rfl⟩ (.cons ⟨_, _, keeps.output entry.2.route, rfl⟩ ih)
  · rw [List.map_map, List.forall₂_map_left_iff, List.forall₂_map_right_iff, List.forall₂_same]
    exact fun consumer _ => ⟨_, _, keeps.endpoint consumer.endpoint, rfl⟩
  · rw [List.map_map, List.forall₂_map_left_iff, List.forall₂_map_right_iff, List.forall₂_same]
    exact fun publisher _ => ⟨_, _, keeps.endpoint publisher.endpoint, rfl⟩

theorem rows_clean {bridge : Bridge} (config : AppConfig) :
    ∀ publisher ∈ (config.extractSecretValues bridge).1.publishers,
      ∀ row ∈ publisher.headers, ¬ Exposed (row.key, row.value) := by
  intro publisher member row inside ⟨sensitive, full⟩
  obtain ⟨original, -, rfl⟩ := List.mem_map.mp member
  obtain ⟨before, -, rfl⟩ := List.mem_map.mp inside
  split at sensitive <;> split at full <;> simp_all [isSecretRow]

/-- Over whatever ways an endpoint counts as reached, extraction leaves no secret header exactly when none
was below an edge that the walk does not follow. -/
theorem headersClean_iff (ways : Edge → Prop) (bridge : Bridge) (keeps : bridge.KeepsHeaders) (config : AppConfig) :
    (config.extractSecretValues bridge).1.HeadersClean ways ↔
      ∀ endpoint ∈ config.endpoints, NothingUnvisited ways endpoint := by
  have trees := Lists.forall_mem_iff_of_forall₂ (fun _ _ walked => Walked.clean_iff ways walked)
    (endpoints_extract keeps config)
  exact ⟨fun clean => trees.mp clean.1, fun hidden => ⟨trees.mpr hidden, rows_clean config⟩⟩

def noOwnSecrets : Bridge where
  toUppercase := toAsciiUppercase
  endpoint endpoint := (endpoint, [])
  route route := (route, [])
  iterate := id

theorem noOwnSecrets_keepsHeaders : noOwnSecrets.KeepsHeaders where
  endpoint _ _ _ := Iff.rfl
  input _ _ _ := Iff.rfl
  output _ _ _ := Iff.rfl

def httpWithHeader (name value : Text) : Endpoint :=
  .new (.http { url := "https://api.example", customHeaders := [(name, value)] } none)

/-- A publisher whose HTTP branch has its response discarded. -/
def mirroredPublisher : PublisherClient where
  id := "p1"
  name := "mirror"
  endpoint := .new (.fanout [.new (.request (httpWithHeader "Authorization" "Bearer t0ken") (.new .null))])

theorem headersClean_iff_mirrored :
    (AppConfig.extractSecretValues noOwnSecrets { publishers := [mirroredPublisher] }).1.HeadersClean
        (· ≠ .streamResponseTo) ↔
      ∀ endpoint ∈ AppConfig.endpoints { publishers := [mirroredPublisher] },
        NothingUnvisited (· ≠ .streamResponseTo) endpoint :=
  headersClean_iff _ noOwnSecrets noOwnSecrets_keepsHeaders _

theorem mirrored_header_stays :
    ¬ (AppConfig.extractSecretValues noOwnSecrets { publishers := [mirroredPublisher] }).1.HeadersClean
        (· ≠ .streamResponseTo) := by
  intro clean
  have kept : mirroredPublisher.endpoint ∈
      (AppConfig.extractSecretValues noOwnSecrets { publishers := [mirroredPublisher] }).1.endpoints :=
    List.mem_singleton.mpr rfl
  have reached : Reaches mirroredPublisher.endpoint [.fanout 0, .requestTo]
      (httpWithHeader "Authorization" "Bearer t0ken") :=
    .child List.mem_cons_self (.child List.mem_cons_self (.here _))
  exact clean.1 _ kept _ _ reached (by decide) _ List.mem_cons_self ⟨by decide, by decide⟩

end Config

end MqBridge
