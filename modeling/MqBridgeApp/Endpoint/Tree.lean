import MqBridgeApp.Endpoint.Model

/-!
# Endpoint trees

The endpoints nested directly in an endpoint, each under the edge that leads to it, and the
endpoints it reaches through any number of edges.
-/

namespace MqBridge

inductive Edge where
  | dlq (index : Nat)
  | fanout (index : Nat)
  | switchCase (name : Text)
  | switchWhen (index : Nat)
  | switchDefault
  | reader
  | requestTo
  | requestForwardTo
  | streamResponseTo
  deriving DecidableEq

namespace Endpoint

def dlqChildren : List Middleware → Nat → List (Edge × Endpoint)
  | [], _ => []
  | .dlq nested :: rest, index => (.dlq index, nested) :: dlqChildren rest (index + 1)
  | .other _ _ _ :: rest, index => dlqChildren rest (index + 1)

def indexed (edge : Nat → Edge) : List Endpoint → Nat → List (Edge × Endpoint)
  | [], _ => []
  | nested :: rest, index => (edge index, nested) :: indexed edge rest (index + 1)

def typeChildren : EndpointType → List (Edge × Endpoint)
  | .fanout branches => indexed .fanout branches 0
  | .switch _ cases when_ default =>
    (cases.map fun entry => (.switchCase entry.1, entry.2)) ++
      indexed .switchWhen (when_.map Prod.snd) 0 ++ default.toList.map fun nested => (.switchDefault, nested)
  | .reader nested => [(.reader, nested)]
  | .request to_ forwardTo => [(.requestTo, to_), (.requestForwardTo, forwardTo)]
  | .http _ streamResponseTo => streamResponseTo.toList.map fun nested => (.streamResponseTo, nested)
  | .null | .static _ | .response | .custom _ _ | .connector _ _ => []

def children : Endpoint → List (Edge × Endpoint)
  | .mk middlewares endpointType => dlqChildren middlewares 0 ++ typeChildren endpointType

def customHeaders : Endpoint → List (Text × Text)
  | .mk _ (.http config _) => config.customHeaders
  | _ => []

theorem sizeOf_dlqChildren {middlewares : List Middleware} {index : Nat} {edge : Edge} {nested : Endpoint}
    (member : (edge, nested) ∈ dlqChildren middlewares index) : sizeOf nested < sizeOf middlewares := by
  induction middlewares generalizing index with
  | nil => simp [dlqChildren] at member
  | cons middleware rest ih =>
    cases middleware with
    | dlq first =>
      rcases List.mem_cons.mp member with same | later
      · cases same
        simp only [List.cons.sizeOf_spec, Middleware.dlq.sizeOf_spec]
        omega
      · have := ih later
        simp only [List.cons.sizeOf_spec]
        omega
    | other tag config named =>
      have := ih member
      simp only [List.cons.sizeOf_spec]
      omega

theorem mem_indexed {edge : Nat → Edge} {branches : List Endpoint} {index : Nat} {step : Edge}
    {nested : Endpoint} (member : (step, nested) ∈ indexed edge branches index) : nested ∈ branches := by
  induction branches generalizing index with
  | nil => simp [indexed] at member
  | cons first rest ih =>
    rcases List.mem_cons.mp member with same | later
    · cases same
      exact List.mem_cons_self
    · exact List.mem_cons_of_mem _ (ih later)

theorem sizeOf_snd_lt {entries : List (Text × Endpoint)} {entry : Text × Endpoint} (member : entry ∈ entries) :
    sizeOf entry.2 < sizeOf entries := by
  have := List.sizeOf_lt_of_mem member
  obtain ⟨name, nested⟩ := entry
  simp only [Prod.mk.sizeOf_spec] at this
  show sizeOf nested < sizeOf entries
  omega

theorem sizeOf_typeChildren {endpointType : EndpointType} {edge : Edge} {nested : Endpoint}
    (member : (edge, nested) ∈ typeChildren endpointType) : sizeOf nested < sizeOf endpointType := by
  cases endpointType with
  | http config streamResponseTo =>
    obtain ⟨inner, there, same⟩ := List.mem_map.mp member
    cases same
    obtain rfl := Option.mem_toList.mp there
    simp only [EndpointType.http.sizeOf_spec, Option.some.sizeOf_spec]
    omega
  | fanout branches =>
    have := List.sizeOf_lt_of_mem (mem_indexed member)
    simp only [EndpointType.fanout.sizeOf_spec]
    omega
  | switch metadataKey cases_ when_ default =>
    simp only [EndpointType.switch.sizeOf_spec]
    rcases List.mem_append.mp member with inside | last
    · rcases List.mem_append.mp inside with found | found
      · obtain ⟨entry, present, same⟩ := List.mem_map.mp found
        cases same
        have := sizeOf_snd_lt present
        omega
      · obtain ⟨entry, present, same⟩ := List.mem_map.mp (mem_indexed found)
        subst same
        have := sizeOf_snd_lt present
        omega
    · cases default with
      | none => simp at last
      | some last' =>
        simp only [Option.toList_some, List.map_cons, List.map_nil, List.mem_singleton] at last
        cases last
        simp only [Option.some.sizeOf_spec]
        omega
  | reader inner =>
    simp only [typeChildren, List.mem_singleton, Prod.mk.injEq] at member
    obtain ⟨-, rfl⟩ := member
    simp
  | request to_ forwardTo =>
    simp only [typeChildren, List.mem_cons, List.not_mem_nil, or_false, Prod.mk.injEq] at member
    simp only [EndpointType.request.sizeOf_spec]
    rcases member with ⟨-, rfl⟩ | ⟨-, rfl⟩ <;> omega
  | _ => simp [typeChildren] at member

theorem sizeOf_children {endpoint nested : Endpoint} {edge : Edge} (member : (edge, nested) ∈ endpoint.children) :
    sizeOf nested < sizeOf endpoint := by
  obtain ⟨middlewares, endpointType⟩ := endpoint
  simp only [mk.sizeOf_spec]
  rcases List.mem_append.mp member with found | found
  · have := sizeOf_dlqChildren found
    omega
  · have := sizeOf_typeChildren found
    omega

theorem induction {motive : Endpoint → Prop}
    (step : ∀ endpoint, (∀ edge nested, (edge, nested) ∈ endpoint.children → motive nested) → motive endpoint)
    (endpoint : Endpoint) : motive endpoint :=
  step endpoint fun _ nested _ => induction step nested
termination_by sizeOf endpoint
decreasing_by exact sizeOf_children ‹_›

end Endpoint

/-- `Reaches endpoint path nested`: the edges of `path`, one after the other, lead to `nested`. -/
inductive Reaches : Endpoint → List Edge → Endpoint → Prop where
  | here (endpoint : Endpoint) : Reaches endpoint [] endpoint
  | child {endpoint nested deep : Endpoint} {edge : Edge} {path : List Edge}
      (direct : (edge, nested) ∈ endpoint.children) (rest : Reaches nested path deep) :
      Reaches endpoint (edge :: path) deep

theorem reaches_nil {endpoint nested : Endpoint} : Reaches endpoint [] nested ↔ nested = endpoint := by
  constructor
  · rintro ⟨⟩
    rfl
  · rintro rfl
    exact .here _

theorem reaches_cons {endpoint deep : Endpoint} {edge : Edge} {path : List Edge} :
    Reaches endpoint (edge :: path) deep ↔
      ∃ nested, (edge, nested) ∈ endpoint.children ∧ Reaches nested path deep := by
  constructor
  · rintro ⟨⟩
    exact ⟨_, ‹_›, ‹_›⟩
  · rintro ⟨nested, direct, rest⟩
    exact .child direct rest

theorem toDatas_eq_map (endpoints : List Endpoint) : Endpoint.toDatas endpoints = endpoints.map Endpoint.toData := by
  induction endpoints with
  | nil => rfl
  | cons endpoint rest ih => rw [Endpoint.toDatas, ih, List.map_cons]

theorem middlewareDatas_eq_map (middlewares : List Middleware) :
    Middleware.toDatas middlewares = middlewares.map Middleware.toData := by
  induction middlewares with
  | nil => rfl
  | cons middleware rest ih => rw [Middleware.toDatas, ih, List.map_cons]

theorem lookup_caseDatas (name : Text) (cases : List (Text × Endpoint)) :
    (Endpoint.caseDatas cases).lookup name = (cases.lookup name).map Endpoint.toData := by
  induction cases with
  | nil => rfl
  | cons entry rest ih =>
    rw [Endpoint.caseDatas, List.lookup_cons, List.lookup_cons, ih]
    cases name == entry.1 <;> rfl

theorem whenDatas_eq_map (when_ : List (Text × Endpoint)) :
    Endpoint.whenDatas when_ = when_.map fun entry => .record [("if", .str entry.1), ("to", entry.2.toData)] := by
  induction when_ with
  | nil => rfl
  | cons entry rest ih => rw [Endpoint.whenDatas, ih, List.map_cons]

end MqBridge
