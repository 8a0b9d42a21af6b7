import MqBridgeApp.Config.SecretLeaks
import MqBridgeApp.Lib.JsonPath

/-!
# The secrets that extraction removes

One entry for each header and each header row that `extractSecretValues` takes, with the place it is
taken from and the variables it is stored under.
-/

namespace MqBridge.Config
open Text

/-- The headers the walk takes from a tree, each with the path to its endpoint, in order. -/
def takenHeaders (endpoint : Endpoint) : List (List Edge × Text × Text) :=
  (endpoint.children.attach.flatMap fun child =>
      if child.1.1.visited then (takenHeaders child.1.2).map fun taken => (child.1.1 :: taken.1, taken.2) else []) ++
    (endpoint.customHeaders.filter fun header => isSensitiveHttpHeader header.1).map fun header => ([], header)
termination_by sizeOf endpoint
decreasing_by exact Endpoint.sizeOf_children child.2

/-- Where an endpoint belongs in a configuration. -/
inductive Owner where
  | input (route : Text)
  | output (route : Text)
  | consumer (index : Nat) (id name : Text)
  | publisher (index : Nat) (id name : Text)

inductive Place where
  | header (path : List Edge)
  | row (index : Nat)

structure Removed where
  owner : Owner
  place : Place
  name : Text
  value : Text

def ownerHeaders (owner : Owner) (endpoint : Endpoint) : List Removed :=
  (takenHeaders endpoint).map fun taken => ⟨owner, .header taken.1, taken.2.1, taken.2.2⟩

def ownerRows (owner : Owner) (rows : List HeaderRow) : List Removed :=
  (rows.zipIdx.filter fun row => isSecretRow row.1).map fun row => ⟨owner, .row row.2, row.1.key, row.1.value⟩

section
variable (bridge : Bridge)

def removedFromRoute (entry : Text × RouteConfig) : List Removed :=
  ownerHeaders (.input entry.1) (bridge.route entry.2.route).1.input ++
    ownerHeaders (.output entry.1) (bridge.route entry.2.route).1.output

def removedFromConsumer (consumer : ConsumerConfig × Nat) : List Removed :=
  ownerHeaders (.consumer consumer.2 consumer.1.id consumer.1.name) (bridge.endpoint consumer.1.endpoint).1

def removedFromPublisher (publisher : PublisherClient × Nat) : List Removed :=
  ownerHeaders (.publisher publisher.2 publisher.1.id publisher.1.name) (bridge.endpoint publisher.1.endpoint).1 ++
    ownerRows (.publisher publisher.2 publisher.1.id publisher.1.name) publisher.1.headers

/-- What is removed, in the order it is removed in. -/
def AppConfig.removedSecrets (config : AppConfig) : List Removed :=
  config.routes.flatMap (removedFromRoute bridge) ++ config.consumers.zipIdx.flatMap (removedFromConsumer bridge) ++
    config.publishers.zipIdx.flatMap (removedFromPublisher bridge)

def edgeSteps : Edge → List Step
  | .dlq index => [.key "middlewares", .index index, .key "dlq", .key "endpoint"]
  | .fanout index => [.key "fanout", .index index]
  | .switchCase name => [.key "switch", .key "cases", .key name]
  | .switchWhen index => [.key "switch", .key "when", .index index, .key "to"]
  | .switchDefault => [.key "switch", .key "default"]
  | .reader => [.key "reader"]
  | .requestTo => [.key "request", .key "to"]
  | .requestForwardTo => [.key "request", .key "forward_to"]
  | .streamResponseTo => [.key "http", .key "stream_response_to"]

def headerSteps (path : List Edge) (name : Text) : List Step :=
  path.flatMap edgeSteps ++ [.key "http", .key "custom_headers", .key name]

def Owner.steps : Owner → List Step
  | .input route | .output route => [.key "routes", .key route]
  | .consumer index _ _ => [.key "consumers", .index index]
  | .publisher index _ _ => [.key "publishers", .index index]

def Owner.endpointKey : Owner → Text
  | .input _ => "input"
  | .output _ => "output"
  | .consumer _ _ _ | .publisher _ _ _ => "endpoint"

def Removed.location (removed : Removed) : List Step :=
  match removed.place with
  | .header path => removed.owner.steps ++ .key removed.owner.endpointKey :: headerSteps path removed.name
  | .row index => removed.owner.steps ++ [.key "headers", .index index, .key "value"]

/-- The start of the variables of an owner's secrets, derived from its id where it has one. -/
def Owner.envText : Owner → Text
  | .input route => "MQB__ROUTES__" ++ sanitizeNameForEnv route ++ "__" ++ "__INPUT"
  | .output route => "MQB__ROUTES__" ++ sanitizeNameForEnv route ++ "__" ++ "__OUTPUT"
  | .consumer _ id _ => entityPrefix .consumers (sanitizeIdForEnv bridge id)
  | .publisher _ id _ => entityPrefix .publishers (sanitizeIdForEnv bridge id)

def Place.envText : Place → Text
  | .header path => pathEnvText bridge path ++ "__HTTP__CUSTOM_HEADERS__"
  | .row _ => "__HEADERS__"

variable {bridge}

theorem takenHeaders_eq (endpoint : Endpoint) : takenHeaders endpoint =
    (endpoint.children.flatMap fun child =>
      if child.1.visited then (takenHeaders child.2).map fun taken => (child.1 :: taken.1, taken.2) else []) ++
    (endpoint.customHeaders.filter fun header => isSensitiveHttpHeader header.1).map fun header => ([], header) := by
  rw [takenHeaders]
  congr 1
  rw [List.flatMap_def, List.flatMap_def]
  exact congrArg List.flatten (@List.attach_map_val _ _ endpoint.children fun child =>
    if child.1.visited then (takenHeaders child.2).map fun taken => (child.1 :: taken.1, taken.2) else [])

theorem writes_eq_taken (endpoint : Endpoint) (pre : Text) :
    (extractHttpHeaderSecretsFromEndpoint bridge endpoint pre).2 = (takenHeaders endpoint).map fun taken =>
      (pre ++ ((Place.header taken.1).envText bridge ++ headerEnvName bridge taken.2.1), taken.2.2) := by
  induction endpoint using Endpoint.induction generalizing pre with
  | step endpoint ih =>
    rw [writes_extract, takenHeaders_eq, List.map_append, List.map_flatMap]
    congr 1
    · rw [List.flatMap_def, List.flatMap_def]
      refine congrArg List.flatten (List.map_congr_left ?_)
      rintro ⟨edge, nested⟩ member
      unfold childWrites
      by_cases visited : edge.visited = true
      · rw [if_pos visited, if_pos visited, ih edge nested member, List.map_map]
        simp only [Function.comp_def, Place.envText, pathEnvText, List.flatMap_cons, List.append_assoc]
      · rw [if_neg visited, if_neg visited, List.map_nil]
    · rw [extractCustomHeaders, List.map_map]
      simp only [Function.comp_def, Place.envText, pathEnvText, List.flatMap_nil, List.nil_append, List.append_assoc]

/-- Every header that is taken is a sensitive one, at a place the walk visits. -/
theorem takenHeaders_spec {endpoint : Endpoint} {taken : List Edge × Text × Text}
    (member : taken ∈ takenHeaders endpoint) :
    isSensitiveHttpHeader taken.2.1 = true ∧ ∀ edge ∈ taken.1, edge.visited = true := by
  induction endpoint using Endpoint.induction generalizing taken with
  | step endpoint ih =>
    rw [takenHeaders_eq] at member
    rcases List.mem_append.mp member with below | own
    · obtain ⟨⟨edge, nested⟩, direct, inside⟩ := List.mem_flatMap.mp below
      split at inside
      · next visited =>
        obtain ⟨deeper, there, rfl⟩ := List.mem_map.mp inside
        obtain ⟨sensitive, path⟩ := ih edge nested direct there
        exact ⟨sensitive, List.forall_mem_cons.mpr ⟨visited, path⟩⟩
      · cases inside
    · obtain ⟨header, kept, rfl⟩ := List.mem_map.mp own
      exact ⟨(List.mem_filter.mp kept).2, nofun⟩

end

end MqBridge.Config
