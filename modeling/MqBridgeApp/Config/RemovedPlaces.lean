import MqBridgeApp.Config.ConsumerValue
import MqBridgeApp.Config.RemovedSecrets

/-!
# The places secrets are removed from

What a place of a removed secret holds in the configuration that extraction leaves: nothing, or the
empty value of a header row.
-/

namespace MqBridge.Config
open Text

/-! ### Endpoints -/

theorem mem_dlqChildren {middlewares : List Middleware} {index start : Nat} {nested : Endpoint}
    (here : middlewares[index]? = some (.dlq nested)) :
    (Edge.dlq (start + index), nested) ∈ Endpoint.dlqChildren middlewares start := by
  induction middlewares generalizing index start with
  | nil => simp at here
  | cons middleware rest ih =>
    cases index with
    | zero =>
      obtain rfl := Option.some.inj here
      exact List.mem_cons_self
    | succ index =>
      have later := @ih index (start + 1) here
      rw [Nat.add_right_comm] at later
      cases middleware with
      | dlq first => exact List.mem_cons_of_mem _ later
      | other tag config named => exact later

theorem mem_indexed_of {edge : Nat → Edge} {branches : List Endpoint} {index start : Nat} {nested : Endpoint}
    (here : branches[index]? = some nested) : (edge (start + index), nested) ∈ Endpoint.indexed edge branches start := by
  induction branches generalizing index start with
  | nil => simp at here
  | cons first rest ih =>
    cases index with
    | zero =>
      obtain rfl := Option.some.inj here
      exact List.mem_cons_self
    | succ index =>
      have later := @ih index (start + 1) here
      rw [Nat.add_right_comm] at later
      exact List.mem_cons_of_mem _ later

theorem follow_type {middlewares : List Middleware} {endpointType : EndpointType} {name : Text} {rest : List Step}
    {found : Json} (other : name ≠ "middlewares")
    (read : (Endpoint.mk middlewares endpointType).toValue.follow (.key name :: rest) = some found) :
    endpointType.tag = name ∧ endpointType.toData.toValue.follow rest = some found := by
  rw [Endpoint.toValue, Endpoint.toData, Data.follow_record, List.lookup_cons, beq_false_of_ne other,
    List.lookup_cons] at read
  cases same : name == endpointType.tag with
  | true =>
    rw [same] at read
    exact ⟨(eq_of_beq same).symm, read⟩
  | false =>
    rw [same] at read
    cases read

theorem connector_tag_ne (kind : Connector) :
    kind.tag ≠ "http" ∧ kind.tag ≠ "fanout" ∧ kind.tag ≠ "switch" ∧ kind.tag ≠ "reader" := by
  cases kind <;> decide

theorem follow_fanout {middlewares : List Middleware} {endpointType : EndpointType} {index : Nat} {rest : List Step}
    {found : Json}
    (read : (Endpoint.mk middlewares endpointType).toValue.follow (.key "fanout" :: .index index :: rest) = some found) :
    ∃ nested, (Edge.fanout index, nested) ∈ (Endpoint.mk middlewares endpointType).children ∧
      nested.toValue.follow rest = some found := by
  obtain ⟨tag, inner⟩ := follow_type (by decide) read
  cases endpointType with
  | fanout branches =>
    rw [EndpointType.toData, Data.follow_seq, toDatas_eq_map, List.getElem?_map, Option.bind_map,
      Option.bind_eq_some_iff] at inner
    obtain ⟨nested, here, deeper⟩ := inner
    have member := @mem_indexed_of .fanout branches index 0 nested here
    rw [Nat.zero_add] at member
    exact ⟨nested, List.mem_append_right _ member, deeper⟩
  | connector kind config => exact absurd tag (connector_tag_ne kind).2.1
  | _ => simp +decide [EndpointType.tag] at tag

theorem follow_dlq {middlewares : List Middleware} {endpointType : EndpointType} {index : Nat} {rest : List Step}
    {found : Json}
    (read : (Endpoint.mk middlewares endpointType).toValue.follow (edgeSteps (.dlq index) ++ rest) = some found) :
    ∃ nested, (Edge.dlq index, nested) ∈ (Endpoint.mk middlewares endpointType).children ∧
      nested.toValue.follow rest = some found := by
  rw [edgeSteps, List.cons_append, Endpoint.toValue, Endpoint.toData, Data.follow_record, List.lookup_cons,
    beq_self_eq_true, Option.bind_some, List.cons_append, Data.follow_seq, middlewareDatas_eq_map, List.getElem?_map,
    Option.bind_map, Option.bind_eq_some_iff] at read
  obtain ⟨middleware, here, inner⟩ := read
  cases middleware with
  | dlq nested =>
    have member := @mem_dlqChildren middlewares index 0 nested here
    rw [Nat.zero_add] at member
    exact ⟨nested, List.mem_append_left _ member, inner⟩
  | other tag config named =>
    rw [Function.comp_apply, Middleware.toData, List.cons_append, Data.follow_record, List.lookup_cons,
      beq_false_of_ne (Ne.symm named)] at inner
    cases inner

theorem follow_switch {middlewares : List Middleware} {endpointType : EndpointType} {rest : List Step} {found : Json}
    (read : (Endpoint.mk middlewares endpointType).toValue.follow (.key "switch" :: rest) = some found) :
    ∃ metadataKey cases when_ default, endpointType = .switch metadataKey cases when_ default ∧
      endpointType.toData.toValue.follow rest = some found := by
  obtain ⟨tag, inner⟩ := follow_type (by decide) read
  cases endpointType with
  | switch metadataKey cases when_ default => exact ⟨metadataKey, cases, when_, default, rfl, inner⟩
  | connector kind config => exact absurd tag (connector_tag_ne kind).2.2.1
  | _ => simp +decide [EndpointType.tag] at tag

theorem follow_edge {endpoint : Endpoint} {edge : Edge} {step : Step} {rest : List Step} {found : Json}
    (visited : edge.visited = true)
    (read : endpoint.toValue.follow (edgeSteps edge ++ step :: rest) = some found) :
    ∃ nested, (edge, nested) ∈ endpoint.children ∧ nested.toValue.follow (step :: rest) = some found := by
  obtain ⟨middlewares, endpointType⟩ := endpoint
  cases edge with
  | dlq index => exact follow_dlq read
  | fanout index => exact follow_fanout read
  | switchCase name =>
    obtain ⟨metadataKey, cases_, when_, default, rfl, inner⟩ := follow_switch read
    have chosen : (cases_.lookup name).bind (fun nested => nested.toValue.follow (step :: rest)) = some found := by
      have map := Data.follow_map name (step :: rest) (Endpoint.caseDatas cases_)
      rw [lookup_caseDatas, Option.bind_map] at map
      exact map.symm.trans inner
    obtain ⟨nested, here, deeper⟩ := Option.bind_eq_some_iff.mp chosen
    refine ⟨nested, List.mem_append_right _ ?_, deeper⟩
    apply List.mem_append_left
    apply List.mem_append_left
    exact List.mem_map.mpr ⟨_, Assoc.mem_of_lookup here, rfl⟩
  | switchDefault =>
    obtain ⟨metadataKey, cases_, when_, default, rfl, inner⟩ := follow_switch read
    have chosen : (Endpoint.optionToData default).toValue.follow (step :: rest) = some found := inner
    cases default with
    | none =>
      cases step <;> cases chosen
    | some nested =>
      exact ⟨nested, List.mem_append_right _ (List.mem_append_right _ (List.mem_singleton.mpr rfl)), chosen⟩
  | reader =>
    obtain ⟨tag, inner⟩ := follow_type (by decide) read
    cases endpointType with
    | reader nested => exact ⟨nested, List.mem_append_right _ (List.mem_singleton.mpr rfl), inner⟩
    | connector kind config => exact absurd tag (connector_tag_ne kind).2.2.2
    | _ => simp +decide [EndpointType.tag] at tag
  | switchWhen _ => cases visited
  | requestTo => cases visited
  | requestForwardTo => cases visited
  | streamResponseTo => cases visited

theorem follow_header {endpoint : Endpoint} {name : Text} {found : Json}
    (read : endpoint.toValue.follow [.key "http", .key "custom_headers", .key name] = some found) :
    ∃ value, (name, value) ∈ endpoint.customHeaders := by
  obtain ⟨middlewares, endpointType⟩ := endpoint
  obtain ⟨tag, inner⟩ := follow_type (by decide) read
  cases endpointType with
  | http config streamResponseTo =>
    have headers : (Data.textMap config.customHeaders).toValue.follow [.key name] = some found := inner
    rw [Data.toEntries_textMap, Json.follow_key_obj, Assoc.lookup_map Json.str, Option.bind_map,
      Option.bind_eq_some_iff] at headers
    obtain ⟨value, there, -⟩ := headers
    exact ⟨value, Assoc.mem_of_lookup there⟩
  | connector kind config => exact absurd tag (connector_tag_ne kind).1
  | _ => simp +decide [EndpointType.tag] at tag

theorem header_gone {bridge : Bridge} {name : Text} (sensitive : isSensitiveHttpHeader name = true) {path : List Edge}
    (visited : ∀ edge ∈ path, edge.visited = true) (endpoint : Endpoint) (pre : Text) :
    (extractHttpHeaderSecretsFromEndpoint bridge endpoint pre).1.toValue.follow (headerSteps path name) = none := by
  induction path generalizing endpoint pre with
  | nil =>
    by_contra present
    obtain ⟨found, read⟩ := Option.ne_none_iff_exists'.mp present
    obtain ⟨value, left⟩ := follow_header read
    rw [customHeaders_extract] at left
    have plain := (List.mem_filter.mp left).2
    rw [sensitive] at plain
    cases plain
  | cons edge path ih =>
    by_contra present
    obtain ⟨found, read⟩ := Option.ne_none_iff_exists'.mp present
    have more : ∃ step rest, headerSteps path name = step :: rest := by
      cases deeper : headerSteps path name with
      | nil => simp [headerSteps] at deeper
      | cons step rest => exact ⟨step, rest, rfl⟩
    obtain ⟨step, rest, deeper⟩ := more
    rw [headerSteps, List.flatMap_cons, List.append_assoc, ← headerSteps, deeper] at read
    obtain ⟨nested, child, inner⟩ := follow_edge (visited edge List.mem_cons_self) read
    rw [children_extract] at child
    obtain ⟨⟨edge', original⟩, -, same⟩ := List.mem_map.mp child
    obtain ⟨rfl, rfl⟩ := Prod.mk.inj same
    have gone := ih (fun edge member => visited edge (List.mem_cons_of_mem _ member)) original
      (pre ++ edgeEnvText bridge edge')
    rw [if_pos (visited edge' List.mem_cons_self), ← deeper, gone] at inner
    cases inner

/-! ### A configuration -/

theorem mem_written {name key : Text} {value data : Data} :
    (key, data) ∈ written name value ↔ key = name ∧ data = value := by
  simp [written]

theorem mem_skippedIf {skip : Bool} {name key : Text} {value data : Data} :
    (key, data) ∈ skippedIf skip name value ↔ skip = false ∧ key = name ∧ data = value := by
  cases skip <;> simp [skippedIf, written]

theorem appConfig_fields {config : AppConfig} {key : Text} {data : Data}
    (field : config.toFields.lookup key = some data) :
    (key = "routes" → data = .map (config.routes.map fun entry => (entry.1, entry.2.toData))) ∧
      (key = "consumers" → data = .seq (config.consumers.map ConsumerConfig.toData)) ∧
      (key = "publishers" → data = .seq (config.publishers.map PublisherClient.toData)) := by
  have member := Assoc.mem_of_lookup field
  simp only [AppConfig.toFields, List.mem_append, mem_written, mem_skippedIf] at member
  refine ⟨?_, ?_, ?_⟩ <;> intro same <;> subst same
  · exact (by simpa +decide using member : ¬config.routes = [] ∧ _).2
  · simpa +decide using member
  · simpa +decide using member

theorem follow_routes {config : AppConfig} {name : Text} {rest : List Step} {found : Json}
    (read : config.toValue.follow (.key "routes" :: .key name :: rest) = some found) :
    ∃ route, (name, route) ∈ config.routes ∧ route.toData.toValue.follow rest = some found := by
  rw [AppConfig.toValue, Data.follow_record, Option.bind_eq_some_iff] at read
  obtain ⟨data, field, inner⟩ := read
  rw [(appConfig_fields field).1 rfl, Data.follow_map, Assoc.lookup_map, Option.bind_map,
    Option.bind_eq_some_iff] at inner
  obtain ⟨route, there, deeper⟩ := inner
  exact ⟨route, Assoc.mem_of_lookup there, deeper⟩

theorem follow_consumers {config : AppConfig} {index : Nat} {rest : List Step} {found : Json}
    (read : config.toValue.follow (.key "consumers" :: .index index :: .key "endpoint" :: rest) = some found) :
    ∃ consumer, config.consumers[index]? = some consumer ∧ consumer.endpoint.toValue.follow rest = some found := by
  rw [AppConfig.toValue, Data.follow_record, Option.bind_eq_some_iff] at read
  obtain ⟨data, field, inner⟩ := read
  rw [(appConfig_fields field).2.1 rfl, Data.follow_seq, List.getElem?_map, Option.bind_map,
    Option.bind_eq_some_iff] at inner
  obtain ⟨consumer, there, deeper⟩ := inner
  rw [Function.comp_apply, ConsumerConfig.toData, Data.follow_record, lookup_endpoint, Option.bind_some] at deeper
  exact ⟨consumer, there, deeper⟩

theorem follow_publishers {config : AppConfig} {index : Nat} {key : Text} {rest : List Step} {found : Json}
    (read : config.toValue.follow (.key "publishers" :: .index index :: .key key :: rest) = some found) :
    ∃ publisher data, config.publishers[index]? = some publisher ∧ data.toValue.follow rest = some found ∧
      (key = "endpoint" → data = publisher.endpoint.toData) ∧
      (key = "headers" → data = .seq (publisher.headers.map HeaderRow.toData)) := by
  rw [AppConfig.toValue, Data.follow_record, Option.bind_eq_some_iff] at read
  obtain ⟨list, field, inner⟩ := read
  rw [(appConfig_fields field).2.2 rfl, Data.follow_seq, List.getElem?_map, Option.bind_map,
    Option.bind_eq_some_iff] at inner
  obtain ⟨publisher, there, deeper⟩ := inner
  rw [Function.comp_apply, PublisherClient.toData, Data.follow_record, Option.bind_eq_some_iff] at deeper
  obtain ⟨data, lookup, last⟩ := deeper
  have member := Assoc.mem_of_lookup lookup
  simp only [List.mem_append, mem_written, mem_skippedIf] at member
  refine ⟨publisher, data, there, last, ?_, ?_⟩ <;> intro same <;> subst same
  · simpa +decide using member
  · exact (by simpa +decide using member : ¬publisher.headers = [] ∧ _).2

theorem sensitive_of_ownerHeaders {owner : Owner} {endpoint : Endpoint} {removed : Removed}
    (member : removed ∈ ownerHeaders owner endpoint) :
    ∃ path, removed.owner = owner ∧ removed.place = .header path ∧ isSensitiveHttpHeader removed.name = true ∧
      ∀ edge ∈ path, edge.visited = true := by
  obtain ⟨taken, inside, rfl⟩ := List.mem_map.mp member
  obtain ⟨sensitive, path⟩ := takenHeaders_spec inside
  exact ⟨taken.1, rfl, rfl, sensitive, path⟩

theorem follow_input (config : RouteConfig) (rest : List Step) :
    config.toData.toValue.follow (.key "input" :: rest) = config.route.input.toValue.follow rest := by
  rw [RouteConfig.toData, Data.follow_record]
  rfl

theorem follow_output (config : RouteConfig) (rest : List Step) :
    config.toData.toValue.follow (.key "output" :: rest) = config.route.output.toValue.follow rest := by
  rw [RouteConfig.toData, Data.follow_record]
  rfl

theorem follow_headerRow (row : HeaderRow) : row.toData.toValue.follow [.key "value"] = some (.str row.value) := by
  rw [HeaderRow.toData, Data.follow_record]
  rfl

/-- After extraction, the place of a removed secret does not hold it. -/
theorem location_emptied {bridge : Bridge} {config : AppConfig} {removed : Removed}
    (member : removed ∈ config.removedSecrets bridge) :
    (config.extractSecretValues bridge).1.toValue.follow removed.location ≠ some (.str removed.value) := by
  intro read
  rcases List.mem_append.mp member with member | fromPublisher
  · rcases List.mem_append.mp member with fromRoute | fromConsumer
    · obtain ⟨entry, -, inside⟩ := List.mem_flatMap.mp fromRoute
      rcases List.mem_append.mp inside with side | side
      · obtain ⟨path, owner, place, sensitive, visited⟩ := sensitive_of_ownerHeaders side
        rw [Removed.location, place, owner] at read
        obtain ⟨route, there, inner⟩ := follow_routes read
        obtain ⟨original, -, same⟩ := List.mem_map.mp there
        obtain ⟨-, rfl⟩ := Prod.mk.inj same
        have kept := (follow_input _ _).symm.trans inner
        cases (header_gone sensitive visited _ _).symm.trans kept
      · obtain ⟨path, owner, place, sensitive, visited⟩ := sensitive_of_ownerHeaders side
        rw [Removed.location, place, owner] at read
        obtain ⟨route, there, inner⟩ := follow_routes read
        obtain ⟨original, -, same⟩ := List.mem_map.mp there
        obtain ⟨-, rfl⟩ := Prod.mk.inj same
        have kept := (follow_output _ _).symm.trans inner
        cases (header_gone sensitive visited _ _).symm.trans kept
    · obtain ⟨⟨consumer, index⟩, -, inside⟩ := List.mem_flatMap.mp fromConsumer
      obtain ⟨path, owner, place, sensitive, visited⟩ := sensitive_of_ownerHeaders inside
      rw [Removed.location, place, owner] at read
      obtain ⟨left, there, inner⟩ := follow_consumers read
      rw [AppConfig.extractSecretValues, List.getElem?_map, Option.map_eq_some_iff] at there
      obtain ⟨original, -, rfl⟩ := there
      cases (header_gone sensitive visited _ _).symm.trans inner
  · obtain ⟨⟨publisher, index⟩, numbered, inside⟩ := List.mem_flatMap.mp fromPublisher
    rcases List.mem_append.mp inside with header | row
    · obtain ⟨path, owner, place, sensitive, visited⟩ := sensitive_of_ownerHeaders header
      rw [Removed.location, place, owner] at read
      obtain ⟨left, data, there, inner, endpoint, -⟩ := follow_publishers read
      rw [AppConfig.extractSecretValues, List.getElem?_map, Option.map_eq_some_iff] at there
      obtain ⟨original, -, rfl⟩ := there
      rw [endpoint rfl] at inner
      cases (header_gone sensitive visited _ _).symm.trans inner
    · obtain ⟨⟨header, position⟩, kept, rfl⟩ := List.mem_map.mp row
      obtain ⟨present, secret⟩ := List.mem_filter.mp kept
      obtain ⟨left, data, there, inner, -, headers⟩ := follow_publishers read
      rw [AppConfig.extractSecretValues, List.getElem?_map, Option.map_eq_some_iff] at there
      obtain ⟨original, atIndex, rfl⟩ := there
      obtain rfl := Option.some.inj (atIndex.symm.trans (List.mem_zipIdx_iff_getElem?.mp numbered))
      rw [headers rfl, Data.follow_seq, List.getElem?_map, Option.bind_map, Option.bind_eq_some_iff] at inner
      obtain ⟨emptied, here, value⟩ := inner
      obtain ⟨before, atPosition, rfl⟩ := Option.map_eq_some_iff.mp ((List.getElem?_map ..).symm.trans here)
      obtain rfl := Option.some.inj (atPosition.symm.trans (List.mem_zipIdx_iff_getElem?.mp present))
      have cleared := (follow_headerRow _).symm.trans value
      have marked : isSecretRow before = true := secret
      rw [if_pos marked] at cleared
      have empty : [] = before.value := Json.str.inj (Option.some.inj cleared)
      rw [isSecretRow, ← empty] at marked
      cases marked

end MqBridge.Config
