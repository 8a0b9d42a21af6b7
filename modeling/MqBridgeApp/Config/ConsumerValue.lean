import MqBridgeApp.Config.Model
import MqBridgeApp.Lib.JsonAgree

/-!
# Consumers with the same value

What the equality of two consumers' JSON values says about the consumers.
-/

namespace MqBridge.Config
open Text

def SameEndpoint (a b : Endpoint) : Prop := a.toValue.Agree b.toValue

def SameOptions (a b : RouteOptions) : Prop :=
  (Data.record a.toFields).toValue.Agree (Data.record b.toFields).toValue

def SameResponse : Option ConsumerResponseConfig → Option ConsumerResponseConfig → Prop
  | none, none => True
  | some a, some b => a.payload = b.payload ∧ a.headers.entries.Perm b.headers.entries
  | _, _ => False

inductive SameOutput : ConsumerOutputConfig → ConsumerOutputConfig → Prop where
  | none : SameOutput .none .none
  | publisher (name : Text) (id : Option Text) : SameOutput (.publisher name id) (.publisher name id)
  | response {a b : Option ConsumerResponseConfig} (same : SameResponse a b) :
      SameOutput (.response a) (.response b)

theorem lookup_written (name key : Text) (value : Data) :
    (written name value).lookup key = if key = name then some value else none := by
  rw [written, Assoc.lookup_singleton]
  simp only [beq_iff_eq]

theorem lookup_skippedIf (skip : Bool) (name key : Text) (value : Data) :
    (skippedIf skip name value).lookup key = if skip = false ∧ key = name then some value else none := by
  cases skip
  · simp [skippedIf, lookup_written]
  · simp [skippedIf]

def consumerKeys : List Text :=
  ["id", "name", "enabled", "endpoint", "comment", "response", "output", "message_capture", "description",
    "concurrency", "batch_size", "commit_concurrency_limit", "startup_timeout_ms", "reconnect_interval_ms",
    "empty_batch_delay_ms", "allow_fault_injection", "exit_on_empty"]

theorem skippedIf_keys (skip : Bool) (name : Text) (value : Data) :
    ((skippedIf skip name value).map Prod.fst).Sublist [name] := by
  cases skip <;> simp [skippedIf, written]

theorem consumer_keys_nodup (consumer : ConsumerConfig) : (consumer.toFields.map Prod.fst).Nodup := by
  have keys : (consumer.toFields.map Prod.fst).Sublist consumerKeys := by
    simp only [ConsumerConfig.toFields, List.map_append]
    have app := @List.Sublist.append Text
    exact app (app (app (app (app (app (app (app (List.Sublist.refl _) (List.Sublist.refl _))
      (skippedIf_keys _ _ _)) (List.Sublist.refl _)) (List.Sublist.refl _)) (skippedIf_keys _ _ _))
      (skippedIf_keys _ _ _)) (List.Sublist.refl _)) (List.Sublist.refl _)
  exact (by decide : consumerKeys.Nodup).sublist keys

theorem lookup_endpoint (consumer : ConsumerConfig) :
    consumer.toFields.lookup ("endpoint" : Text) = some consumer.endpoint.toData :=
  Assoc.lookup_of_mem (consumer_keys_nodup consumer) (by simp [ConsumerConfig.toFields, written])

theorem lookup_option (consumer : ConsumerConfig) {key : Text} {value : Data}
    (option : (key, value) ∈ consumer.options.toFields) : consumer.toFields.lookup key = some value :=
  Assoc.lookup_of_mem (consumer_keys_nodup consumer) (List.mem_append_right _ option)

theorem lookup_output (consumer : ConsumerConfig) :
    consumer.toFields.lookup ("output" : Text) =
      if consumer.output.isNone then none else some consumer.output.toData := by
  cases h : consumer.output.isNone
  · apply Assoc.lookup_of_mem (consumer_keys_nodup consumer)
    simp [ConsumerConfig.toFields, written, skippedIf, h]
  · have options : consumer.options.toFields.lookup ("output" : Text) = none := rfl
    rw [ConsumerConfig.toFields, Assoc.lookup_append, options]
    simp +decide [Assoc.lookup_append, lookup_written, lookup_skippedIf, h]

theorem length_of_same_record {fields fields' : List (Text × Data)}
    (same : (Data.record fields).toValue.same (Data.record fields').toValue = true) :
    fields.length = fields'.length := by
  simp only [Data.toValue, Json.same, Bool.and_eq_true, beq_iff_eq, Data.toEntries_eq_map,
    List.length_map] at same
  exact same.1

theorem lookup_none_of_same {fields fields' : List (Text × Data)} (key : Text)
    (distinct : (fields.map Prod.fst).Nodup)
    (same : (Data.record fields).toValue.same (Data.record fields').toValue = true)
    (absent : fields.lookup key = none) : fields'.lookup key = none := by
  have perm := Assoc.keys_perm distinct (length_of_same_record same) fun entry member => by
    obtain ⟨value', found, -⟩ := Data.same_field _ same (Assoc.lookup_of_mem distinct member)
    exact ⟨value', found⟩
  rw [Assoc.lookup_eq_none] at absent ⊢
  intro value member
  obtain ⟨⟨_, value'⟩, inside, rfl⟩ := List.mem_map.mp (perm.mem_iff.mpr (List.mem_map.mpr ⟨_, member, rfl⟩))
  exact absent value' inside

theorem sameResponse_of_same {a b : ConsumerResponseConfig} (same : a.toData.toValue.same b.toData.toValue = true) :
    SameResponse (some a) (some b) := by
  obtain ⟨payload, found, step⟩ := Data.same_field "payload" same rfl
  obtain ⟨headers, found', step'⟩ := Data.same_field "headers" same rfl
  obtain rfl := Option.some.inj found
  obtain rfl := Option.some.inj found'
  exact ⟨Json.same_str.mp step, Data.perm_of_same_textMap a.headers.distinct step'⟩

theorem mode_of_same {a b : ConsumerOutputConfig} (same : a.toData.toValue.same b.toData.toValue = true) :
    a.mode = b.mode := by
  obtain ⟨mode, found, step⟩ := Data.same_field "mode" same rfl
  obtain rfl := Option.some.inj found
  exact Json.same_str.mp step

theorem sameOutput_of_same {a b : ConsumerOutputConfig} (same : a.toData.toValue.same b.toData.toValue = true) :
    SameOutput a b := by
  have mode := mode_of_same same
  have length := length_of_same_record same
  cases a with
  | none =>
    cases b with
    | none => exact .none
    | _ => simp +decide [ConsumerOutputConfig.mode] at mode
  | publisher name id =>
    cases b with
    | publisher name' id' =>
      obtain ⟨value, read, step⟩ := Data.same_field "publisher" same rfl
      obtain rfl := Option.some.inj read
      obtain rfl := Json.same_str.mp step
      cases id with
      | none =>
        cases id' with
        | none => exact .publisher name none
        | some id' => simp [ConsumerOutputConfig.toFields, skippedIf, written] at length
      | some id =>
        cases id' with
        | none => simp [ConsumerOutputConfig.toFields, skippedIf, written] at length
        | some id' =>
          obtain ⟨value, read, step⟩ := Data.same_field "publisher_id" same rfl
          obtain rfl := Option.some.inj read
          obtain rfl := Json.same_str.mp step
          exact .publisher name (some id)
    | _ => simp +decide [ConsumerOutputConfig.mode] at mode
  | response answer =>
    cases b with
    | response answer' =>
      cases answer with
      | none =>
        cases answer' with
        | none => exact .response trivial
        | some answer' => simp [ConsumerOutputConfig.toFields, skippedIf, written] at length
      | some answer =>
        cases answer' with
        | none => simp [ConsumerOutputConfig.toFields, skippedIf, written] at length
        | some answer' =>
          obtain ⟨value, read, step⟩ := Data.same_field "response" same rfl
          obtain rfl := Option.some.inj read
          exact .response (sameResponse_of_same step)
    | _ => simp +decide [ConsumerOutputConfig.mode] at mode

theorem options_keys (options : RouteOptions) :
    options.toFields.map Prod.fst = (RouteOptions.toFields {}).map Prod.fst := rfl

theorem sameOptions_of_same {a b : ConsumerConfig} (same : a.toValue.same b.toValue = true) :
    SameOptions a.options b.options := by
  refine Or.inr (Data.same_record rfl ?_)
  intro key value option
  obtain ⟨value', found, step⟩ := Data.same_field _ same (lookup_option a option)
  have there : key ∈ b.options.toFields.map Prod.fst := by
    rw [options_keys, ← options_keys a.options]
    exact List.mem_map.mpr ⟨_, option, rfl⟩
  obtain ⟨⟨_, value''⟩, inside, rfl⟩ := List.mem_map.mp there
  obtain rfl := Option.some.inj ((lookup_option b inside).symm.trans found)
  have distinct : (b.options.toFields.map Prod.fst).Nodup := by
    rw [options_keys]
    decide
  exact ⟨_, Assoc.lookup_of_mem distinct inside, step⟩

theorem tag_ne_middlewares (endpointType : EndpointType) : endpointType.tag ≠ "middlewares" := by
  cases endpointType with
  | connector kind config => cases kind <;> simp +decide [EndpointType.tag, Connector.tag]
  | _ => simp +decide [EndpointType.tag]

theorem tag_of_same {a b : Endpoint} (same : SameEndpoint a b) : b.endpointType.tag = a.endpointType.tag := by
  rcases same with same | same
  · obtain ⟨_, a⟩ := a
    obtain ⟨_, b⟩ := b
    have keys := congrArg (List.map Prod.fst) (Json.obj.inj same)
    simp only [Endpoint.toValue, Endpoint.toData, Data.toValue, Data.toEntries, List.map_cons, List.map_nil,
      List.cons.injEq, true_and, and_true] at keys
    exact keys.symm
  · obtain ⟨middlewares, a⟩ := a
    obtain ⟨_, b⟩ := b
    have here : ([("middlewares", .seq (Middleware.toDatas middlewares)), (a.tag, a.toData)] : List (Text × Data)).lookup a.tag =
        some a.toData := by
      rw [List.lookup_cons, beq_false_of_ne (tag_ne_middlewares a), List.lookup_cons, beq_self_eq_true]
    obtain ⟨value, found, -⟩ := Data.same_field a.tag same here
    rw [List.lookup_cons, beq_false_of_ne (tag_ne_middlewares a), List.lookup_cons] at found
    by_contra different
    have apart : (a.tag == b.tag) = false := beq_false_of_ne (Ne.symm different)
    rw [apart] at found
    cases found

theorem consumer_of_same {a b : ConsumerConfig} (same : a.toValue.same b.toValue = true) :
    SameEndpoint a.endpoint b.endpoint ∧ SameOptions a.options b.options ∧ SameOutput a.output b.output := by
  refine ⟨?_, sameOptions_of_same same, ?_⟩
  · obtain ⟨value, found, step⟩ := Data.same_field _ same (lookup_endpoint a)
    obtain rfl := Option.some.inj ((lookup_endpoint b).symm.trans found)
    exact Or.inr step
  · cases plain : a.output.isNone
    · have there : a.toFields.lookup ("output" : Text) = some a.output.toData := by
        rw [lookup_output, plain]
        rfl
      obtain ⟨value, found, step⟩ := Data.same_field _ same there
      rw [lookup_output] at found
      split at found
      · cases found
      · obtain rfl := Option.some.inj found
        exact sameOutput_of_same step
    · have absent : a.toFields.lookup ("output" : Text) = none := by
        rw [lookup_output, plain]
        rfl
      have gone := lookup_none_of_same _ (consumer_keys_nodup a) same absent
      rw [lookup_output] at gone
      cases ha : a.output <;> simp [ha, ConsumerOutputConfig.isNone] at plain
      cases hb : b.output <;> simp [hb, ConsumerOutputConfig.isNone] at gone
      exact .none

end MqBridge.Config
