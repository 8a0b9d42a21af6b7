import MqBridgeApp.Copy.Identity
import MqBridgeApp.Endpoint.Tree
import MqBridgeApp.Lib.JsonPath

/-!
# The identity and new settings

A release that adds optional settings writes them as nulls into the definition of a copy. Dropping absent
fields hides them in the objects that hold something else. It does not in an empty object, and it also takes
the tag of a nested `null:` endpoint for an absent setting.
-/

namespace MqBridge.Copy
open Text

/-! ### Added nulls -/

section
variable (mayGrow : Nat → List (Text × Json) → Bool)

mutual
/-- The second value has nulls more in objects that may grow. -/
inductive NullsAdded : Nat → Json → Json → Prop where
  | null (depth : Nat) : NullsAdded depth .null .null
  | bool (depth : Nat) (b : Bool) : NullsAdded depth (.bool b) (.bool b)
  | num (depth : Nat) (n : JsonNumber) : NullsAdded depth (.num n) (.num n)
  | str (depth : Nat) (s : Text) : NullsAdded depth (.str s) (.str s)
  | arr {depth : Nat} {items items' : List Json} (each : NullsAddedItems depth items items') :
      NullsAdded depth (.arr items) (.arr items')
  | obj {depth : Nat} {entries entries' : List (Text × Json)}
      (each : NullsAddedEntries (mayGrow depth entries) (depth + 1) entries entries') :
      NullsAdded depth (.obj entries) (.obj entries')
inductive NullsAddedItems : Nat → List Json → List Json → Prop where
  | nil (depth : Nat) : NullsAddedItems depth [] []
  | cons {depth : Nat} {item item' : Json} {rest rest' : List Json} (head : NullsAdded depth item item')
      (tail : NullsAddedItems depth rest rest') : NullsAddedItems depth (item :: rest) (item' :: rest')
inductive NullsAddedEntries : Bool → Nat → List (Text × Json) → List (Text × Json) → Prop where
  | nil (grows : Bool) (depth : Nat) : NullsAddedEntries grows depth [] []
  | kept {grows : Bool} {depth : Nat} {value value' : Json} {rest rest' : List (Text × Json)} (key : Text)
      (head : NullsAdded depth value value') (tail : NullsAddedEntries grows depth rest rest') :
      NullsAddedEntries grows depth ((key, value) :: rest) ((key, value') :: rest')
  | added {depth : Nat} {rest rest' : List (Text × Json)} (key : Text)
      (tail : NullsAddedEntries true depth rest rest') : NullsAddedEntries true depth rest ((key, .null) :: rest')
end

end

/-- Any object below the endpoints may get new settings: configurations of connectors and of middlewares are. -/
def belowEndpoints (depth : Nat) (_ : List (Text × Json)) : Bool := decide (2 ≤ depth)

section
variable {mayGrow : Nat → List (Text × Json) → Bool} {depth : Nat} {grows : Bool}
variable {entries entries' : List (Text × Json)}

theorem NullsAdded.isNull_eq {value value' : Json} (added : NullsAdded mayGrow depth value value') :
    value'.isNull = value.isNull := by
  cases added <;> rfl

theorem NullsAddedEntries.any_eq (added : NullsAddedEntries mayGrow grows depth entries entries') :
    (entries'.any fun entry => !entry.2.isNull) = entries.any fun entry => !entry.2.isNull := by
  induction entries' generalizing entries with
  | nil =>
    cases added
    rfl
  | cons entry' rest' ih =>
    cases added with
    | kept key head tail => simp [head.isNull_eq, ih tail]
    | added key tail => simpa [Json.isNull] using ih tail

theorem NullsAddedEntries.length_le (added : NullsAddedEntries mayGrow grows depth entries entries') :
    entries.length ≤ entries'.length := by
  induction entries' generalizing entries with
  | nil =>
    cases added
    exact Nat.le_refl 0
  | cons entry' rest' ih =>
    cases added with
    | kept key head tail => exact Nat.succ_le_succ (ih tail)
    | added key tail => exact Nat.le_succ_of_le (ih tail)

section
variable (mayGrow : Nat → List (Text × Json) → Bool)

mutual
theorem NullsAdded.refl (depth : Nat) : ∀ value : Json, NullsAdded mayGrow depth value value
  | .null => .null depth
  | .bool b => .bool depth b
  | .num n => .num depth n
  | .str s => .str depth s
  | .arr items => .arr (NullsAddedItems.refl depth items)
  | .obj entries => .obj (NullsAddedEntries.refl (mayGrow depth entries) (depth + 1) entries)
theorem NullsAddedItems.refl (depth : Nat) : ∀ items : List Json, NullsAddedItems mayGrow depth items items
  | [] => .nil depth
  | item :: rest => .cons (NullsAdded.refl depth item) (NullsAddedItems.refl depth rest)
theorem NullsAddedEntries.refl (grows : Bool) (depth : Nat) :
    ∀ entries : List (Text × Json), NullsAddedEntries mayGrow grows depth entries entries
  | [] => .nil grows depth
  | (key, value) :: rest => .kept key (NullsAdded.refl depth value) (NullsAddedEntries.refl grows depth rest)
end

end

mutual
theorem strip_of_added : ∀ {depth : Nat} {value value' : Json}, NullsAdded dropsNulls depth value value' →
    stripAbsentFields depth value = stripAbsentFields depth value'
  | _, .null, _, .null _ => rfl
  | _, .bool _, _, .bool _ _ => rfl
  | _, .num _, _, .num _ _ => rfl
  | _, .str _, _, .str _ _ => rfl
  | _, .arr _, _, .arr each => by rw [stripAbsentFields, stripAbsentFields, stripItems_of_added each]
  | depth, .obj entries, .obj entries', .obj each => by
    have drops : dropsNulls depth entries' = dropsNulls depth entries := by
      rw [dropsNulls, dropsNulls, each.any_eq]
    rw [stripAbsentFields, stripAbsentFields, drops, stripEntries_of_added each]
theorem stripItems_of_added : ∀ {depth : Nat} {items items' : List Json}, NullsAddedItems dropsNulls depth items items' →
    stripItems depth items = stripItems depth items'
  | _, [], _, .nil _ => rfl
  | _, _ :: _, _, .cons head tail => by rw [stripItems, stripItems, strip_of_added head, stripItems_of_added tail]
theorem stripEntries_of_added : ∀ {drops : Bool} {depth : Nat} {entries entries' : List (Text × Json)},
    NullsAddedEntries dropsNulls drops depth entries entries' →
      stripEntries drops depth entries = stripEntries drops depth entries'
  | _, _, [], _, .nil _ _ => rfl
  | drops, depth, (_, value) :: _, _, .kept key head tail => by
    rw [stripEntries, stripEntries, head.isNull_eq, strip_of_added head, stripEntries_of_added tail]
  | _, _, _, _, .added key tail => by
    rw [stripEntries_of_added tail]
    simp [stripEntries, Json.isNull]
end

theorem stripEntries_length (depth : Nat) (entries : List (Text × Json)) :
    (stripEntries false depth entries).length = entries.length := by
  simp [stripEntries_eq_map]

theorem added_null {value value' : Json} (added : NullsAdded mayGrow depth value value') (null : value.isNull = true) :
    NullsAdded dropsNulls depth value value' := by
  cases added <;> first | exact .null depth | cases null

mutual
theorem added_of_strip : ∀ {depth : Nat} {value value' : Json}, NullsAdded mayGrow depth value value' →
    stripAbsentFields depth value = stripAbsentFields depth value' → NullsAdded dropsNulls depth value value'
  | depth, .null, _, .null _, _ => .null depth
  | depth, .bool b, _, .bool _ _, _ => .bool depth b
  | depth, .num n, _, .num _ _, _ => .num depth n
  | depth, .str s, _, .str _ _, _ => .str depth s
  | _, .arr _, _, .arr each, same => by
    rw [stripAbsentFields, stripAbsentFields, Json.arr.injEq] at same
    exact .arr (addedItems_of_strip each same)
  | depth, .obj entries, .obj entries', .obj each, same => by
    have drops : dropsNulls depth entries' = dropsNulls depth entries := by
      rw [dropsNulls, dropsNulls, each.any_eq]
    rw [stripAbsentFields, stripAbsentFields, drops, Json.obj.injEq] at same
    exact .obj (addedEntries_of_strip each same)
theorem addedItems_of_strip : ∀ {depth : Nat} {items items' : List Json}, NullsAddedItems mayGrow depth items items' →
    stripItems depth items = stripItems depth items' → NullsAddedItems dropsNulls depth items items'
  | depth, [], _, .nil _, _ => .nil depth
  | _, _ :: _, _, .cons head tail, same => by
    rw [stripItems, stripItems, List.cons.injEq] at same
    exact .cons (added_of_strip head same.1) (addedItems_of_strip tail same.2)
theorem addedEntries_of_strip : ∀ {drops grows : Bool} {depth : Nat} {entries entries' : List (Text × Json)},
    NullsAddedEntries mayGrow grows depth entries entries' →
      stripEntries drops depth entries = stripEntries drops depth entries' →
        NullsAddedEntries dropsNulls drops depth entries entries'
  | drops, _, depth, [], _, .nil _ _, _ => .nil drops depth
  | drops, _, _, (_, value) :: _, _, .kept key head tail, same => by
    rw [stripEntries, stripEntries, head.isNull_eq] at same
    split at same
    · next absent =>
      rw [Bool.and_eq_true] at absent
      exact .kept key (added_null head absent.2) (addedEntries_of_strip tail same)
    · rw [List.cons.injEq, Prod.mk.injEq] at same
      exact .kept key (added_of_strip head same.1.2) (addedEntries_of_strip tail same.2)
  | true, _, _, _, _, .added key tail, same => by
    rw [stripEntries, if_pos (by rfl)] at same
    exact .added key (addedEntries_of_strip tail same)
  | false, _, depth, entries, _, .added key tail, same => by
    -- An added null that is not dropped makes the object longer.
    have lengths := congrArg List.length same
    have grows := tail.length_le
    simp only [stripEntries_length, List.length_cons] at lengths
    omega
end

end

/-! ### Nested endpoints -/

/-- The place of an endpoint in another one. -/
inductive Nested : Endpoint → List Step → Endpoint → Prop where
  | here (endpoint : Endpoint) : Nested endpoint [] endpoint
  | dlq {middlewares : List Middleware} {endpointType : EndpointType} {index : Nat} {inner deep : Endpoint}
      {path : List Step} (there : middlewares[index]? = some (.dlq inner)) (rest : Nested inner path deep) :
      Nested (.mk middlewares endpointType)
        (.key "middlewares" :: .index index :: .key "dlq" :: .key "endpoint" :: path) deep
  | fanout {middlewares : List Middleware} {branches : List Endpoint} {index : Nat} {inner deep : Endpoint}
      {path : List Step} (there : branches[index]? = some inner) (rest : Nested inner path deep) :
      Nested (.mk middlewares (.fanout branches)) (.key "fanout" :: .index index :: path) deep
  | switchCase {middlewares : List Middleware} {metadataKey name : Text} {cases when_ : List (Text × Endpoint)}
      {default : Option Endpoint} {inner deep : Endpoint} {path : List Step} (there : cases.lookup name = some inner)
      (rest : Nested inner path deep) :
      Nested (.mk middlewares (.switch metadataKey cases when_ default))
        (.key "switch" :: .key "cases" :: .key name :: path) deep
  | switchWhen {middlewares : List Middleware} {metadataKey condition : Text} {cases when_ : List (Text × Endpoint)}
      {default : Option Endpoint} {index : Nat} {inner deep : Endpoint} {path : List Step}
      (there : when_[index]? = some (condition, inner)) (rest : Nested inner path deep) :
      Nested (.mk middlewares (.switch metadataKey cases when_ default))
        (.key "switch" :: .key "when" :: .index index :: .key "to" :: path) deep
  | switchDefault {middlewares : List Middleware} {metadataKey : Text} {cases when_ : List (Text × Endpoint)}
      {inner deep : Endpoint} {path : List Step} (rest : Nested inner path deep) :
      Nested (.mk middlewares (.switch metadataKey cases when_ (some inner))) (.key "switch" :: .key "default" :: path)
        deep
  | reader {middlewares : List Middleware} {inner deep : Endpoint} {path : List Step} (rest : Nested inner path deep) :
      Nested (.mk middlewares (.reader inner)) (.key "reader" :: path) deep
  | requestTo {middlewares : List Middleware} {to_ forwardTo deep : Endpoint} {path : List Step}
      (rest : Nested to_ path deep) :
      Nested (.mk middlewares (.request to_ forwardTo)) (.key "request" :: .key "to" :: path) deep
  | requestForwardTo {middlewares : List Middleware} {to_ forwardTo deep : Endpoint} {path : List Step}
      (rest : Nested forwardTo path deep) :
      Nested (.mk middlewares (.request to_ forwardTo)) (.key "request" :: .key "forward_to" :: path) deep
  | streamResponseTo {middlewares : List Middleware} {config : HttpConfig} {inner deep : Endpoint} {path : List Step}
      (rest : Nested inner path deep) :
      Nested (.mk middlewares (.http config (some inner))) (.key "http" :: .key "stream_response_to" :: path) deep

theorem tag_ne_middlewares (endpointType : EndpointType) : endpointType.tag ≠ "middlewares" := by
  cases endpointType with
  | connector kind config =>
    show kind.tag ≠ "middlewares"
    cases kind <;> decide
  | _ => simp +decide [EndpointType.tag]

theorem follow_type (middlewares : List Middleware) (endpointType : EndpointType) (path : List Step) :
    (Endpoint.mk middlewares endpointType).toValue.follow (.key endpointType.tag :: path) =
      endpointType.toData.toValue.follow path := by
  rw [Endpoint.toValue, Endpoint.toData, Data.follow_record, List.lookup_cons,
    beq_false_of_ne (tag_ne_middlewares endpointType), List.lookup_cons, beq_self_eq_true, Option.bind_some]

theorem follow_middleware {middlewares : List Middleware} {index : Nat} {inner : Endpoint}
    (there : middlewares[index]? = some (.dlq inner)) (endpointType : EndpointType) (path : List Step) :
    (Endpoint.mk middlewares endpointType).toValue.follow
        (.key "middlewares" :: .index index :: .key "dlq" :: .key "endpoint" :: path) = inner.toValue.follow path := by
  rw [Endpoint.toValue, Endpoint.toData, Data.follow_record, List.lookup_cons, beq_self_eq_true, Option.bind_some,
    Data.follow_seq, middlewareDatas_eq_map, List.getElem?_map, there]
  rfl

theorem Nested.follow {endpoint deep : Endpoint} {path : List Step} (nested : Nested endpoint path deep)
    (rest : List Step) : endpoint.toValue.follow (path ++ rest) = deep.toValue.follow rest := by
  induction nested with
  | here endpoint => rfl
  | dlq there _ ih => exact (follow_middleware there _ _).trans ih
  | fanout there _ ih =>
    refine (follow_type _ (.fanout _) _).trans (.trans ?_ ih)
    rw [EndpointType.toData, List.append_eq, List.cons_append, Data.follow_seq, toDatas_eq_map, List.getElem?_map, there]
    rfl
  | switchCase there _ ih =>
    refine (follow_type _ (.switch _ _ _ _) _).trans (.trans ?_ ih)
    rw [EndpointType.toData, List.append_eq, List.cons_append, Data.follow_record]
    refine (Data.follow_map _ _ _).trans ?_
    rw [lookup_caseDatas, there]
    rfl
  | switchWhen there _ ih =>
    refine (follow_type _ (.switch _ _ _ _) _).trans (.trans ?_ ih)
    rw [EndpointType.toData, List.append_eq, List.cons_append, Data.follow_record]
    refine (Data.follow_seq _ _ _).trans ?_
    rw [whenDatas_eq_map, List.getElem?_map, there]
    rfl
  | switchDefault _ ih => exact (follow_type _ (.switch _ _ _ _) _).trans ih
  | reader _ ih => exact (follow_type _ (.reader _) _).trans ih
  | requestTo _ ih => exact (follow_type _ (.request _ _) _).trans ih
  | requestForwardTo _ ih => exact (follow_type _ (.request _ _) _).trans ih
  | streamResponseTo _ ih => exact (follow_type _ (.http _ _) _).trans ih

/-! ### Places in what is stripped -/

def keySteps (path : List Step) : Nat := path.countP fun step => step matches .key _

theorem follow_append (path rest : List Step) (value : Json) :
    value.follow (path ++ rest) = (value.follow path).bind (Json.follow rest) := by
  induction path generalizing value with
  | nil => rfl
  | cons step path ih =>
    cases step with
    | key name =>
      rw [List.cons_append, Json.follow_key, Json.follow_key]
      cases value.entriesOf.lookup name with
      | none => rfl
      | some child => exact ih child
    | index i =>
      cases value with
      | arr items =>
        rw [List.cons_append, Json.follow_index_arr, Json.follow_index_arr]
        cases items[i]? with
        | none => rfl
        | some child => exact ih child
      | _ => rfl

theorem lookup_stripEntries {drops : Bool} {depth : Nat} {entries : List (Text × Json)} {name : Text} {child : Json}
    (there : entries.lookup name = some child) (present : child.isNull = false) :
    (stripEntries drops depth entries).lookup name = some (stripAbsentFields depth child) := by
  induction entries with
  | nil => cases there
  | cons entry rest ih =>
    obtain ⟨key, value⟩ := entry
    rw [List.lookup_cons] at there
    rw [stripEntries]
    cases same : name == key with
    | true =>
      simp only [same, Option.some.injEq] at there
      subst there
      rw [present, Bool.and_false, if_neg Bool.false_ne_true, List.lookup_cons, same]
    | false =>
      rw [same] at there
      split
      · exact ih there
      · rw [List.lookup_cons, same]
        exact ih there

/-- What stands at a place is stripped there. -/
theorem follow_strip {path : List Step} {value found : Json} (read : value.follow path = some found)
    (present : found.isNull = false) (depth : Nat) : value.isNull = false ∧
      (stripAbsentFields depth value).follow path = some (stripAbsentFields (depth + keySteps path) found) := by
  induction path generalizing value depth with
  | nil =>
    obtain rfl := Option.some.inj read
    exact ⟨present, rfl⟩
  | cons step path ih =>
    cases step with
    | key name =>
      cases value with
      | obj entries =>
        rw [Json.follow_key_obj, Option.bind_eq_some_iff] at read
        obtain ⟨child, there, read⟩ := read
        obtain ⟨childPresent, inside⟩ := ih read (depth + 1)
        refine ⟨rfl, ?_⟩
        rw [stripAbsentFields, Json.follow_key_obj, lookup_stripEntries there childPresent, Option.bind_some, inside]
        have steps : depth + 1 + keySteps path = depth + keySteps (.key name :: path) := by
          simp [keySteps]
          omega
        rw [steps]
      | _ => cases read
    | index i =>
      cases value with
      | arr items =>
        rw [Json.follow_index_arr, Option.bind_eq_some_iff] at read
        obtain ⟨child, there, read⟩ := read
        obtain ⟨-, inside⟩ := ih read depth
        refine ⟨rfl, ?_⟩
        rw [stripAbsentFields, Json.follow_index_arr, stripItems_eq_map, List.getElem?_map, there, Option.map_some,
          Option.bind_some, inside]
        simp [keySteps]
      | _ => cases read

theorem Nested.keySteps_pos {endpoint deep : Endpoint} {path : List Step} (nested : Nested endpoint path deep) :
    path = [] ∨ 0 < keySteps path := by
  cases nested <;> simp [keySteps]

/-- An endpoint keeps its tag, unless the tag is null and the endpoint is inside another one. -/
theorem strip_tag (depth : Nat) (endpoint : Endpoint) :
    ((stripAbsentFields depth endpoint.toValue).follow [.key endpoint.endpointType.tag]).isSome ↔
      (endpoint.endpointType.toData.isNull = true → depth < 2) := by
  obtain ⟨middlewares, endpointType⟩ := endpoint
  have apart := beq_false_of_ne (tag_ne_middlewares endpointType)
  have written : (Endpoint.mk middlewares endpointType).toValue =
      .obj [("middlewares", .arr (Data.toValues (Middleware.toDatas middlewares))),
        (endpointType.tag, endpointType.toData.toValue)] := rfl
  -- The list of middlewares is there, also when it is empty, so the object counts as a configuration.
  have drops : dropsNulls depth [("middlewares", .arr (Data.toValues (Middleware.toDatas middlewares))),
      (endpointType.tag, endpointType.toData.toValue)] = decide (2 ≤ depth) := by
    simp [dropsNulls, Json.isNull]
  rw [written, stripAbsentFields, drops, Json.follow_key_obj, stripEntries, stripEntries, stripEntries,
    Data.isNull_toValue, Endpoint.endpointType]
  cases null : endpointType.toData.isNull with
  | false => simp [Json.isNull, List.lookup_cons, apart]
  | true =>
    by_cases deep : 2 ≤ depth
    · refine iff_of_false ?_ fun shallow => absurd (shallow rfl) (by omega)
      simp [Json.isNull, List.lookup_cons, apart, deep]
    · refine iff_of_true ?_ fun _ => by omega
      simp [Json.isNull, List.lookup_cons, apart, deep]

/-! ### The definition of a copy -/

/-- The endpoints of a copy, under their keys in its definition. -/
def copyEnds (input output : Endpoint) : List (Text × Endpoint) := [("source", input), ("destination", output)]

/-- Every endpoint, also inside another one, still has its tag. -/
def TagsKept (input output : Endpoint) (filter : Option Text) : Prop :=
  ∀ name endpoint, (name, endpoint) ∈ copyEnds input output → ∀ path deep, Nested endpoint path deep →
    ((stripAbsentFields 0 (copyDefinition input output filter).toValue).follow
      (.key name :: path ++ [.key deep.endpointType.tag])).isSome

/-- Endpoints whose tag is null stand at the ends of the copy only. -/
def NullsAtEnds (input output : Endpoint) : Prop :=
  ∀ name endpoint, (name, endpoint) ∈ copyEnds input output → ∀ path deep, Nested endpoint path deep →
    deep.endpointType.toData.isNull = true → path = []

theorem follow_copyDefinition {input output endpoint : Endpoint} {name : Text}
    (member : (name, endpoint) ∈ copyEnds input output) (filter : Option Text) (path : List Step) :
    (copyDefinition input output filter).toValue.follow (.key name :: path) = endpoint.toValue.follow path := by
  simp only [copyEnds, List.mem_cons, List.not_mem_nil, or_false, Prod.mk.injEq] at member
  rw [copyDefinition, Data.follow_record]
  rcases member with ⟨rfl, rfl⟩ | ⟨rfl, rfl⟩ <;> rfl

theorem toValue_present (endpoint : Endpoint) : endpoint.toValue.isNull = false := by
  cases endpoint
  rfl

theorem tagsKept_iff (input output : Endpoint) (filter : Option Text) :
    TagsKept input output filter ↔ NullsAtEnds input output := by
  refine forall_congr' fun name => forall_congr' fun endpoint => forall_congr' fun member => forall_congr' fun path =>
    forall_congr' fun deep => forall_congr' fun nested => ?_
  have read : (copyDefinition input output filter).toValue.follow (.key name :: path) = some deep.toValue := by
    have inside := nested.follow []
    rw [List.append_nil] at inside
    rw [follow_copyDefinition member, inside]
    rfl
  rw [List.cons_append, ← List.cons_append, follow_append, (follow_strip read (toValue_present deep) 0).2,
    Option.bind_some, strip_tag]
  refine imp_congr_right fun _ => ?_
  have steps : keySteps (.key name :: path) = keySteps path + 1 := by simp [keySteps]
  rcases nested.keySteps_pos with rfl | inside
  · simp [keySteps]
  · have nonempty : path ≠ [] := by
      rintro rfl
      cases inside
    simp only [nonempty, iff_false]
    omega

/-- New nulls go unseen where they join something else, and tags of null only stay at the ends of a copy. -/
theorem stripAbsentFields_stable_iff {input output : Endpoint} {filter : Option Text} {upgraded : Json}
    (grown : NullsAdded belowEndpoints 0 (copyDefinition input output filter).toValue upgraded) :
    (stripAbsentFields 0 (copyDefinition input output filter).toValue = stripAbsentFields 0 upgraded ↔
        NullsAdded dropsNulls 0 (copyDefinition input output filter).toValue upgraded) ∧
      (TagsKept input output filter ↔ NullsAtEnds input output) :=
  ⟨⟨added_of_strip grown, strip_of_added⟩, tagsKept_iff input output filter⟩

/-- A source that is measured with `metrics` under these settings. -/
theorem metrics_ne_dlq : ("metrics" : Text) ≠ "dlq" := by decide

def measuredSource (settings config : List (Text × Data)) : Endpoint :=
  .mk [.other "metrics" (.record settings) metrics_ne_dlq] (.connector .kafka (.record (("topic", .str "orders") :: config)))

def discardingFanout : Endpoint := .new (.fanout [.new .null])

theorem stripAbsentFields_stable_connector :
    (stripAbsentFields 0 (copyDefinition (measuredSource [] []) (.new .null) none).toValue =
          stripAbsentFields 0 (copyDefinition (measuredSource [] [("group", .null)]) (.new .null) none).toValue ↔
        NullsAdded dropsNulls 0 (copyDefinition (measuredSource [] []) (.new .null) none).toValue
          (copyDefinition (measuredSource [] [("group", .null)]) (.new .null) none).toValue) ∧
      (TagsKept (measuredSource [] []) (.new .null) none ↔ NullsAtEnds (measuredSource [] []) (.new .null)) :=
  stripAbsentFields_stable_iff <| .obj <| .kept _ (.obj <| .kept _ (.refl _ _ _) <|
    .kept _ (.obj <| .kept _ (.refl _ _ _) <| .added _ <| .nil _ _) (.nil _ _)) (.refl _ _ _ _)

/-- A setting added to `metrics: {}` is seen, and the branch that discards has no tag left. -/
theorem new_setting_seen :
    NullsAdded belowEndpoints 0 (copyDefinition (measuredSource [] []) discardingFanout none).toValue
        (copyDefinition (measuredSource [("labels", .null)] []) discardingFanout none).toValue ∧
      stripAbsentFields 0 (copyDefinition (measuredSource [] []) discardingFanout none).toValue ≠
        stripAbsentFields 0 (copyDefinition (measuredSource [("labels", .null)] []) discardingFanout none).toValue ∧
      ¬ TagsKept (measuredSource [] []) discardingFanout none := by
  refine ⟨?_, ?_, ?_⟩
  · exact .obj <| .kept _ (.obj <| .kept _ (.arr <| .cons (.obj <| .kept _ (.obj <| .added _ <| .nil _ _) (.nil _ _))
      (.nil _)) (.refl _ _ _ _)) (.refl _ _ _ _)
  · intro same
    exact absurd (congrArg Json.render same) (by decide)
  · rw [tagsKept_iff]
    intro atEnds
    cases atEnds "destination" discardingFanout (by simp [copyEnds]) _ (.new .null)
      (.fanout (show [Endpoint.new .null][0]? = some (.new .null) from rfl) (.here _)) rfl

end MqBridge.Copy
