import MqBridgeApp.Copy.Identity
import MqBridgeApp.Lib.Lists

/-!
# The identity and the order of hash maps

A hash map is serialised in the order it is iterated in, which is another one in another process. The
identity stays the same over all orders only when no map in the endpoints has two entries to order.
-/

namespace MqBridge.Copy
open Text Data

def keptEntries (depth : Nat) (entries : List (Text × Data)) : List (Text × Data) :=
  entries.filter fun entry => !(dropsNulls depth (toEntries entries) && entry.2.isNull)

mutual
/-- No map in the data has two entries that the identity sees. -/
def OrderFree (depth : Nat) : Data → Prop
  | .seq items => OrderFreeItems depth items
  | .record fields => OrderFreeEntries (depth + 1) fields
  | .map entries => (keptEntries depth entries).length ≤ 1 ∧ OrderFreeEntries (depth + 1) entries
  | .null | .bool _ | .num _ | .str _ => True
def OrderFreeItems (depth : Nat) : List Data → Prop
  | [] => True
  | item :: rest => OrderFree depth item ∧ OrderFreeItems depth rest
def OrderFreeEntries (depth : Nat) : List (Text × Data) → Prop
  | [] => True
  | (_, value) :: rest => OrderFree depth value ∧ OrderFreeEntries depth rest
end

section
variable (parseUrl : Text → Option Url)

theorem dropsNulls_perm {depth : Nat} {entries entries' : List (Text × Data)} (order : entries.Perm entries') :
    dropsNulls depth (toEntries entries) = dropsNulls depth (toEntries entries') := by
  rw [dropsNulls, dropsNulls, toEntries_eq_map, toEntries_eq_map, (order.map _).any_eq]

theorem seenEntries_perm {drop : Bool} {key : Option Text} {depth : Nat} {entries entries' : List (Text × Data)}
    (order : entries.Perm entries') :
    (seenEntries parseUrl drop key depth entries).Perm (seenEntries parseUrl drop key depth entries') :=
  (order.filter _).map _

mutual
theorem fingerprint_reordered : ∀ {data data' : Data} {key parent : Option Text} {depth : Nat},
    Reordered data data' → OrderFree depth data →
      fingerprint parseUrl key parent depth data = fingerprint parseUrl key parent depth data'
  | .null, _, _, _, _, .null, _ => rfl
  | .bool _, _, _, _, _, .bool _, _ => rfl
  | .num _, _, _, _, _, .num _, _ => rfl
  | .str _, _, _, _, _, .str _, _ => rfl
  | .seq _, _, _, _, _, .seq same, free => by
    rw [fingerprint_seq, fingerprint_seq, fingerprintItems_reordered same free]
  | .record fields, _, _, _, depth, .record same, free => by
    rw [fingerprint_record, fingerprint_record, dropsNulls_congr same.nulls, seenEntries_reordered same free]
  | .map entries, _, key, _, depth, @Reordered.map _ entries' _ same order, free => by
    have drops : dropsNulls depth (toEntries entries) = dropsNulls depth (toEntries entries') :=
      dropsNulls_congr same.nulls
    have seen := @seenEntries_reordered entries entries' key (depth + 1)
      (dropsNulls depth (toEntries entries')) same free.2
    have few : (seenEntries parseUrl (dropsNulls depth (toEntries entries')) key (depth + 1) entries').length ≤ 1 := by
      rw [← seen, ← drops]
      simpa [seenEntries, keptEntries] using free.1
    rw [fingerprint_map, fingerprint_map, ← dropsNulls_perm order, drops, seen]
    rw [Lists.eq_of_perm (seenEntries_perm parseUrl order) few]
theorem fingerprintItems_reordered : ∀ {items items' : List Data} {key parent : Option Text} {depth : Nat},
    ReorderedItems items items' → OrderFreeItems depth items →
      items.map (fingerprint parseUrl key parent depth) = items'.map (fingerprint parseUrl key parent depth)
  | [], _, _, _, _, .nil, _ => rfl
  | _ :: _, _, _, _, _, .cons head tail, free => by
    rw [List.map_cons, List.map_cons, fingerprint_reordered head free.1, fingerprintItems_reordered tail free.2]
theorem seenEntries_reordered : ∀ {entries entries' : List (Text × Data)} {key : Option Text} {depth : Nat} {drop : Bool},
    ReorderedEntries entries entries' → OrderFreeEntries depth entries →
      seenEntries parseUrl drop key depth entries = seenEntries parseUrl drop key depth entries'
  | [], _, _, _, _, .nil, _ => rfl
  | (_, _) :: _, _, _, _, _, .cons head tail, free => by
    rw [seenEntries_cons, seenEntries_cons, fingerprint_reordered head free.1, seenEntries_reordered tail free.2,
      head.isNull_eq]
end

theorem seenEntries_keys (drop : Bool) (key : Option Text) (depth : Nat) (entries : List (Text × Data)) :
    (seenEntries parseUrl drop key depth entries).map Prod.fst =
      (entries.filter fun entry => !(drop && entry.2.isNull)).map Prod.fst := by
  rw [seenEntries, List.map_map]
  rfl

theorem seenEntries_reversed_keys (drop : Bool) (key : Option Text) (depth : Nat) (entries : List (Text × Data)) :
    (seenEntries parseUrl drop key depth (reversedEntries entries)).map Prod.fst =
      (seenEntries parseUrl drop key depth entries).map Prod.fst := by
  induction entries with
  | nil => rfl
  | cons entry rest ih =>
    obtain ⟨name, value⟩ := entry
    rw [reversedEntries, seenEntries_cons, seenEntries_cons, (reordered_reversed value).isNull_eq]
    split
    · exact ih
    · rw [List.map_cons, List.map_cons, ih]

mutual
theorem orderFree_of_reversed : ∀ {data : Data} {key parent : Option Text} {depth : Nat}, data.DistinctKeys →
    fingerprint parseUrl key parent depth data = fingerprint parseUrl key parent depth data.reversed →
      OrderFree depth data
  | .null, _, _, _, _, _ => trivial
  | .bool _, _, _, _, _, _ => trivial
  | .num _, _, _, _, _, _ => trivial
  | .str _, _, _, _, _, _ => trivial
  | .seq items, _, _, _, distinct, same => by
    rw [reversed, fingerprint_seq, fingerprint_seq, Json.arr.injEq] at same
    exact orderFreeItems_of_reversed distinct same
  | .record fields, _, _, depth, distinct, same => by
    have nulls := (reorderedEntries_reversed fields).nulls
    rw [reversed, fingerprint_record, fingerprint_record, Json.obj.injEq, ← dropsNulls_congr nulls] at same
    exact orderFreeEntries_of_reversed distinct same
  | .map entries, key, _, depth, distinct, same => by
    have nulls := (reorderedEntries_reversed entries).nulls
    rw [reversed, fingerprint_map, fingerprint_map, Json.obj.injEq,
      dropsNulls_perm (List.reverse_perm (reversedEntries entries)), ← dropsNulls_congr nulls] at same
    have backwards : seenEntries parseUrl (dropsNulls depth (toEntries entries)) key (depth + 1)
        (reversedEntries entries).reverse = (seenEntries parseUrl (dropsNulls depth (toEntries entries)) key
          (depth + 1) (reversedEntries entries)).reverse := by
      simp only [seenEntries, List.filter_reverse, List.map_reverse]
    rw [backwards] at same
    -- The keys that are kept read the same backwards, and no key occurs twice.
    have few : (keptEntries depth entries).length ≤ 1 := by
      have keys := congrArg (List.map Prod.fst) same
      rw [List.map_reverse, seenEntries_reversed_keys, seenEntries_keys] at keys
      have once := Lists.length_le_one_of_reverse (distinct.1.sublist (List.filter_sublist.map _)) keys
      simpa [keptEntries] using once
    have seenFew : (seenEntries parseUrl (dropsNulls depth (toEntries entries)) key (depth + 1) entries).length ≤ 1 := by
      simpa [seenEntries, keptEntries] using few
    have forwards := same.trans (Lists.eq_of_perm (List.reverse_perm _) (same ▸ seenFew))
    exact ⟨few, orderFreeEntries_of_reversed distinct.2 forwards⟩
theorem orderFreeItems_of_reversed : ∀ {items : List Data} {key parent : Option Text} {depth : Nat},
    DistinctItems items →
      items.map (fingerprint parseUrl key parent depth) =
        (reversedItems items).map (fingerprint parseUrl key parent depth) → OrderFreeItems depth items
  | [], _, _, _, _, _ => trivial
  | item :: rest, _, _, _, distinct, same => by
    rw [reversedItems, List.map_cons, List.map_cons, List.cons.injEq] at same
    exact ⟨orderFree_of_reversed distinct.1 same.1, orderFreeItems_of_reversed distinct.2 same.2⟩
theorem orderFreeEntries_of_reversed : ∀ {entries : List (Text × Data)} {key : Option Text} {depth : Nat} {drop : Bool},
    DistinctEntries entries →
      seenEntries parseUrl drop key depth entries = seenEntries parseUrl drop key depth (reversedEntries entries) →
        OrderFreeEntries depth entries
  | [], _, _, _, _, _ => trivial
  | (name, value) :: rest, _, depth, drop, distinct, same => by
    rw [reversedEntries, seenEntries_cons, seenEntries_cons, (reordered_reversed value).isNull_eq] at same
    split at same
    · next absent =>
      have null : value = .null := by
        cases value <;> simp [isNull] at absent ⊢
      subst null
      exact ⟨trivial, orderFreeEntries_of_reversed distinct.2 same⟩
    · rw [List.cons.injEq, Prod.mk.injEq] at same
      exact ⟨orderFree_of_reversed distinct.1 same.1.2, orderFreeEntries_of_reversed distinct.2 same.2⟩
end

end

/-! ### Endpoints -/

/-- The same endpoint with its hash maps in another order. -/
def SameContent (a b : Endpoint) : Prop := Reordered a.toData b.toData

mutual
def reversedEndpoint : Endpoint → Endpoint
  | .mk middlewares endpointType => .mk (reversedMiddlewares middlewares) (reversedType endpointType)
def reversedMiddleware : Middleware → Middleware
  | .dlq endpoint => .dlq (reversedEndpoint endpoint)
  | .other tag config named => .other tag config.reversed named
def reversedMiddlewares : List Middleware → List Middleware
  | [] => []
  | middleware :: rest => reversedMiddleware middleware :: reversedMiddlewares rest
def reversedType : EndpointType → EndpointType
  | .null => .null
  | .http config streamResponseTo =>
    .http { config with
      customHeaders := config.customHeaders.reverse
      settings := reversedEntries config.settings } (reversedOption streamResponseTo)
  | .static config => .static { config with metadata := config.metadata.reverse }
  | .response => .response
  | .fanout branches => .fanout (reversedEndpoints branches)
  | .switch metadataKey cases when_ default =>
    .switch metadataKey (reversedNamed cases).reverse (reversedNamed when_) (reversedOption default)
  | .reader nested => .reader (reversedEndpoint nested)
  | .request target forwardTo => .request (reversedEndpoint target) (reversedEndpoint forwardTo)
  | .custom name config => .custom name config.reversed
  | .connector kind config => .connector kind config.reversed
def reversedOption : Option Endpoint → Option Endpoint
  | some endpoint => some (reversedEndpoint endpoint)
  | none => none
def reversedEndpoints : List Endpoint → List Endpoint
  | [] => []
  | endpoint :: rest => reversedEndpoint endpoint :: reversedEndpoints rest
def reversedNamed : List (Text × Endpoint) → List (Text × Endpoint)
  | [] => []
  | (name, endpoint) :: rest => (name, reversedEndpoint endpoint) :: reversedNamed rest
end

theorem reversed_textMap (entries : List (Text × Text)) : (textMap entries).reversed = textMap entries.reverse := by
  have strings : reversedEntries (entries.map fun entry => (entry.1, Data.str entry.2)) =
      entries.map fun entry => (entry.1, Data.str entry.2) := by
    induction entries with
    | nil => rfl
    | cons entry rest ih => rw [List.map_cons, reversedEntries, ih, reversed]
  rw [textMap, reversed, strings, textMap, List.map_reverse]

theorem caseDatas_eq_map (cases : List (Text × Endpoint)) :
    Endpoint.caseDatas cases = cases.map fun entry => (entry.1, entry.2.toData) := by
  induction cases with
  | nil => rfl
  | cons entry rest ih => rw [Endpoint.caseDatas, ih, List.map_cons]

theorem reversedType_tag (endpointType : EndpointType) : (reversedType endpointType).tag = endpointType.tag := by
  cases endpointType <;> rfl

mutual
theorem toData_reversedEndpoint : ∀ endpoint, (reversedEndpoint endpoint).toData = endpoint.toData.reversed
  | .mk middlewares endpointType => by
    rw [reversedEndpoint, Endpoint.toData, Endpoint.toData, toDatas_reversedMiddlewares, reversedType_tag,
      toData_reversedType]
    rfl
theorem toData_reversedMiddleware : ∀ middleware, (reversedMiddleware middleware).toData = middleware.toData.reversed
  | .dlq endpoint => by
    rw [reversedMiddleware, Middleware.toData, Middleware.toData, toData_reversedEndpoint]
    rfl
  | .other _ _ _ => rfl
theorem toDatas_reversedMiddlewares : ∀ middlewares,
    Middleware.toDatas (reversedMiddlewares middlewares) = reversedItems (Middleware.toDatas middlewares)
  | [] => rfl
  | middleware :: rest => by
    rw [reversedMiddlewares, Middleware.toDatas, Middleware.toDatas, toData_reversedMiddleware,
      toDatas_reversedMiddlewares rest]
    rfl
theorem toData_reversedType : ∀ endpointType, (reversedType endpointType).toData = endpointType.toData.reversed
  | .null => rfl
  | .http config streamResponseTo => by
    rw [reversedType, EndpointType.toData, EndpointType.toData, optionToData_reversedOption, ← reversed_textMap]
    cases auth : config.basicAuth <;> rfl
  | .static config => by
    rw [reversedType, EndpointType.toData, EndpointType.toData, ← reversed_textMap]
    rfl
  | .response => rfl
  | .fanout branches => by
    rw [reversedType, EndpointType.toData, EndpointType.toData, toDatas_reversedEndpoints]
    rfl
  | .switch metadataKey cases when_ default => by
    rw [reversedType, EndpointType.toData, EndpointType.toData, whenDatas_reversedNamed,
      optionToData_reversedOption, caseDatas_eq_map, List.map_reverse, ← caseDatas_eq_map, caseDatas_reversedNamed]
    rfl
  | .reader nested => by
    rw [reversedType, EndpointType.toData, EndpointType.toData, toData_reversedEndpoint]
  | .request target forwardTo => by
    rw [reversedType, EndpointType.toData, EndpointType.toData, toData_reversedEndpoint,
      toData_reversedEndpoint]
    rfl
  | .custom _ _ => rfl
  | .connector _ _ => rfl
theorem optionToData_reversedOption : ∀ endpoint,
    Endpoint.optionToData (reversedOption endpoint) = (Endpoint.optionToData endpoint).reversed
  | some endpoint => by
    rw [reversedOption, Endpoint.optionToData, Endpoint.optionToData, toData_reversedEndpoint]
  | none => rfl
theorem toDatas_reversedEndpoints : ∀ endpoints,
    Endpoint.toDatas (reversedEndpoints endpoints) = reversedItems (Endpoint.toDatas endpoints)
  | [] => rfl
  | endpoint :: rest => by
    rw [reversedEndpoints, Endpoint.toDatas, Endpoint.toDatas, toData_reversedEndpoint,
      toDatas_reversedEndpoints rest]
    rfl
theorem caseDatas_reversedNamed : ∀ cases,
    Endpoint.caseDatas (reversedNamed cases) = reversedEntries (Endpoint.caseDatas cases)
  | [] => rfl
  | (name, endpoint) :: rest => by
    rw [reversedNamed, Endpoint.caseDatas, Endpoint.caseDatas, toData_reversedEndpoint,
      caseDatas_reversedNamed rest]
    rfl
theorem whenDatas_reversedNamed : ∀ cases,
    Endpoint.whenDatas (reversedNamed cases) = reversedItems (Endpoint.whenDatas cases)
  | [] => rfl
  | (condition, endpoint) :: rest => by
    rw [reversedNamed, Endpoint.whenDatas, Endpoint.whenDatas, toData_reversedEndpoint,
      whenDatas_reversedNamed rest]
    rfl
end

/-- The identity is the same over all iteration orders exactly when no hash map has two entries that it
sees. -/
theorem identity_orderFree_iff (hashing : Hashing) (injective : Function.Injective hashing.digest)
    (source destination : Endpoint) (filter : Option Text) (distinct : source.toData.DistinctKeys)
    (distinct' : destination.toData.DistinctKeys) :
    (∀ source' destination', SameContent source source' → SameContent destination destination' →
        checkpointIdentity hashing source destination filter =
          checkpointIdentity hashing source' destination' filter) ↔
      OrderFree 1 source.toData ∧ OrderFree 1 destination.toData := by
  simp only [checkpointIdentity_eq_iff injective]
  constructor
  · intro same
    have content : ∀ endpoint, SameContent endpoint (reversedEndpoint endpoint) := by
      intro endpoint
      rw [SameContent, toData_reversedEndpoint]
      exact reordered_reversed endpoint.toData
    obtain ⟨sources, destinations⟩ := same _ _ (content source) (content destination)
    rw [toData_reversedEndpoint] at sources destinations
    exact ⟨orderFree_of_reversed _ distinct sources, orderFree_of_reversed _ distinct' destinations⟩
  · intro free source' destination' sources destinations
    exact ⟨fingerprint_reordered _ sources free.1, fingerprint_reordered _ destinations free.2⟩

def httpWithHeaders (headers : List (Text × Text)) : Endpoint :=
  .new (.http { url := "http://localhost:8080", customHeaders := headers } none)

theorem identity_orderFree_iff_oneHeader :
    (∀ source' destination', SameContent (httpWithHeaders [("accept", "text/plain")]) source' →
        SameContent (.new .null) destination' →
          checkpointIdentity plainHashing (httpWithHeaders [("accept", "text/plain")]) (.new .null) none =
            checkpointIdentity plainHashing source' destination' none) ↔
      OrderFree 1 (httpWithHeaders [("accept", "text/plain")]).toData ∧ OrderFree 1 (Endpoint.new .null).toData :=
  identity_orderFree_iff plainHashing (fun _ _ same => same) _ _ none
    ⟨trivial, ⟨trivial, trivial, trivial, ⟨List.nodup_singleton _, trivial, trivial⟩, trivial⟩, trivial⟩
    ⟨trivial, trivial, trivial⟩

theorem two_headers_two_identities :
    SameContent (httpWithHeaders [("accept", "text/plain"), ("x-tenant", "blue")])
        (httpWithHeaders [("x-tenant", "blue"), ("accept", "text/plain")]) ∧
      checkpointIdentity plainHashing (httpWithHeaders [("accept", "text/plain"), ("x-tenant", "blue")])
          (.new .null) none ≠
        checkpointIdentity plainHashing (httpWithHeaders [("x-tenant", "blue"), ("accept", "text/plain")])
          (.new .null) none := by
  refine ⟨?_, by decide +kernel⟩
  have content := reordered_reversed (httpWithHeaders [("accept", "text/plain"), ("x-tenant", "blue")]).toData
  exact content

end MqBridge.Copy
