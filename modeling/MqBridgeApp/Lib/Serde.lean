import MqBridgeApp.Lib.Json

/-!
# Serialised data

What a serialiser writes for a value: a struct has its fields in a fixed order, a hash map its
entries in the order it is iterated in. Two runs may iterate one map differently, and `Reordered`
relates what they write.
-/

namespace MqBridge

inductive Data where
  | null
  | bool (b : Bool)
  | num (n : JsonNumber)
  | str (s : Text)
  | seq (items : List Data)
  | record (fields : List (Text × Data))
  | map (entries : List (Text × Data))

namespace Data

mutual
def toValue : Data → Json
  | .null => .null
  | .bool b => .bool b
  | .num n => .num n
  | .str s => .str s
  | .seq items => .arr (toValues items)
  | .record fields => .obj (toEntries fields)
  | .map entries => .obj (toEntries entries)
def toValues : List Data → List Json
  | [] => []
  | item :: rest => item.toValue :: toValues rest
def toEntries : List (Text × Data) → List (Text × Json)
  | [] => []
  | (key, value) :: rest => (key, value.toValue) :: toEntries rest
end

theorem toValues_eq_map (items : List Data) : toValues items = items.map toValue := by
  induction items with
  | nil => rfl
  | cons item rest ih => simp [toValues, ih]

theorem toEntries_eq_map (entries : List (Text × Data)) :
    toEntries entries = entries.map fun entry => (entry.1, entry.2.toValue) := by
  induction entries with
  | nil => rfl
  | cons entry rest ih => simp [toEntries, ih]

theorem lookup_toEntries (entries : List (Text × Data)) (key : Text) :
    (toEntries entries).lookup key = (entries.lookup key).map toValue := by
  induction entries with
  | nil => rfl
  | cons entry rest ih =>
    obtain ⟨name, value⟩ := entry
    rw [toEntries, List.lookup_cons, List.lookup_cons, ih]
    cases key == name <;> rfl

def isNull : Data → Bool
  | .null => true
  | _ => false

@[simp] theorem isNull_toValue (d : Data) : d.toValue.isNull = d.isNull := by
  cases d <;> rfl

/-- An optional value, which is null when it is absent. -/
def option {α : Type*} (f : α → Data) : Option α → Data
  | some a => f a
  | none => .null

def textMap (entries : List (Text × Text)) : Data := .map (entries.map fun entry => (entry.1, .str entry.2))

mutual
/-- The same data with its maps iterated in another order. -/
inductive Reordered : Data → Data → Prop where
  | null : Reordered .null .null
  | bool (b : Bool) : Reordered (.bool b) (.bool b)
  | num (n : JsonNumber) : Reordered (.num n) (.num n)
  | str (s : Text) : Reordered (.str s) (.str s)
  | seq {items items' : List Data} (same : ReorderedItems items items') :
      Reordered (.seq items) (.seq items')
  | record {fields fields' : List (Text × Data)} (same : ReorderedEntries fields fields') :
      Reordered (.record fields) (.record fields')
  | map {entries entries' shuffled : List (Text × Data)} (same : ReorderedEntries entries entries')
      (order : entries'.Perm shuffled) : Reordered (.map entries) (.map shuffled)
inductive ReorderedItems : List Data → List Data → Prop where
  | nil : ReorderedItems [] []
  | cons {item item' : Data} {rest rest' : List Data} (head : Reordered item item')
      (tail : ReorderedItems rest rest') : ReorderedItems (item :: rest) (item' :: rest')
inductive ReorderedEntries : List (Text × Data) → List (Text × Data) → Prop where
  | nil : ReorderedEntries [] []
  | cons {key : Text} {value value' : Data} {rest rest' : List (Text × Data)}
      (head : Reordered value value') (tail : ReorderedEntries rest rest') :
      ReorderedEntries ((key, value) :: rest) ((key, value') :: rest')
end

mutual
def reversed : Data → Data
  | .seq items => .seq (reversedItems items)
  | .record fields => .record (reversedEntries fields)
  | .map entries => .map (reversedEntries entries).reverse
  | .null => .null
  | .bool b => .bool b
  | .num n => .num n
  | .str s => .str s
def reversedItems : List Data → List Data
  | [] => []
  | item :: rest => item.reversed :: reversedItems rest
def reversedEntries : List (Text × Data) → List (Text × Data)
  | [] => []
  | (key, value) :: rest => (key, value.reversed) :: reversedEntries rest
end

mutual
theorem reordered_reversed : ∀ d : Data, Reordered d d.reversed
  | .null => .null
  | .bool b => .bool b
  | .num n => .num n
  | .str s => .str s
  | .seq items => .seq (reorderedItems_reversed items)
  | .record fields => .record (reorderedEntries_reversed fields)
  | .map entries => .map (reorderedEntries_reversed entries) (List.reverse_perm _).symm
theorem reorderedItems_reversed : ∀ items : List Data, ReorderedItems items (reversedItems items)
  | [] => .nil
  | item :: rest => .cons (reordered_reversed item) (reorderedItems_reversed rest)
theorem reorderedEntries_reversed : ∀ entries : List (Text × Data), ReorderedEntries entries (reversedEntries entries)
  | [] => .nil
  | (_, value) :: rest => .cons (reordered_reversed value) (reorderedEntries_reversed rest)
end

mutual
/-- A key occurs once in each map. -/
def DistinctKeys : Data → Prop
  | .seq items => DistinctItems items
  | .record fields => DistinctEntries fields
  | .map entries => (entries.map Prod.fst).Nodup ∧ DistinctEntries entries
  | .null | .bool _ | .num _ | .str _ => True
def DistinctItems : List Data → Prop
  | [] => True
  | item :: rest => item.DistinctKeys ∧ DistinctItems rest
def DistinctEntries : List (Text × Data) → Prop
  | [] => True
  | (_, value) :: rest => value.DistinctKeys ∧ DistinctEntries rest
end

theorem Reordered.isNull_eq {d d' : Data} (same : Reordered d d') : d'.isNull = d.isNull := by
  cases same <;> rfl

theorem ReorderedEntries.nulls {entries entries' : List (Text × Data)} (same : ReorderedEntries entries entries') :
    (entries.map fun entry => entry.2.isNull) = entries'.map fun entry => entry.2.isNull := by
  induction entries generalizing entries' with
  | nil =>
    cases same
    rfl
  | cons entry rest ih =>
    cases same with
    | cons head tail => simp only [List.map_cons, head.isNull_eq, ih tail]

end Data

end MqBridge
