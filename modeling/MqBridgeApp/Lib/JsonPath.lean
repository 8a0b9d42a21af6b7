import MqBridgeApp.Lib.Serde

/-!
# Places in a JSON value

A place is a sequence of keys and indices. A value can be read at any place, and it can be set along
keys, which makes objects of what is in the way.
-/

namespace MqBridge

inductive Step where
  | key (name : Text)
  | index (i : Nat)
  deriving DecidableEq

namespace Json

def follow : List Step → Json → Option Json
  | [], value => some value
  | .key name :: rest, .obj entries => (entries.lookup name).bind (follow rest)
  | .index i :: rest, .arr items => items[i]?.bind (follow rest)
  | _ :: _, _ => none

@[simp] theorem follow_nil (value : Json) : value.follow [] = some value := rfl

@[simp] theorem follow_key_obj (name : Text) (rest : List Step) (entries : List (Text × Json)) :
    (Json.obj entries).follow (.key name :: rest) = (entries.lookup name).bind (follow rest) := rfl

@[simp] theorem follow_index_arr (i : Nat) (rest : List Step) (items : List Json) :
    (Json.arr items).follow (.index i :: rest) = items[i]?.bind (follow rest) := rfl

/-- The entries of an object, and none of anything else. -/
def entriesOf : Json → List (Text × Json)
  | .obj entries => entries
  | _ => []

theorem follow_key (name : Text) (rest : List Step) (value : Json) :
    value.follow (.key name :: rest) = (value.entriesOf.lookup name).bind (follow rest) := by
  cases value <;> rfl

/-- Sets the value at the end of a sequence of keys. -/
def setAt (new : Json) : List Text → Json → Json
  | [], _ => new
  | name :: rest, old =>
    .obj (Assoc.insert old.entriesOf (name, setAt new rest ((old.entriesOf.lookup name).getD (.obj []))))

/-- A value without parts. -/
def isScalar : Json → Bool
  | .arr _ | .obj _ => false
  | _ => true

theorem follow_scalar {value : Json} (scalar : value.isScalar = true) (step : Step) (rest : List Step) :
    value.follow (step :: rest) = none := by
  cases value <;> cases step <;> first | rfl | cases scalar

/-- A text is read after a scalar is set only where it was before, or where the scalar was set. -/
theorem follow_setAt {new : Json} (scalar : new.isScalar = true) {path : List Text} {old : Json}
    {place : List Step} {text : Text} (found : (setAt new path old).follow place = some (.str text)) :
    old.follow place = some (.str text) ∨ place = path.map .key := by
  induction path generalizing old place with
  | nil =>
    cases place with
    | nil => exact .inr rfl
    | cons step rest =>
      rw [setAt, follow_scalar scalar] at found
      cases found
  | cons name path ih =>
    cases place with
    | nil => cases found
    | cons step rest =>
      cases step with
      | index i => cases found
      | key other =>
        rw [setAt, follow_key_obj, Assoc.lookup_insert] at found
        by_cases same : other = name
        · subst same
          rw [if_pos (beq_self_eq_true other), Option.bind_some] at found
          rcases ih found with before | here
          · rw [follow_key]
            cases there : old.entriesOf.lookup other with
            | some inner =>
              rw [there] at before
              exact .inl before
            | none =>
              rw [there, Option.getD_none] at before
              cases rest with
              | nil => cases before
              | cons step rest => cases step <;> cases before
          · exact .inr (congrArg _ here)
        · rw [if_neg (by simpa using same)] at found
          rw [follow_key]
          exact .inl found

theorem follow_setAll {writes : List (List Text × Json)} (scalars : ∀ write ∈ writes, write.2.isScalar = true)
    {old : Json} {place : List Step} {text : Text}
    (found : (writes.foldl (fun value write => setAt write.2 write.1 value) old).follow place = some (.str text)) :
    old.follow place = some (.str text) ∨ ∃ write ∈ writes, place = write.1.map .key := by
  induction writes generalizing old with
  | nil => exact .inl found
  | cons write rest ih =>
    rcases ih (fun write member => scalars write (List.mem_cons_of_mem _ member)) found with before | later
    · rcases follow_setAt (scalars write List.mem_cons_self) before with before | here
      · exact .inl before
      · exact .inr ⟨write, List.mem_cons_self, here⟩
    · obtain ⟨other, member, here⟩ := later
      exact .inr ⟨other, List.mem_cons_of_mem _ member, here⟩

end Json

namespace Data

theorem follow_record (name : Text) (rest : List Step) (fields : List (Text × Data)) :
    (Data.record fields).toValue.follow (.key name :: rest) =
      (fields.lookup name).bind fun value => value.toValue.follow rest := by
  rw [toValue, Json.follow_key_obj, lookup_toEntries]
  cases fields.lookup name <;> rfl

theorem follow_map (name : Text) (rest : List Step) (entries : List (Text × Data)) :
    (Data.map entries).toValue.follow (.key name :: rest) =
      (entries.lookup name).bind fun value => value.toValue.follow rest := by
  rw [toValue, Json.follow_key_obj, lookup_toEntries]
  cases entries.lookup name <;> rfl

theorem follow_seq (i : Nat) (rest : List Step) (items : List Data) :
    (Data.seq items).toValue.follow (.index i :: rest) =
      items[i]?.bind fun value => value.toValue.follow rest := by
  rw [toValue, Json.follow_index_arr, toValues_eq_map, List.getElem?_map]
  cases items[i]? <;> rfl

end Data

end MqBridge
