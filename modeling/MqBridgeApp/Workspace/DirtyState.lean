import MqBridgeApp.Lib.JsonAgree
import MqBridgeApp.Lib.JsonText
import MqBridgeApp.Lib.PropertyOrder
import Mathlib.Data.List.Sort

/-!
# The workspace in the browser

The UI edits one configuration object in place. A section of it is dirty when its text differs from
the text it had when it was last saved, where the members of an object count in the order of their
keys. A member `__proto__` does not count.
-/

namespace MqBridge.Workspace
open Text

def entryLe (a b : Text × Json) : Prop := propertyLe a.1 b.1 = true

instance : DecidableRel entryLe := fun a b => inferInstanceAs (Decidable (propertyLe a.1 b.1 = true))

instance : IsTrans (Text × Json) entryLe := ⟨fun _ _ _ => propertyLe_trans⟩

instance : Std.Total entryLe := ⟨fun a b => by simpa [entryLe] using propertyLe_total a.1 b.1⟩

mutual
def normalizeSectionState : Json → Json
  | .arr items => .arr (normalizeItems items)
  | .obj entries => .obj ((normalizeEntries entries).insertionSort entryLe)
  | value => value
def normalizeItems : List Json → List Json
  | [] => []
  | item :: rest => normalizeSectionState item :: normalizeItems rest
def normalizeEntries : List (Text × Json) → List (Text × Json)
  | [] => []
  | (key, value) :: rest =>
    -- the assignment sets the prototype, and no property
    if key = "__proto__" then normalizeEntries rest else (key, normalizeSectionState value) :: normalizeEntries rest
end

def serializeSectionState (value : Json) : Text := (normalizeSectionState value).render

/-- The value that the text of a section is parsed back to. -/
def cloneSectionState (value : Json) : Json := normalizeSectionState value

theorem normalizeEntries_eq (entries : List (Text × Json)) :
    normalizeEntries entries = (settable entries).map fun entry => (entry.1, normalizeSectionState entry.2) := by
  induction entries with
  | nil => rfl
  | cons entry rest ih =>
    rw [normalizeEntries, settable, List.filter_cons, ← settable, ih]
    by_cases proto : entry.1 = "__proto__" <;> simp [proto]

theorem keys_normalizeEntries (entries : List (Text × Json)) :
    (normalizeEntries entries).map Prod.fst = (settable entries).map Prod.fst := by
  rw [normalizeEntries_eq, List.map_map]
  rfl

mutual
theorem normalizeSectionState_idempotent : ∀ value : Json,
    normalizeSectionState (normalizeSectionState value) = normalizeSectionState value
  | .null | .bool _ | .num _ | .str _ => by simp only [normalizeSectionState]
  | .arr items => by
    rw [normalizeSectionState, normalizeSectionState, normalizeItems_idempotent items]
  | .obj entries => by
    rw [normalizeSectionState, normalizeSectionState]
    have settled : ∀ entry ∈ (normalizeEntries entries).insertionSort entryLe,
        entry.1 ≠ "__proto__" ∧ (entry.1, normalizeSectionState entry.2) = entry := by
      intro entry member
      exact normalizeEntries_settled entries entry ((List.mem_insertionSort entryLe).mp member)
    rw [normalizeEntries_eq ((normalizeEntries entries).insertionSort entryLe),
      settable_eq_self fun entry member => (settled entry member).1,
      List.map_congr_left fun entry member => (settled entry member).2,
      List.map_id', (List.pairwise_insertionSort entryLe _).insertionSort_eq]
theorem normalizeItems_idempotent : ∀ items : List Json, normalizeItems (normalizeItems items) = normalizeItems items
  | [] => rfl
  | item :: rest => by
    simp only [normalizeItems, normalizeSectionState_idempotent item, normalizeItems_idempotent rest]
theorem normalizeEntries_settled : ∀ entries : List (Text × Json), ∀ entry ∈ normalizeEntries entries,
    entry.1 ≠ "__proto__" ∧ (entry.1, normalizeSectionState entry.2) = entry
  | [], _, member => by cases member
  | (key, value) :: rest, entry, member => by
    rw [normalizeEntries] at member
    split at member
    · exact normalizeEntries_settled rest entry member
    · next plain =>
      rcases List.mem_cons.mp member with rfl | later
      · exact ⟨plain, Prod.ext rfl (normalizeSectionState_idempotent value)⟩
      · exact normalizeEntries_settled rest entry later
end

@[simp] theorem serialize_clone (value : Json) : serializeSectionState (cloneSectionState value) = serializeSectionState value :=
  congrArg Json.render (normalizeSectionState_idempotent value)

mutual
def protoFree : Json → Bool
  | .arr items => protoFreeItems items
  | .obj entries => protoFreeEntries entries
  | _ => true
def protoFreeItems : List Json → Bool
  | [] => true
  | item :: rest => protoFree item && protoFreeItems rest
def protoFreeEntries : List (Text × Json) → Bool
  | [] => true
  | (key, value) :: rest => key != ("__proto__" : Text) && protoFree value && protoFreeEntries rest
end

/-- A value as a program builds it: no object has a key twice, or a member `__proto__`. -/
structure Proper (value : Json) : Prop where
  distinct : value.Distinct
  plain : protoFree value = true

instance (value : Json) : Decidable (Proper value) :=
  decidable_of_iff (value.Distinct ∧ protoFree value = true) ⟨fun both => ⟨both.1, both.2⟩, fun proper => ⟨proper.1, proper.2⟩⟩

theorem protoFreeEntries_iff {entries : List (Text × Json)} :
    protoFreeEntries entries = true ↔ ∀ entry ∈ entries, entry.1 ≠ "__proto__" ∧ protoFree entry.2 = true := by
  induction entries with
  | nil => simp [protoFreeEntries]
  | cons entry rest ih =>
    rw [protoFreeEntries, Bool.and_eq_true, Bool.and_eq_true, bne_iff_ne, ih, List.forall_mem_cons]

theorem proper_arr {items : List Json} : Proper (.arr items) ↔ ∀ item ∈ items, Proper item := by
  induction items with
  | nil => exact iff_of_true ⟨trivial, rfl⟩ nofun
  | cons item rest ih =>
    rw [List.forall_mem_cons, ← ih]
    constructor
    · rintro ⟨⟨here, later⟩, plain⟩
      rw [protoFree, protoFreeItems, Bool.and_eq_true] at plain
      exact ⟨⟨here, plain.1⟩, later, plain.2⟩
    · rintro ⟨here, later⟩
      exact ⟨⟨here.distinct, later.distinct⟩, Bool.and_eq_true_iff.mpr ⟨here.plain, later.plain⟩⟩

theorem nodup_normalizeEntries {entries : List (Text × Json)} (distinct : (entries.map Prod.fst).Nodup) :
    (((normalizeEntries entries).insertionSort entryLe).map Prod.fst).Nodup := by
  have perm := (List.perm_insertionSort entryLe (normalizeEntries entries)).map Prod.fst
  rw [perm.nodup_iff, keys_normalizeEntries]
  exact distinct.sublist (List.filter_sublist.map _)

mutual
theorem same_normalize : ∀ {value : Json}, value.Distinct → protoFree value = true →
    value.same (normalizeSectionState value) = true
  | .null, _, _ | .bool _, _, _ | .num _, _, _ | .str _, _, _ => by simp [normalizeSectionState, Json.same]
  | .arr _, distinct, plain => by
    rw [normalizeSectionState]
    exact sameItems_normalize distinct plain
  | .obj entries, distinct, plain => by
    have each := sameEntries_normalize distinct.2 plain
    have whole := settable_eq_self fun entry member => (protoFreeEntries_iff.mp plain entry member).1
    rw [normalizeSectionState, Json.same, Bool.and_eq_true, beq_iff_eq, Json.sameEntries_iff]
    constructor
    · rw [List.length_insertionSort, normalizeEntries_eq, whole, List.length_map]
    · intro entry member
      refine ⟨_, Assoc.lookup_of_mem (nodup_normalizeEntries distinct.1) ?_, each entry member⟩
      rw [List.mem_insertionSort, normalizeEntries_eq, whole]
      exact List.mem_map_of_mem member
theorem sameItems_normalize : ∀ {items : List Json}, Json.DistinctItems items → protoFreeItems items = true →
    Json.sameItems items (normalizeItems items) = true
  | [], _, _ => rfl
  | item :: rest, distinct, plain => by
    rw [protoFreeItems, Bool.and_eq_true] at plain
    rw [normalizeItems, Json.sameItems, same_normalize distinct.1 plain.1, sameItems_normalize distinct.2 plain.2]
    rfl
theorem sameEntries_normalize : ∀ {entries : List (Text × Json)}, Json.DistinctEntries entries →
    protoFreeEntries entries = true → ∀ entry ∈ entries, entry.2.same (normalizeSectionState entry.2) = true
  | [], _, _ => nofun
  | (_, _) :: _, distinct, plain => by
    rw [protoFreeEntries, Bool.and_eq_true, Bool.and_eq_true] at plain
    exact List.forall_mem_cons.mpr ⟨same_normalize distinct.1 plain.1.2, sameEntries_normalize distinct.2 plain.2⟩
end

theorem Proper.normalize {value : Json} (proper : Proper value) : value.same (normalizeSectionState value) = true :=
  same_normalize proper.distinct proper.plain

theorem same_of_serialize {a b : Json} (left : Proper a) (right : Proper b)
    (text : serializeSectionState a = serializeSectionState b) : a.same b = true := by
  have back := Json.same_symm right.distinct (Json.distinct_of_same right.distinct right.normalize) right.normalize
  rw [← Json.render_injective text] at back
  exact Json.same_trans left.normalize back

structure DirtyTracker where
  baseline : Text

/-- A tracker for a section with a value, which keeps the baseline that it had. -/
def createDirtyTracker (value : Json) (previous : Option DirtyTracker) (saved : Option Json) : DirtyTracker where
  baseline :=
    let savedSnapshot :=
      match saved with
      | some snapshot => serializeSectionState snapshot
      | none => serializeSectionState value
    (previous.map DirtyTracker.baseline).getD savedSnapshot

def isDirty (tracker : DirtyTracker) (value : Json) : Bool := serializeSectionState value != tracker.baseline

end MqBridge.Workspace
