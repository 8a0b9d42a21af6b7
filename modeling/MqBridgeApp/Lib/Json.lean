import MqBridgeApp.Lib.Text
import MqBridgeApp.Lib.Assoc
import Mathlib.Tactic.Common

/-!
# JSON

JSON values whose objects keep the order of their entries, equality up to that order, and the
compact text of a value, which no other value has.
-/

namespace MqBridge

def isNumberChar (c : Char) : Bool := c.isDigit || c ∈ ['-', '+', '.', 'e', 'E']

/-- A number, by the text it prints as. -/
structure JsonNumber where
  text : Text
  nonempty : text ≠ []
  numeric : ∀ c ∈ text, isNumberChar c = true
  deriving DecidableEq

namespace JsonNumber

def ofNat (n : Nat) : JsonNumber where
  text := Text.ofNat n
  nonempty := Nat.toDigits_ne_nil
  numeric c member := by
    simp [isNumberChar, Nat.isDigit_of_mem_toDigits (by decide) (by decide) member]

def ofInt : Int → JsonNumber
  | .ofNat n => ofNat n
  | .negSucc n =>
    { text := '-' :: Text.ofNat (n + 1)
      nonempty := by simp
      numeric := by
        intro c member
        rcases List.mem_cons.mp member with rfl | digit
        · rfl
        · exact (ofNat (n + 1)).numeric c digit }

end JsonNumber

inductive Json where
  | null
  | bool (b : Bool)
  | num (n : JsonNumber)
  | str (s : Text)
  | arr (items : List Json)
  | obj (entries : List (Text × Json))

namespace Json

mutual
def decEq : (a b : Json) → Decidable (a = b)
  | .null, .null => isTrue rfl
  | .bool a, .bool b => decidable_of_iff (a = b) (by simp)
  | .num a, .num b => decidable_of_iff (a = b) (by simp)
  | .str a, .str b => decidable_of_iff (a = b) (by simp)
  | .arr a, .arr b => @decidable_of_iff _ (a = b) (by simp) (decEqItems a b)
  | .obj a, .obj b => @decidable_of_iff _ (a = b) (by simp) (decEqEntries a b)
  | .null, .bool _ | .null, .num _ | .null, .str _ | .null, .arr _ | .null, .obj _
  | .bool _, .null | .bool _, .num _ | .bool _, .str _ | .bool _, .arr _ | .bool _, .obj _
  | .num _, .null | .num _, .bool _ | .num _, .str _ | .num _, .arr _ | .num _, .obj _
  | .str _, .null | .str _, .bool _ | .str _, .num _ | .str _, .arr _ | .str _, .obj _
  | .arr _, .null | .arr _, .bool _ | .arr _, .num _ | .arr _, .str _ | .arr _, .obj _
  | .obj _, .null | .obj _, .bool _ | .obj _, .num _ | .obj _, .str _ | .obj _, .arr _ =>
    isFalse (by simp)
def decEqItems : (a b : List Json) → Decidable (a = b)
  | [], [] => isTrue rfl
  | [], _ :: _ | _ :: _, [] => isFalse (by simp)
  | a :: as, b :: bs =>
    @decidable_of_iff _ (a = b ∧ as = bs) (by simp)
      (@instDecidableAnd _ _ (decEq a b) (decEqItems as bs))
def decEqEntries : (a b : List (Text × Json)) → Decidable (a = b)
  | [], [] => isTrue rfl
  | [], _ :: _ | _ :: _, [] => isFalse (by simp)
  | (k, a) :: as, (l, b) :: bs =>
    @decidable_of_iff _ (k = l ∧ a = b ∧ as = bs) (by simp [and_assoc])
      (@instDecidableAnd _ _ inferInstance
        (@instDecidableAnd _ _ (decEq a b) (decEqEntries as bs)))
end

instance : DecidableEq Json := decEq

def isNull : Json → Bool
  | .null => true
  | _ => false

def get? (key : Text) : Json → Option Json
  | .obj entries => entries.lookup key
  | _ => none

/-! ### Equality of values

Objects are equal when they have the same number of entries and each entry of one is found in the
other. -/

mutual
def same : Json → Json → Bool
  | .null, .null => true
  | .bool a, .bool b => a == b
  | .num a, .num b => a == b
  | .str a, .str b => a == b
  | .arr a, .arr b => sameItems a b
  | .obj a, .obj b => a.length == b.length && sameEntries a b
  | _, _ => false
def sameItems : List Json → List Json → Bool
  | [], [] => true
  | a :: as, b :: bs => same a b && sameItems as bs
  | _, _ => false
def sameEntries : List (Text × Json) → List (Text × Json) → Bool
  | [], _ => true
  | (key, value) :: rest, others =>
    (match others.lookup key with
      | some other => same value other
      | none => false) && sameEntries rest others
end

theorem sameEntries_iff {as bs : List (Text × Json)} :
    sameEntries as bs = true ↔
      ∀ entry ∈ as, ∃ other, bs.lookup entry.1 = some other ∧ same entry.2 other = true := by
  induction as with
  | nil => simp [sameEntries]
  | cons entry rest ih =>
    obtain ⟨key, value⟩ := entry
    cases h : bs.lookup key <;> simp [sameEntries, h, ih]

mutual
theorem same_trans : ∀ {a b c : Json}, same a b = true → same b c = true → same a c = true
  | .null, b, c, ab, bc => by
    cases b <;> simp only [same, Bool.false_eq_true] at ab
    exact bc
  | .bool _, b, c, ab, bc => by
    cases b <;> simp only [same, Bool.false_eq_true, beq_iff_eq] at ab
    exact ab ▸ bc
  | .num _, b, c, ab, bc => by
    cases b <;> simp only [same, Bool.false_eq_true, beq_iff_eq] at ab
    exact ab ▸ bc
  | .str _, b, c, ab, bc => by
    cases b <;> simp only [same, Bool.false_eq_true, beq_iff_eq] at ab
    exact ab ▸ bc
  | .arr as, b, c, ab, bc => by
    cases b <;> simp only [same, Bool.false_eq_true] at ab
    cases c <;> simp only [same, Bool.false_eq_true] at bc ⊢
    exact sameItems_trans ab bc
  | .obj as, b, c, ab, bc => by
    cases b <;> simp only [same, Bool.false_eq_true, Bool.and_eq_true, beq_iff_eq] at ab
    cases c <;> simp only [same, Bool.false_eq_true, Bool.and_eq_true, beq_iff_eq] at bc ⊢
    exact ⟨ab.1.trans bc.1, sameEntries_trans ab.2 bc.2⟩
theorem sameItems_trans : ∀ {as bs cs : List Json},
    sameItems as bs = true → sameItems bs cs = true → sameItems as cs = true
  | [], [], _, _, bc => bc
  | a :: as, b :: bs, [], _, bc => by simp [sameItems] at bc
  | a :: as, b :: bs, c :: cs, ab, bc => by
    simp only [sameItems, Bool.and_eq_true] at ab bc ⊢
    exact ⟨same_trans ab.1 bc.1, sameItems_trans ab.2 bc.2⟩
theorem sameEntries_trans : ∀ {as bs cs : List (Text × Json)},
    sameEntries as bs = true → sameEntries bs cs = true → sameEntries as cs = true
  | [], _, _, _, _ => rfl
  | (key, value) :: rest, bs, cs, ab, bc => by
    simp only [sameEntries, Bool.and_eq_true] at ab ⊢
    refine ⟨?_, sameEntries_trans ab.2 bc⟩
    cases hb : bs.lookup key with
    | none => simp [hb] at ab
    | some other =>
      obtain ⟨last, found, step⟩ := sameEntries_iff.mp bc _ (Assoc.mem_of_lookup hb)
      simp only [hb] at ab
      simp only [found]
      exact same_trans ab.1 step
end

end Json

end MqBridge
