import MqBridgeApp.Lib.Serde
import Mathlib.Data.List.Perm.Subperm

/-!
# Agreement of values

Two values agree when they are the same value or equal up to the order of their objects' entries.
For objects this is a statement about each field, and for hash maps of texts about their entries.
-/

namespace MqBridge

namespace Json

def Agree (a b : Json) : Prop := a = b ∨ a.same b = true

theorem Agree.refl (a : Json) : Agree a a := Or.inl rfl

theorem Agree.trans {a b c : Json} (ab : Agree a b) (bc : Agree b c) : Agree a c := by
  rcases ab with rfl | ab
  · exact bc
  · rcases bc with rfl | bc
    · exact Or.inr ab
    · exact Or.inr (same_trans ab bc)

theorem same_str {s t : Text} : (Json.str s).same (.str t) = true ↔ s = t := by simp [same]

/-! ### Values with distinct keys

On these, equality up to order is an equivalence. -/

mutual
/-- A key occurs once in each object. -/
def Distinct : Json → Prop
  | .arr items => DistinctItems items
  | .obj entries => (entries.map Prod.fst).Nodup ∧ DistinctEntries entries
  | .null | .bool _ | .num _ | .str _ => True
def DistinctItems : List Json → Prop
  | [] => True
  | item :: rest => item.Distinct ∧ DistinctItems rest
def DistinctEntries : List (Text × Json) → Prop
  | [] => True
  | (_, value) :: rest => value.Distinct ∧ DistinctEntries rest
end

mutual
def decDistinct : (value : Json) → Decidable value.Distinct
  | .arr items => decDistinctItems items
  | .obj entries => @instDecidableAnd _ _ inferInstance (decDistinctEntries entries)
  | .null | .bool _ | .num _ | .str _ => isTrue trivial
def decDistinctItems : (items : List Json) → Decidable (DistinctItems items)
  | [] => isTrue trivial
  | item :: rest => @instDecidableAnd _ _ (decDistinct item) (decDistinctItems rest)
def decDistinctEntries : (entries : List (Text × Json)) → Decidable (DistinctEntries entries)
  | [] => isTrue trivial
  | (_, value) :: rest => @instDecidableAnd _ _ (decDistinct value) (decDistinctEntries rest)
end

instance (value : Json) : Decidable value.Distinct := decDistinct value

theorem distinctEntries_of_each {entries : List (Text × Json)} (each : ∀ entry ∈ entries, entry.2.Distinct) :
    DistinctEntries entries := by
  induction entries with
  | nil => trivial
  | cons entry rest ih =>
    obtain ⟨here, later⟩ := List.forall_mem_cons.mp each
    exact ⟨here, ih later⟩

theorem distinct_of_entry {entries : List (Text × Json)} (distinct : DistinctEntries entries)
    {entry : Text × Json} (member : entry ∈ entries) : entry.2.Distinct := by
  induction entries with
  | nil => cases member
  | cons first rest ih =>
    rcases List.mem_cons.mp member with rfl | later
    · exact distinct.1
    · exact ih distinct.2 later

mutual
theorem same_refl : ∀ {a : Json}, a.Distinct → same a a = true
  | .null, _ | .bool _, _ | .num _, _ | .str _, _ => by simp [same]
  | .arr _, distinct => sameItems_refl distinct
  | .obj entries, distinct => by
    have each := sameEntries_refl distinct.2
    rw [same, beq_self_eq_true, Bool.true_and, sameEntries_iff]
    intro entry member
    exact ⟨entry.2, Assoc.lookup_of_mem distinct.1 member, each entry member⟩
theorem sameItems_refl : ∀ {items : List Json}, DistinctItems items → sameItems items items = true
  | [], _ => rfl
  | item :: rest, distinct => by rw [sameItems, same_refl distinct.1, sameItems_refl distinct.2]; rfl
theorem sameEntries_refl : ∀ {entries : List (Text × Json)}, DistinctEntries entries →
    ∀ entry ∈ entries, same entry.2 entry.2 = true
  | [], _ => nofun
  | (_, _) :: _, distinct => List.forall_mem_cons.mpr ⟨same_refl distinct.1, sameEntries_refl distinct.2⟩
end

mutual
theorem same_symm : ∀ {a b : Json}, a.Distinct → b.Distinct → same a b = true → same b a = true
  | .null, b, _, _, ab => by cases b <;> simp_all [same]
  | .bool _, b, _, _, ab => by cases b <;> simp_all [same]
  | .num _, b, _, _, ab => by cases b <;> simp_all [same]
  | .str _, b, _, _, ab => by cases b <;> simp_all [same]
  | .arr as, b, distinct, distinct', ab => by
    cases b <;> simp only [same, Bool.false_eq_true] at ab
    exact sameItems_symm distinct distinct' ab
  | .obj as, b, distinct, distinct', ab => by
    cases b <;> simp only [same, Bool.false_eq_true, Bool.and_eq_true, beq_iff_eq] at ab
    next bs =>
    have back := sameEntries_symm distinct.2
    have found := sameEntries_iff.mp ab.2
    have keys := Assoc.keys_perm distinct.1 ab.1 fun entry member => by
      obtain ⟨other, lookup, -⟩ := found entry member
      exact ⟨other, lookup⟩
    rw [same, Bool.and_eq_true, beq_iff_eq, sameEntries_iff]
    refine ⟨ab.1.symm, fun entry member => ?_⟩
    obtain ⟨original, inside, name⟩ := List.mem_map.mp (keys.mem_iff.mpr (List.mem_map_of_mem member))
    obtain ⟨other, lookup, step⟩ := found original inside
    rw [name, Assoc.lookup_of_mem distinct'.1 member] at lookup
    obtain rfl := Option.some.inj lookup
    refine ⟨original.2, ?_, back original inside _ (distinct_of_entry distinct'.2 member) step⟩
    rw [← name]
    exact Assoc.lookup_of_mem distinct.1 inside
theorem sameItems_symm : ∀ {as bs : List Json}, DistinctItems as → DistinctItems bs → sameItems as bs = true →
    sameItems bs as = true
  | [], [], _, _, _ => rfl
  | [], _ :: _, _, _, ab => by simp [sameItems] at ab
  | _ :: _, [], _, _, ab => by simp [sameItems] at ab
  | a :: as, b :: bs, distinct, distinct', ab => by
    simp only [sameItems, Bool.and_eq_true] at ab ⊢
    exact ⟨same_symm distinct.1 distinct'.1 ab.1, sameItems_symm distinct.2 distinct'.2 ab.2⟩
theorem sameEntries_symm : ∀ {as : List (Text × Json)}, DistinctEntries as → ∀ entry ∈ as, ∀ other : Json,
    other.Distinct → same entry.2 other = true → same other entry.2 = true
  | [], _ => nofun
  | (_, _) :: _, distinct => List.forall_mem_cons.mpr
      ⟨fun _ distinct' step => same_symm distinct.1 distinct' step, sameEntries_symm distinct.2⟩
end

mutual
theorem distinct_of_same : ∀ {a b : Json}, a.Distinct → same a b = true → b.Distinct
  | .null, b, _, ab => by
    cases b <;> trivial
  | .bool _, b, _, ab => by
    cases b <;> trivial
  | .num _, b, _, ab => by
    cases b <;> trivial
  | .str _, b, _, ab => by
    cases b <;> trivial
  | .arr as, b, distinct, ab => by
    cases b <;> simp only [same, Bool.false_eq_true] at ab
    exact distinctItems_of_same distinct ab
  | .obj as, b, distinct, ab => by
    cases b <;> simp only [same, Bool.false_eq_true, Bool.and_eq_true, beq_iff_eq] at ab
    next bs =>
    have found := sameEntries_iff.mp ab.2
    have keys := Assoc.keys_perm distinct.1 ab.1 fun entry member => by
      obtain ⟨other, lookup, -⟩ := found entry member
      exact ⟨other, lookup⟩
    have nodup := keys.nodup_iff.mp distinct.1
    refine ⟨nodup, distinctEntries_of_each fun other member => ?_⟩
    obtain ⟨entry, inside, name⟩ := List.mem_map.mp (keys.mem_iff.mpr (List.mem_map_of_mem member))
    obtain ⟨value, lookup, step⟩ := found entry inside
    rw [name, Assoc.lookup_of_mem nodup member] at lookup
    obtain rfl := Option.some.inj lookup
    exact distinctEntry_of_same distinct.2 entry inside _ step
theorem distinctItems_of_same : ∀ {as bs : List Json}, DistinctItems as → sameItems as bs = true → DistinctItems bs
  | [], [], _, _ => trivial
  | [], _ :: _, _, ab => by simp [sameItems] at ab
  | _ :: _, [], _, ab => by simp [sameItems] at ab
  | a :: as, b :: bs, distinct, ab => by
    simp only [sameItems, Bool.and_eq_true] at ab
    exact ⟨distinct_of_same distinct.1 ab.1, distinctItems_of_same distinct.2 ab.2⟩
theorem distinctEntry_of_same : ∀ {as : List (Text × Json)}, DistinctEntries as → ∀ entry ∈ as, ∀ other : Json,
    same entry.2 other = true → other.Distinct
  | [], _ => nofun
  | (_, _) :: _, distinct => List.forall_mem_cons.mpr
      ⟨fun _ step => distinct_of_same distinct.1 step, distinctEntry_of_same distinct.2⟩
end

end Json

namespace Data

theorem same_field {fields fields' : List (Text × Data)} (key : Text) {value : Data}
    (same : (Data.record fields).toValue.same (Data.record fields').toValue = true)
    (found : fields.lookup key = some value) :
    ∃ value', fields'.lookup key = some value' ∧ value.toValue.same value'.toValue = true := by
  simp only [toValue, Json.same, Bool.and_eq_true] at same
  have member : (key, value.toValue) ∈ toEntries fields := by
    rw [toEntries_eq_map]
    exact List.mem_map.mpr ⟨_, Assoc.mem_of_lookup found, rfl⟩
  obtain ⟨other, there, step⟩ := Json.sameEntries_iff.mp same.2 _ member
  rw [lookup_toEntries, Option.map_eq_some_iff] at there
  obtain ⟨value', lookup, rfl⟩ := there
  exact ⟨value', lookup, step⟩

theorem same_record {fields fields' : List (Text × Data)} (length : fields.length = fields'.length)
    (counterpart : ∀ key value, (key, value) ∈ fields →
      ∃ value', fields'.lookup key = some value' ∧ value.toValue.same value'.toValue = true) :
    (Data.record fields).toValue.same (Data.record fields').toValue = true := by
  simp only [toValue, Json.same, Bool.and_eq_true, beq_iff_eq]
  refine ⟨by simpa [toEntries_eq_map] using length, Json.sameEntries_iff.mpr ?_⟩
  rintro ⟨key, json⟩ member
  rw [toEntries_eq_map] at member
  obtain ⟨⟨name, value⟩, inside, same⟩ := List.mem_map.mp member
  obtain ⟨rfl, rfl⟩ := Prod.mk.inj same
  obtain ⟨value', lookup, step⟩ := counterpart name value inside
  exact ⟨value'.toValue, by rw [lookup_toEntries, lookup]; rfl, step⟩

theorem toEntries_textMap (entries : List (Text × Text)) :
    (textMap entries).toValue = .obj (entries.map fun entry => (entry.1, .str entry.2)) := by
  rw [textMap, toValue, toEntries_eq_map, List.map_map]
  rfl

theorem perm_of_same_textMap {entries entries' : List (Text × Text)}
    (distinct : (entries.map Prod.fst).Nodup)
    (same : (textMap entries).toValue.same (textMap entries').toValue = true) : entries.Perm entries' := by
  rw [toEntries_textMap, toEntries_textMap] at same
  simp only [Json.same, Bool.and_eq_true, beq_iff_eq, List.length_map] at same
  obtain ⟨length, each⟩ := same
  have subset : entries ⊆ entries' := by
    rintro ⟨key, value⟩ member
    obtain ⟨other, found, step⟩ := Json.sameEntries_iff.mp each _ (List.mem_map_of_mem member)
    rw [Assoc.lookup_map Json.str, Option.map_eq_some_iff] at found
    obtain ⟨value', lookup, rfl⟩ := found
    obtain rfl := Json.same_str.mp step
    exact Assoc.mem_of_lookup lookup
  have nodup : entries.Nodup := List.Nodup.of_map _ distinct
  exact (nodup.subperm subset).perm_of_length_le (by omega)

theorem same_textMap_of_perm {entries entries' : List (Text × Text)}
    (distinct : (entries'.map Prod.fst).Nodup) (perm : entries.Perm entries') :
    (textMap entries).toValue.same (textMap entries').toValue = true := by
  rw [toEntries_textMap, toEntries_textMap]
  simp only [Json.same, Bool.and_eq_true, beq_iff_eq, List.length_map]
  refine ⟨perm.length_eq, Json.sameEntries_iff.mpr ?_⟩
  rintro ⟨key, json⟩ member
  obtain ⟨⟨name, value⟩, inside, same⟩ := List.mem_map.mp member
  obtain ⟨rfl, rfl⟩ := Prod.mk.inj same
  refine ⟨.str value, ?_, Json.same_str.mpr rfl⟩
  rw [Assoc.lookup_map Json.str, Assoc.lookup_of_mem distinct (perm.mem_iff.mp inside)]
  rfl

end Data

end MqBridge
