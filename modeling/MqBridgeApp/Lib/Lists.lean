import Mathlib.Data.List.Destutter
import Mathlib.Data.List.Forall2

/-!
# Lists

Lists whose elements are related one by one, lists of one element at most, and lists that a filter keeps.
-/

namespace MqBridge.Lists

section
variable {α β γ : Type*} {r : α → β → Prop} {as : List α} {bs : List β}

theorem exists_of_forall₂ (all : List.Forall₂ r as bs) {a : α} (member : a ∈ as) : ∃ b ∈ bs, r a b := by
  induction all with
  | nil => cases member
  | cons head _ ih =>
    rcases List.mem_cons.mp member with rfl | later
    · exact ⟨_, List.mem_cons_self, head⟩
    · obtain ⟨b, inside, related⟩ := ih later
      exact ⟨b, List.mem_cons_of_mem _ inside, related⟩

theorem forall₂_append_iff {as' : List α} {bs' : List β} (same : as.length = bs.length) :
    List.Forall₂ r (as ++ as') (bs ++ bs') ↔ List.Forall₂ r as bs ∧ List.Forall₂ r as' bs' := by
  constructor
  · intro all
    constructor
    · simpa [← same] using List.forall₂_take bs.length all
    · simpa [← same] using List.forall₂_drop bs.length all
  · rintro ⟨first, last⟩
    exact List.rel_append first last

theorem forall₂_and_iff {r' : α → β → Prop} :
    List.Forall₂ (fun a b => r a b ∧ r' a b) as bs ↔ List.Forall₂ r as bs ∧ List.Forall₂ r' as bs := by
  constructor
  · intro all
    exact ⟨all.imp fun _ _ both => both.1, all.imp fun _ _ both => both.2⟩
  · rintro ⟨all, all'⟩
    induction all with
    | nil => exact .nil
    | cons head _ ih =>
      obtain ⟨head', rest'⟩ := List.forall₂_cons.mp all'
      exact .cons ⟨head, head'⟩ (ih rest')

theorem mapM_eq_some_iff {read : α → Option β} : as.mapM read = some bs ↔ List.Forall₂ (fun a b => read a = some b) as bs := by
  induction as generalizing bs with
  | nil =>
    rw [List.mapM_nil, List.forall₂_nil_left_iff]
    exact ⟨fun same => (Option.some.inj same).symm, fun same => congrArg some same.symm⟩
  | cons a as ih =>
    rw [List.mapM_cons, List.forall₂_cons_left_iff]
    constructor
    · intro all
      obtain ⟨b, head, more⟩ := Option.bind_eq_some_iff.mp all
      obtain ⟨rest, tail, last⟩ := Option.bind_eq_some_iff.mp more
      exact ⟨b, rest, head, ih.mp tail, (Option.some.inj last).symm⟩
    · rintro ⟨b, rest, head, tail, rfl⟩
      rw [head, ih.mpr tail]
      rfl

theorem map_of_forall₂ {f : α → γ} {g : β → γ} (same : ∀ a b, r a b → f a = g b) (all : List.Forall₂ r as bs) :
    as.map f = bs.map g := by
  induction all with
  | nil => rfl
  | cons head _ ih => rw [List.map_cons, List.map_cons, same _ _ head, ih]

theorem forall_mem_iff_of_forall₂ {p : α → Prop} {q : β → Prop} (both : ∀ a b, r a b → (q b ↔ p a))
    (all : List.Forall₂ r as bs) : (∀ b ∈ bs, q b) ↔ ∀ a ∈ as, p a := by
  induction all with
  | nil => simp
  | cons head _ ih => simp [both _ _ head, ih]

theorem forall₂_iff_forall {r' : α → β → Prop} {p : α → Prop} (all : List.Forall₂ r as bs)
    (each : ∀ a ∈ as, ∀ b, r a b → (r' a b ↔ p a)) : List.Forall₂ r' as bs ↔ ∀ a ∈ as, p a := by
  induction all with
  | nil => exact iff_of_true .nil nofun
  | cons head _ ih =>
    rw [List.forall₂_cons, List.forall_mem_cons, each _ List.mem_cons_self _ head,
      ih fun a member => each a (List.mem_cons_of_mem _ member)]

end

theorem exists_forall_ge {α : Type*} {as : List α} {holds : α → Nat → Prop}
    (each : ∀ a ∈ as, ∃ enough, ∀ n ≥ enough, holds a n) : ∃ enough, ∀ n ≥ enough, ∀ a ∈ as, holds a n := by
  induction as with
  | nil => exact ⟨0, fun _ _ => nofun⟩
  | cons a as ih =>
    obtain ⟨first, head⟩ := each a List.mem_cons_self
    obtain ⟨last, tail⟩ := ih fun b member => each b (List.mem_cons_of_mem _ member)
    refine ⟨max first last, fun n large => List.forall_mem_cons.mpr ⟨head n ?_, tail n ?_⟩⟩
    · exact le_trans (le_max_left _ _) large
    · exact le_trans (le_max_right _ _) large

section
variable {α : Type*} {as bs : List α}

theorem forall₂_set_iff (all : List.Forall₂ r as bs) (i : Nat) (a : α) :
    List.Forall₂ r (as.set i a) bs ↔ ∀ b ∈ bs[i]?, r a b := by
  induction all generalizing i with
  | nil => simp
  | cons head tail ih =>
    cases i with
    | zero => simp [tail]
    | succ i => simp [head, ih i]

theorem head_eq_getLast (few : as.length ≤ 1) : as.head? = as.getLast? := by
  match as, few with
  | [], _ => rfl
  | [_], _ => rfl

theorem nodup_of_length_le_one (few : as.length ≤ 1) : as.Nodup := by
  match as, few with
  | [], _ => exact List.nodup_nil
  | [a], _ => exact List.pairwise_singleton _ a

theorem eq_of_perm (perm : as.Perm bs) (few : as.length ≤ 1) : as = bs := by
  match as, few with
  | [], _ => exact perm.nil_eq
  | [_], _ => exact perm.singleton_eq

/-- A list of different elements that reads the same backwards has one element at most. -/
theorem length_le_one_of_reverse (distinct : as.Nodup) (same : as = as.reverse) : as.length ≤ 1 := by
  cases as with
  | nil => exact Nat.zero_le 1
  | cons first rest =>
    rcases List.eq_nil_or_concat rest with rfl | ⟨middle, last, rfl⟩
    · exact Nat.le_refl 1
    · exfalso
      have heads := congrArg List.head? same
      simp only [List.head?_cons, List.reverse_cons, List.concat_eq_append, List.reverse_append, List.reverse_nil,
        List.nil_append, List.cons_append, Option.some.injEq] at heads
      subst heads
      simp at distinct

end

theorem map_eq_self_iff {α : Type*} {f : α → α} {as : List α} : as.map f = as ↔ ∀ a ∈ as, f a = a := by
  have fixed : as.map f = as.map id ↔ ∀ a ∈ as, f a = id a := List.map_inj_left
  rwa [List.map_id] at fixed

theorem mapIdx_eq_self_iff {α : Type*} {f : Nat → α → α} {as : List α} :
    as.mapIdx f = as ↔ ∀ i a, as[i]? = some a → f i a = a := by
  rw [List.ext_getElem?_iff]
  apply forall_congr'
  intro i
  rw [List.getElem?_mapIdx]
  cases as[i]? <;> simp

theorem getLast?_set {α : Type*} (items : List α) {index : Nat} (item : α) (inside : index < items.length) :
    (items.set index item).getLast? = if index + 1 = items.length then some item else items.getLast? := by
  rw [List.getLast?_eq_getElem?, List.getLast?_eq_getElem?, List.length_set, List.getElem?_set]
  split
  · next same => simp [show index + 1 = items.length by omega]
  · next apart => rw [if_neg (by omega)]

section
variable {α β : Type*}

theorem filter_map_fixed {p : α → Bool} {f : α → α} (same : ∀ a, p (f a) = p a) (fixed : ∀ a, p a = true → f a = a)
    (as : List α) : (as.map f).filter p = as.filter p := by
  induction as with
  | nil => rfl
  | cons a rest ih =>
    rw [List.map_cons, List.filter_cons, List.filter_cons, same, ih]
    split
    · next passes => rw [fixed a passes]
    · rfl

variable {f g : α → Option β} {as : List α}

theorem length_filterMap_le (drops : ∀ a ∈ as, g a = f a ∨ g a = none) :
    (as.filterMap g).length ≤ (as.filterMap f).length := by
  induction as with
  | nil => exact Nat.le_refl 0
  | cons a rest ih =>
    obtain ⟨here, later⟩ := List.forall_mem_cons.mp drops
    have shorter := ih later
    rw [List.filterMap_cons, List.filterMap_cons]
    rcases here with same | lost
    · rw [same]
      cases f a with
      | none => exact shorter
      | some b => exact Nat.succ_le_succ shorter
    · rw [lost]
      cases f a with
      | none => exact shorter
      | some b => exact Nat.le_succ_of_le shorter

/-- A map that only loses elements loses none when it keeps the whole list. -/
theorem filterMap_eq_iff (drops : ∀ a ∈ as, g a = f a ∨ g a = none) :
    as.filterMap g = as.filterMap f ↔ ∀ a ∈ as, g a = f a := by
  refine ⟨fun same => ?_, List.filterMap_congr⟩
  induction as with
  | nil => nofun
  | cons a rest ih =>
    obtain ⟨here, later⟩ := List.forall_mem_cons.mp drops
    have shorter := length_filterMap_le later
    rw [List.filterMap_cons, List.filterMap_cons] at same
    have first : g a = f a := by
      rcases here with equal | lost
      · exact equal
      · rw [lost] at same ⊢
        cases kept : f a with
        | none => rfl
        | some b =>
          rw [kept] at same
          have lengths := congrArg List.length same
          simp only [List.length_cons] at lengths
          omega
    refine List.forall_mem_cons.mpr ⟨first, ih later ?_⟩
    rw [first] at same
    cases kept : f a with
    | none => simpa only [kept] using same
    | some b => simpa only [kept, List.cons.injEq, true_and] using same

end

theorem destutter_mergeSort {α : Type*} [DecidableEq α] (le : α → α → Bool)
    (trans : ∀ a b c, le a b = true → le b c = true → le a c = true) (total : ∀ a b, (le a b || le b a) = true)
    (antisymm : ∀ a b, le a b = true → le b a = true → a = b) (as : List α) :
    ((as.mergeSort le).destutter (· ≠ ·)).Nodup ∧
      ((as.mergeSort le).destutter (· ≠ ·)).Pairwise (fun a b => le a b = true) ∧
      ∀ a, a ∈ (as.mergeSort le).destutter (· ≠ ·) ↔ a ∈ as := by
  have : Std.Antisymm fun a b => le a b = true := ⟨antisymm⟩
  have sorted := List.pairwise_mergeSort trans total as
  have once : (as.mergeSort le).destutter (· ≠ ·) = (as.mergeSort le).dedup := sorted.destutter_eq_dedup
  rw [once]
  refine ⟨List.nodup_dedup _, sorted.sublist (List.dedup_sublist _), fun a => ?_⟩
  rw [List.mem_dedup, List.mem_mergeSort]

end MqBridge.Lists
