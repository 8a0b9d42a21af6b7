import Mathlib.Data.List.Nodup
import Mathlib.Data.List.Perm.Subperm
import Mathlib.Tactic.Common

/-!
# Maps as lists of entries

Inserting into a map replaces the entry under the same key. After a run of insertions a key holds
what was inserted under it last.
-/

namespace MqBridge.Assoc

variable {α β : Type*} [BEq α]

def insert (entries : List (α × β)) (entry : α × β) : List (α × β) :=
  entries.filter (fun other => other.1 != entry.1) ++ [entry]

def erase (entries : List (α × β)) (key : α) : List (α × β) := entries.filter fun entry => entry.1 != key

def insertAll (entries writes : List (α × β)) : List (α × β) := writes.foldl insert entries

theorem lookup_append (as bs : List (α × β)) (key : α) :
    (as ++ bs).lookup key = (as.lookup key).or (bs.lookup key) := by
  induction as with
  | nil => rfl
  | cons entry rest ih =>
    rw [List.cons_append, List.lookup_cons, List.lookup_cons]
    split
    · rfl
    · exact ih

theorem mem_insertAll {entries writes : List (α × β)} {entry : α × β}
    (member : entry ∈ insertAll entries writes) : entry ∈ entries ∨ entry ∈ writes := by
  induction writes generalizing entries with
  | nil => exact Or.inl member
  | cons first rest ih =>
    rcases ih member with inside | later
    · rcases List.mem_append.mp inside with old | new
      · exact Or.inl (List.mem_filter.mp old).1
      · exact Or.inr (by simp [List.mem_singleton.mp new])
    · exact Or.inr (List.mem_cons_of_mem _ later)

theorem lookup_singleton (entry : α × β) (key : α) :
    [entry].lookup key = if key == entry.1 then some entry.2 else none := by
  obtain ⟨name, value⟩ := entry
  rw [List.lookup_cons, List.lookup_nil]
  cases key == name <;> rfl

theorem lookup_map {γ : Type*} (f : β → γ) (entries : List (α × β)) (key : α) :
    (entries.map fun entry => (entry.1, f entry.2)).lookup key = (entries.lookup key).map f := by
  induction entries with
  | nil => rfl
  | cons entry rest ih =>
    rw [List.map_cons, List.lookup_cons, List.lookup_cons, ih]
    cases key == entry.1 <;> rfl

theorem lookup_pairs {γ : Type*} [LawfulBEq α] (key : γ → α) (value : γ → β) (as : List γ) (name : α) :
    (as.map fun a => (key a, value a)).lookup name = (as.find? fun a => key a == name).map value := by
  induction as with
  | nil => rfl
  | cons a as ih =>
    rw [List.map_cons, List.lookup_cons, List.find?_cons, BEq.comm, ih]
    cases key a == name <;> rfl

variable [LawfulBEq α]

theorem lookup_mapWithKey {γ : Type*} (f : α → β → γ) (entries : List (α × β)) (key : α) :
    (entries.map fun entry => (entry.1, f entry.1 entry.2)).lookup key = (entries.lookup key).map (f key) := by
  induction entries with
  | nil => rfl
  | cons entry rest ih =>
    rw [List.map_cons, List.lookup_cons, List.lookup_cons, ih]
    cases same : key == entry.1 with
    | false => rfl
    | true =>
      obtain rfl := eq_of_beq same
      rfl

theorem lookup_eq_none {entries : List (α × β)} {key : α} :
    entries.lookup key = none ↔ ∀ value, (key, value) ∉ entries := by
  induction entries with
  | nil => simp
  | cons entry rest ih =>
    obtain ⟨name, value⟩ := entry
    rw [List.lookup_cons]
    by_cases same : key = name
    · subst same
      simp only [beq_self_eq_true, reduceCtorEq, false_iff, not_forall, not_not]
      exact ⟨value, List.mem_cons_self⟩
    · simp [beq_eq_false_iff_ne.mpr same, ih, same]

theorem mem_of_lookup {entries : List (α × β)} {key : α} {value : β}
    (found : entries.lookup key = some value) : (key, value) ∈ entries := by
  induction entries with
  | nil => simp at found
  | cons entry rest ih =>
    obtain ⟨name, first⟩ := entry
    rw [List.lookup_cons] at found
    split at found
    · next h =>
      rw [eq_of_beq h, Option.some.inj found]
      exact List.mem_cons_self
    · exact List.mem_cons_of_mem _ (ih found)

theorem lookup_of_mem {entries : List (α × β)} {key : α} {value : β}
    (distinct : (entries.map Prod.fst).Nodup) (member : (key, value) ∈ entries) :
    entries.lookup key = some value := by
  induction entries with
  | nil => simp at member
  | cons entry rest ih =>
    obtain ⟨name, first⟩ := entry
    rw [List.map_cons, List.nodup_cons] at distinct
    rw [List.lookup_cons]
    rcases List.mem_cons.mp member with same | later
    · cases same
      simp
    · have other : key ≠ name := by
        rintro rfl
        exact distinct.1 (List.mem_map.mpr ⟨_, later, rfl⟩)
      rw [beq_eq_false_iff_ne.mpr other]
      exact ih distinct.2 later

theorem lookup_perm {entries entries' : List (α × β)} (distinct : (entries.map Prod.fst).Nodup)
    (perm : entries.Perm entries') (key : α) : entries.lookup key = entries'.lookup key := by
  have distinct' := (perm.map Prod.fst).nodup_iff.mp distinct
  ext value
  constructor
  · exact fun found => lookup_of_mem distinct' (perm.mem_iff.mp (mem_of_lookup found))
  · exact fun found => lookup_of_mem distinct (perm.mem_iff.mpr (mem_of_lookup found))

theorem lookup_reverse {entries : List (α × β)} (distinct : (entries.map Prod.fst).Nodup) (key : α) :
    entries.reverse.lookup key = entries.lookup key :=
  (lookup_perm distinct (List.reverse_perm entries).symm key).symm

theorem mem_keys {entries : List (α × β)} {key : α} :
    key ∈ entries.map Prod.fst ↔ ∃ value, entries.lookup key = some value := by
  constructor
  · intro member
    obtain ⟨⟨_, value⟩, inside, rfl⟩ := List.mem_map.mp member
    cases found : entries.lookup _ with
    | none => exact absurd inside (lookup_eq_none.mp found value)
    | some other => exact ⟨other, rfl⟩
  · rintro ⟨value, found⟩
    exact List.mem_map.mpr ⟨_, mem_of_lookup found, rfl⟩

theorem filter_key {entries : List (α × β)} (distinct : (entries.map Prod.fst).Nodup) (key : α) :
    (entries.filter fun entry => entry.1 == key) = ((entries.lookup key).map fun value => (key, value)).toList := by
  induction entries with
  | nil => rfl
  | cons entry rest ih =>
    obtain ⟨name, value⟩ := entry
    obtain ⟨absent, later⟩ := List.nodup_cons.mp distinct
    rw [List.filter_cons, List.lookup_cons]
    by_cases same : name = key
    · subst same
      have gone : rest.lookup name = none := by
        rw [lookup_eq_none]
        exact fun value member => absent (List.mem_map.mpr ⟨_, member, rfl⟩)
      rw [if_pos (beq_self_eq_true name), ih later, gone, beq_self_eq_true]
      rfl
    · rw [if_neg (by simpa using same), ih later, beq_false_of_ne (Ne.symm same)]

theorem keys_perm {γ : Type*} {as : List (α × β)} {bs : List (α × γ)} (distinct : (as.map Prod.fst).Nodup)
    (length : as.length = bs.length) (found : ∀ entry ∈ as, ∃ other, bs.lookup entry.1 = some other) :
    (as.map Prod.fst).Perm (bs.map Prod.fst) := by
  have subset : as.map Prod.fst ⊆ bs.map Prod.fst := by
    intro key member
    obtain ⟨entry, inside, rfl⟩ := List.mem_map.mp member
    exact mem_keys.mpr (found entry inside)
  exact (distinct.subperm subset).perm_of_length_le (by simp [length])

theorem lookup_filter (entries : List (α × β)) (kept : α → Bool) (key : α) :
    (entries.filter fun entry => kept entry.1).lookup key = if kept key then entries.lookup key else none := by
  induction entries with
  | nil => exact (ite_self _).symm
  | cons entry rest ih =>
    obtain ⟨name, value⟩ := entry
    rw [List.filter_cons, List.lookup_cons]
    by_cases same : key = name
    · subst same
      cases keep : kept key with
      | true => simp
      | false =>
        rw [keep] at ih
        simpa using ih
    · have other : (key == name) = false := beq_eq_false_iff_ne.mpr same
      rw [other]
      split
      · rw [List.lookup_cons, other]
        exact ih
      · exact ih

theorem lookup_erase (entries : List (α × β)) (erased key : α) :
    (erase entries erased).lookup key = if key == erased then none else entries.lookup key := by
  rw [erase, lookup_filter entries (fun name => name != erased)]
  unfold bne
  cases key == erased <;> rfl

theorem lookup_filter_ne {entries : List (α × β)} {key other : α} (different : key ≠ other) :
    (entries.filter fun entry => entry.1 != other).lookup key = entries.lookup key := by
  rw [lookup_filter entries (fun name => name != other), if_pos (bne_iff_ne.mpr different)]

theorem lookup_insert (entries : List (α × β)) (entry : α × β) (key : α) :
    (insert entries entry).lookup key = if key == entry.1 then some entry.2 else entries.lookup key := by
  rw [insert, lookup_append, lookup_singleton]
  by_cases same : key = entry.1
  · have gone : (entries.filter fun other => other.1 != entry.1).lookup key = none := by
      rw [lookup_eq_none]
      intro value member
      simp [same] at member
    rw [gone, Option.none_or, if_pos (beq_iff_eq.mpr same), if_pos (beq_iff_eq.mpr same)]
  · have other : ¬ (key == entry.1) = true := fun equal => same (eq_of_beq equal)
    rw [lookup_filter_ne same, if_neg other, if_neg other, Option.or_none]

theorem lookup_insert_self (entries : List (α × β)) (key : α) (value : β) :
    (insert entries (key, value)).lookup key = some value := by
  rw [lookup_insert, if_pos (beq_self_eq_true key)]

theorem lookup_insert_other {key other : α} (different : key ≠ other) (entries : List (α × β)) (value : β) :
    (insert entries (other, value)).lookup key = entries.lookup key := by
  rw [lookup_insert, if_neg fun same => different (eq_of_beq same)]

theorem lookup_insert_free {entries : List (α × β)} {key other : α} {value : β} (free : entries.lookup other = none)
    (found : entries.lookup key = some value) (new : β) : (insert entries (other, new)).lookup key = some value := by
  have different : key ≠ other := by
    rintro rfl
    rw [found] at free
    cases free
  rw [lookup_insert_other different, found]

theorem lookup_insertAll (entries writes : List (α × β)) (key : α) :
    (insertAll entries writes).lookup key = (writes.reverse.lookup key).or (entries.lookup key) := by
  induction writes generalizing entries with
  | nil => rfl
  | cons entry rest ih =>
    rw [insertAll, List.foldl_cons, ← insertAll, ih, lookup_insert, List.reverse_cons, lookup_append,
      lookup_singleton, Option.or_assoc]
    split <;> rfl

theorem lookup_insertAll_const (entries : List (α × β)) {keys : List α} {key : α} (value : β)
    (member : key ∈ keys) :
    (insertAll entries (keys.map fun other => (other, value))).lookup key = some value := by
  induction keys generalizing entries with
  | nil => cases member
  | cons first rest ih =>
    by_cases later : key ∈ rest
    · exact ih _ later
    · obtain rfl := (List.mem_cons.mp member).resolve_right later
      rw [List.map_cons, insertAll, List.foldl_cons, ← insertAll, lookup_insertAll, lookup_insert]
      have absent : ((rest.map fun other => (other, value)).reverse.lookup key) = none := by
        rw [lookup_eq_none]
        intro held found
        obtain ⟨other, known, same⟩ := List.mem_map.mp (List.mem_reverse.mp found)
        cases same
        exact later known
      rw [absent, Option.none_or, if_pos (beq_self_eq_true key)]

theorem insertAll_of_nodup {l entries : List (α × β)} (distinct : ((l ++ entries).map Prod.fst).Nodup) :
    insertAll l entries = l ++ entries := by
  induction entries generalizing l with
  | nil => rw [insertAll, List.foldl_nil, List.append_nil]
  | cons entry rest ih =>
    have new : insert l entry = l ++ [entry] := by
      rw [insert, List.filter_eq_self.mpr]
      intro other member
      rw [List.map_append, List.nodup_append] at distinct
      have different := distinct.2.2 _ (List.mem_map_of_mem member) _ List.mem_cons_self
      simpa using different
    have same : (l ++ [entry]) ++ rest = l ++ entry :: rest := by simp
    rw [insertAll, List.foldl_cons, new, ← same, ← ih (by rw [same]; exact distinct)]
    rfl

theorem nodup_insert {entries : List (α × β)} {entry : α × β} (distinct : (entries.map Prod.fst).Nodup) :
    ((insert entries entry).map Prod.fst).Nodup := by
  rw [insert, List.map_append, List.nodup_append]
  refine ⟨distinct.sublist (List.filter_sublist.map _), by simp, ?_⟩
  intro key member key' single
  obtain ⟨other, kept, rfl⟩ := List.mem_map.mp member
  obtain rfl : key' = entry.1 := by simpa using single
  simpa using (List.mem_filter.mp kept).2

theorem nodup_insertAll {entries writes : List (α × β)} (distinct : (entries.map Prod.fst).Nodup) :
    ((insertAll entries writes).map Prod.fst).Nodup := by
  induction writes generalizing entries with
  | nil => exact distinct
  | cons entry rest ih => exact ih (nodup_insert distinct)

theorem mem_keys_insertAll {writes : List (α × β)} {key : α} :
    key ∈ (insertAll [] writes).map Prod.fst ↔ key ∈ writes.map Prod.fst := by
  rw [mem_keys, lookup_insertAll]
  simp only [List.lookup_nil, Option.or_none]
  rw [← mem_keys, List.map_reverse, List.mem_reverse]

theorem insertAll_eq_nil {writes : List (α × β)} (empty : insertAll [] writes = []) : writes = [] := by
  rw [List.eq_nil_iff_forall_not_mem]
  intro entry member
  have key := mem_keys_insertAll.mpr (List.mem_map_of_mem (f := Prod.fst) member)
  rw [empty] at key
  cases key

theorem mem_insertAll_iff {writes : List (α × β)} {entry : α × β} :
    entry ∈ insertAll [] writes ↔ writes.reverse.lookup entry.1 = some entry.2 := by
  have found := lookup_insertAll [] writes entry.1
  rw [List.lookup_nil, Option.or_none] at found
  rw [← found]
  constructor
  · intro member
    exact lookup_of_mem (nodup_insertAll List.nodup_nil) member
  · intro held
    exact mem_of_lookup held

/-! ### The last element that is hit -/

/-- The place of the last element that is hit. -/
def lastIndex {α : Type*} (hit : α → Bool) : List α → Option Nat
  | [] => none
  | a :: rest =>
    match lastIndex hit rest with
    | some i => some (i + 1)
    | none => if hit a then some 0 else none

theorem lastIndex_append {α : Type*} (hit : α → Bool) (as bs : List α) :
    lastIndex hit (as ++ bs) = ((lastIndex hit bs).map (· + as.length)).or (lastIndex hit as) := by
  induction as with
  | nil => cases h : lastIndex hit bs <;> simp [h, lastIndex]
  | cons a as ih =>
    rw [List.cons_append, lastIndex, ih]
    cases lastIndex hit bs with
    | none =>
      simp only [Option.map_none, Option.none_or]
      rfl
    | some i =>
      rw [Option.map_some, Option.some_or, Option.map_some, Option.some_or]
      show some (i + as.length + 1) = some (i + (as.length + 1))
      rw [Nat.add_assoc]

theorem lastIndex_eq_none {α : Type*} {hit : α → Bool} {as : List α} :
    lastIndex hit as = none ↔ ∀ a ∈ as, hit a = false := by
  induction as with
  | nil => simp [lastIndex]
  | cons a as ih =>
    rw [List.forall_mem_cons, ← ih, lastIndex]
    cases lastIndex hit as with
    | none => cases hit a <;> simp
    | some i => simp

/-- The last place is one that is hit, and no later one is. -/
theorem lastIndex_eq_some {α : Type*} {hit : α → Bool} {as : List α} {i : Nat} (last : lastIndex hit as = some i) :
    (∃ a, as[i]? = some a ∧ hit a = true) ∧ ∀ k b, as[k]? = some b → hit b = true → k ≤ i := by
  induction as generalizing i with
  | nil => cases last
  | cons a as ih =>
    rw [lastIndex] at last
    cases later : lastIndex hit as with
    | some j =>
      rw [later] at last
      obtain rfl := Option.some.inj last
      obtain ⟨⟨b, here, isHit⟩, most⟩ := ih later
      refine ⟨⟨b, here, isHit⟩, fun k c there hitC => ?_⟩
      cases k with
      | zero => exact Nat.zero_le _
      | succ k => exact Nat.succ_le_succ (most k c there hitC)
    | none =>
      rw [later] at last
      dsimp only at last
      split at last
      · next isHit =>
        obtain rfl := Option.some.inj last
        refine ⟨⟨a, rfl, isHit⟩, fun k c there hitC => ?_⟩
        cases k with
        | zero => exact Nat.le_refl 0
        | succ k =>
          have missed := lastIndex_eq_none.mp later c (List.mem_of_getElem? there)
          rw [hitC] at missed
          cases missed
      · cases last

theorem lastIndex_congr {α β : Type*} {hit : α → Bool} {hit' : β → Bool} {as : List α} {bs : List β}
    (same : as.map hit = bs.map hit') : lastIndex hit as = lastIndex hit' bs := by
  induction as generalizing bs with
  | nil =>
    cases bs with
    | nil => rfl
    | cons b bs => cases same
  | cons a as ih =>
    cases bs with
    | nil => cases same
    | cons b bs =>
      obtain ⟨first, rest⟩ := List.cons.inj same
      rw [lastIndex, lastIndex, ih rest, first]

/-- A map collected from pairs holds the value of the last one. -/
theorem lookup_reverse_map {α β γ : Type*} [BEq β] [LawfulBEq β] (key : α → β) (value : α → γ) (as : List α) (name : β) :
    (as.map fun a => (key a, value a)).reverse.lookup name =
      (lastIndex (fun a => key a == name) as).bind fun i => as[i]?.map value := by
  induction as with
  | nil => rfl
  | cons a as ih =>
    rw [List.map_cons, List.reverse_cons, Assoc.lookup_append, Assoc.lookup_singleton, ih, lastIndex]
    cases found : lastIndex (fun a => key a == name) as with
    | some i =>
      obtain ⟨⟨b, here, -⟩, -⟩ := lastIndex_eq_some found
      rw [Option.bind_some, Option.bind_some, here, List.getElem?_cons_succ, here]
      rfl
    | none =>
      rw [Option.bind_none, Option.none_or]
      show (if name == key a then some (value a) else none) = _
      rw [BEq.comm]
      cases key a == name <;> rfl

end MqBridge.Assoc
