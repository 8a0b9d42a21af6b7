import Mathlib.Data.List.Forall2

/-!
# Blanking

A redaction that overwrites one slot of a value and leaves a value without a slot as it is. When
an overwritten value still has its slot, the redaction identifies exactly the values that agree
outside the slot. A text redacted piece by piece identifies what its pieces do.
-/

namespace MqBridge.Blanking

variable {α κ : Type*}

/-- `x` with its slot overwritten: `slot` gives what surrounds the slot and `fill` the redacted
value with these surroundings. -/
def blank (slot : α → Option κ) (fill : κ → α) (x : α) : α := (slot x).elim x fill

/-- Equal, or two values with a slot in the same surroundings. -/
inductive Alike (slot : α → Option κ) : α → α → Prop where
  | same (x : α) : Alike slot x x
  | slot {x y : α} {around : κ} (left : slot x = some around) (right : slot y = some around) :
      Alike slot x y

theorem blank_eq_iff {slot : α → Option κ} {fill : κ → α} {x y : α}
    (refill : ∀ {x around}, slot x = some around → slot (fill around) = some around) :
    blank slot fill x = blank slot fill y ↔ Alike slot x y := by
  constructor
  · intro h
    cases hx : slot x with
    | none =>
      cases hy : slot y with
      | none =>
        simp only [blank, hx, hy, Option.elim_none] at h
        exact h ▸ .same x
      | some around =>
        simp only [blank, hx, hy, Option.elim_none, Option.elim_some] at h
        rw [h, refill hy] at hx
        cases hx
    | some around =>
      cases hy : slot y with
      | none =>
        simp only [blank, hx, hy, Option.elim_none, Option.elim_some] at h
        rw [← h, refill hx] at hy
        cases hy
      | some around' =>
        simp only [blank, hx, hy, Option.elim_some] at h
        have both := (refill hx).symm.trans ((congrArg slot h).trans (refill hy))
        exact .slot hx (Option.some.inj both ▸ hy)
  · rintro (_ | ⟨left, right⟩)
    · rfl
    · simp [blank, left, right]

theorem map_eq_map_iff_forall₂ {β γ : Type*} {f : α → γ} {g : β → γ} {l : List α} {l' : List β} :
    l.map f = l'.map g ↔ List.Forall₂ (fun a b => f a = g b) l l' := by
  rw [← List.forall₂_eq_eq_eq, List.forall₂_map_left_iff, List.forall₂_map_right_iff]

variable [DecidableEq α] {sep : α}

theorem mem_of_mem_splitOn {t piece : List α} (member : piece ∈ t.splitOn sep) :
    ∀ c ∈ piece, c ∈ t ∧ c ≠ sep := by
  induction t generalizing piece with
  | nil => simp_all [List.splitOn_nil]
  | cons x rest ih =>
    rw [List.splitOn_cons_eq_if_modifyHead] at member
    split at member
    · rcases List.mem_cons.mp member with rfl | inside
      · simp
      · exact fun c hc => ⟨List.mem_cons_of_mem _ (ih inside c hc).1, (ih inside c hc).2⟩
    · next other =>
      have other : x ≠ sep := by simpa using other
      cases h : rest.splitOn sep with
      | nil => simp [h] at member
      | cons first others =>
        simp only [h, List.modifyHead_cons, List.mem_cons] at member
        rcases member with rfl | inside
        · intro c hc
          rcases List.mem_cons.mp hc with rfl | hc
          · exact ⟨List.mem_cons_self, other⟩
          · have := ih (h ▸ List.mem_cons_self) c hc
            exact ⟨List.mem_cons_of_mem _ this.1, this.2⟩
        · intro c hc
          have := ih (h ▸ List.mem_cons_of_mem _ inside) c hc
          exact ⟨List.mem_cons_of_mem _ this.1, this.2⟩

theorem length_le_of_mem_splitOn {t piece : List α} (member : piece ∈ t.splitOn sep) : piece.length ≤ t.length := by
  induction t generalizing piece with
  | nil => simp_all [List.splitOn_nil]
  | cons x rest ih =>
    rw [List.splitOn_cons_eq_if_modifyHead] at member
    split at member
    · rcases List.mem_cons.mp member with rfl | inside
      · exact Nat.zero_le _
      · exact Nat.le_succ_of_le (ih inside)
    · cases h : rest.splitOn sep with
      | nil => simp [h] at member
      | cons first others =>
        simp only [h, List.modifyHead_cons, List.mem_cons] at member
        rcases member with rfl | inside
        · exact Nat.succ_le_succ (ih (h ▸ List.mem_cons_self))
        · exact Nat.le_succ_of_le (ih (h ▸ List.mem_cons_of_mem _ inside))

theorem splitOn_append_of_notMem {front back first : List α} {later : List (List α)} (absent : sep ∉ front)
    (split : back.splitOn sep = first :: later) : (front ++ back).splitOn sep = (front ++ first) :: later := by
  induction front with
  | nil => exact split
  | cons c rest ih =>
    simp only [List.mem_cons, not_or] at absent
    have other : (c == sep) = false := by simpa using Ne.symm absent.1
    rw [List.cons_append, List.splitOn_cons_eq_if_modifyHead, other, ih absent.2]
    rfl

/-- The last piece of a text and the first piece of the text that follows become one. -/
theorem splitOn_append {front back last first : List α} {earlier later : List (List α)}
    (split : front.splitOn sep = earlier ++ [last]) (split' : back.splitOn sep = first :: later) :
    (front ++ back).splitOn sep = earlier ++ (last ++ first) :: later := by
  induction front generalizing earlier last with
  | nil =>
    rw [List.splitOn_nil] at split
    obtain ⟨rfl, rfl⟩ : earlier = [] ∧ last = [] := by
      cases earlier with
      | nil => simpa using split.symm
      | cons _ _ => simp at split
    exact split'
  | cons c rest ih =>
    rw [List.cons_append, List.splitOn_cons_eq_if_modifyHead]
    rw [List.splitOn_cons_eq_if_modifyHead] at split
    split at split
    · next same =>
      cases earlier with
      | nil => simp [List.splitOn_ne_nil] at split
      | cons piece earlier =>
        rw [List.cons_append, List.cons.injEq] at split
        obtain ⟨rfl, tail⟩ := split
        rw [if_pos same, ih tail]
        rfl
    · next other =>
      rw [if_neg other]
      obtain ⟨before, piece, pieces⟩ := (List.eq_nil_or_concat (rest.splitOn sep)).resolve_left (List.splitOn_ne_nil _ _)
      rw [List.concat_eq_append] at pieces
      rw [ih pieces]
      rw [pieces] at split
      cases before with
      | nil =>
        have front : [] ++ [c :: piece] = earlier ++ [last] := split
        obtain ⟨rfl, same⟩ := List.append_inj' front rfl
        rw [← (List.cons.inj same).1]
        rfl
      | cons head before =>
        have front : ((c :: head) :: before) ++ [piece] = earlier ++ [last] := split
        obtain ⟨rfl, same⟩ := List.append_inj' front rfl
        rw [← (List.cons.inj same).1]
        rfl

omit [DecidableEq α] in
theorem mem_intercalate_singleton {ls : List (List α)} {c : α} (member : c ∈ [sep].intercalate ls) :
    c = sep ∨ ∃ l ∈ ls, c ∈ l := by
  induction ls with
  | nil => simp at member
  | cons l rest ih =>
    by_cases empty : rest = []
    · subst empty
      exact Or.inr ⟨l, by simpa using member⟩
    · rw [List.intercalate_cons_of_ne_nil empty, List.mem_append, List.mem_append] at member
      rcases member with (inside | here) | later
      · exact Or.inr ⟨l, List.mem_cons_self, inside⟩
      · exact Or.inl (List.mem_singleton.mp here)
      · exact (ih later).imp_right fun ⟨l', member, inside⟩ => ⟨l', List.mem_cons_of_mem _ member, inside⟩

/-- A text rebuilt from redacted pieces tells apart exactly what the pieces tell apart, when no
redacted piece holds the separator. -/
theorem intercalate_map_eq_iff {f g : List α → List α} {t t' : List α}
    (cleanF : ∀ piece, sep ∉ piece → sep ∉ f piece) (cleanG : ∀ piece, sep ∉ piece → sep ∉ g piece) :
    [sep].intercalate ((t.splitOn sep).map f) = [sep].intercalate ((t'.splitOn sep).map g) ↔
      List.Forall₂ (fun a b => f a = g b) (t.splitOn sep) (t'.splitOn sep) := by
  have resplit : ∀ (f : List α → List α), (∀ piece, sep ∉ piece → sep ∉ f piece) → ∀ t : List α,
      ([sep].intercalate ((t.splitOn sep).map f)).splitOn sep = (t.splitOn sep).map f := by
    intro f clean t
    refine List.splitOn_intercalate sep ?_ (by simp [List.splitOn_ne_nil])
    intro piece member
    obtain ⟨raw, inside, rfl⟩ := List.mem_map.mp member
    exact clean raw fun h => (mem_of_mem_splitOn inside sep h).2 rfl
  rw [← map_eq_map_iff_forall₂]
  exact ⟨fun h => by rw [← resplit f cleanF t, h, resplit g cleanG], fun h => by rw [h]⟩

end MqBridge.Blanking
