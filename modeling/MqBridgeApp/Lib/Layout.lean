import Mathlib.Algebra.BigOperators.Group.List.Basic
import Mathlib.Algebra.GroupWithZero.Nat
import Mathlib.Logic.Equiv.Defs

/-!
# Blocks of places

The items of a list take up blocks of consecutive places, one after the other. Another order of the
items gives the same blocks in other places: the places are only permuted.
-/

namespace MqBridge.Layout

variable {α : Type*} (size : α → Nat)

/-- The items with the first place of each one's block. -/
def layout : List α → Nat → List (α × Nat)
  | [], _ => []
  | item :: rest, start => (item, start) :: layout rest (start + size item)

def total (items : List α) : Nat := (items.map size).sum

/-- Exchanges two blocks that follow each other. -/
def swapBlocks (start a b : Nat) : Equiv.Perm Nat where
  toFun n := if n < start then n else if n < start + a then n + b else if n < start + a + b then n - a else n
  invFun n := if n < start then n else if n < start + b then n + a else if n < start + b + a then n - b else n
  left_inv n := by
    dsimp only
    split_ifs <;> omega
  right_inv n := by
    dsimp only
    split_ifs <;> omega

theorem swapBlocks_apply (start a b n : Nat) : swapBlocks start a b n =
    if n < start then n else if n < start + a then n + b else if n < start + a + b then n - a else n := rfl

variable {size}

theorem le_of_mem_layout {items : List α} {start : Nat} {entry : α × Nat} (member : entry ∈ layout size items start) :
    start ≤ entry.2 := by
  induction items generalizing start with
  | nil => cases member
  | cons item rest ih =>
    rcases List.mem_cons.mp member with rfl | later
    · exact Nat.le_refl start
    · exact Nat.le_trans (Nat.le_add_right _ _) (ih later)

theorem mem_of_mem_layout {items : List α} {start : Nat} {entry : α × Nat} (member : entry ∈ layout size items start) :
    entry.1 ∈ items := by
  induction items generalizing start with
  | nil => cases member
  | cons item rest ih =>
    rcases List.mem_cons.mp member with rfl | later
    · exact List.mem_cons_self
    · exact List.mem_cons_of_mem _ (ih later)

/-- A permutation of the places that takes each block of one order to its item's block in another, and
moves no place outside them. -/
structure Moves (size : α → Nat) (items others : List α) (start : Nat) (place : Equiv.Perm Nat) : Prop where
  before : ∀ n, n < start → place n = n
  after : ∀ n, start + total size items ≤ n → place n = n
  blocks : ∀ entry ∈ layout size items start, ∀ i < size entry.1, place (entry.2 + i) = place entry.2 + i
  moved : ((layout size items start).map fun entry => (entry.1, place entry.2)).Perm (layout size others start)

theorem total_cons (item : α) (rest : List α) : total size (item :: rest) = size item + total size rest :=
  List.sum_cons

theorem total_perm {items others : List α} (perm : items.Perm others) : total size items = total size others :=
  (perm.map size).sum_eq

theorem map_layout_of_fixed {items : List α} {start : Nat} {place : Equiv.Perm Nat}
    (fixed : ∀ n, start ≤ n → place n = n) :
    ((layout size items start).map fun entry => (entry.1, place entry.2)) = layout size items start := by
  have same : ∀ entry ∈ layout size items start, (entry.1, place entry.2) = entry := by
    intro entry member
    rw [fixed entry.2 (le_of_mem_layout member)]
  rw [List.map_congr_left same, List.map_id']

theorem exists_moves (full : ∀ item, 0 < size item) {items others : List α} (perm : items.Perm others) (start : Nat) :
    ∃ place, Moves size items others start place := by
  induction perm generalizing start with
  | nil => exact ⟨Equiv.refl Nat, fun _ _ => rfl, fun _ _ => rfl, nofun, .nil⟩
  | cons item _ ih =>
    obtain ⟨place, before, after, blocks, moved⟩ := ih (start + size item)
    have positive := full item
    refine ⟨place, fun n low => before n (by omega), fun n high => after n ?_, ?_, ?_⟩
    · rw [total_cons] at high
      omega
    · intro entry member i below
      rcases List.mem_cons.mp member with rfl | later
      · show place (start + i) = place start + i
        have inside : i < size item := below
        rw [before _ (by omega), before _ (by omega)]
      · exact blocks entry later i below
    · rw [layout, List.map_cons, before start (by omega)]
      exact moved.cons _
  | swap first second rest =>
    have ones := full first
    have others := full second
    -- the list is `second :: first :: rest`
    refine ⟨swapBlocks start (size second) (size first), fun n low => ?_, fun n high => ?_, ?_, ?_⟩
    · rw [swapBlocks_apply, if_pos low]
    · rw [total_cons, total_cons] at high
      rw [swapBlocks_apply, if_neg (by omega), if_neg (by omega), if_neg (by omega)]
    · intro entry member i below
      rcases List.mem_cons.mp member with rfl | later
      · have inside : i < size second := below
        show swapBlocks _ _ _ (start + i) = swapBlocks _ _ _ start + i
        rw [swapBlocks_apply, swapBlocks_apply]
        split_ifs <;> omega
      · rcases List.mem_cons.mp later with rfl | later
        · have inside : i < size first := below
          show swapBlocks _ _ _ (start + size second + i) = swapBlocks _ _ _ (start + size second) + i
          rw [swapBlocks_apply, swapBlocks_apply]
          split_ifs <;> omega
        · have low := le_of_mem_layout later
          rw [swapBlocks_apply, swapBlocks_apply]
          split_ifs <;> omega
    · have kept := @map_layout_of_fixed α size rest (start + size second + size first)
        (swapBlocks start (size second) (size first)) fun n high => by
          rw [swapBlocks_apply, if_neg (by omega), if_neg (by omega), if_neg (by omega)]
      have one : swapBlocks start (size second) (size first) start = start + size first := by
        rw [swapBlocks_apply, if_neg (by omega), if_pos (by omega)]
      have two : swapBlocks start (size second) (size first) (start + size second) = start := by
        rw [swapBlocks_apply, if_neg (by omega), if_neg (by omega), if_pos (by omega)]
        omega
      have ends : start + size second + size first = start + size first + size second := by omega
      simp only [layout, List.map_cons, kept, one, two]
      rw [ends]
      exact .swap _ _ _
  | trans _ _ firstIh secondIh =>
    next items middle _ first second =>
    obtain ⟨place, before, after, blocks, moved⟩ := firstIh start
    obtain ⟨place', before', after', blocks', moved'⟩ := secondIh start
    have same := @total_perm α size _ _ first
    refine ⟨place.trans place', fun n low => ?_, fun n high => ?_, fun entry member i below => ?_, ?_⟩
    · rw [Equiv.trans_apply, before n low, before' n low]
    · rw [Equiv.trans_apply, after n high, after' n (same ▸ high)]
    · have there : (entry.1, place entry.2) ∈ layout size middle start :=
        moved.subset (List.mem_map.mpr ⟨entry, member, rfl⟩)
      rw [Equiv.trans_apply, Equiv.trans_apply, blocks entry member i below]
      exact blocks' _ there i below
    · have both := (moved.map fun entry => (entry.1, place' entry.2)).trans moved'
      rw [List.map_map] at both
      exact both

end MqBridge.Layout
