import Mathlib.Data.List.MinMax
import MqBridgeApp.Lib.JsonPlaces

/-!
# The parts of a JSON value

The parts of a value with their paths, in the order of the document, and the longest of a list of paths.
-/

namespace MqBridge
namespace Json

mutual
/-- Every part with its path, each before its own parts. -/
def parts : Json → List (List Step × Json)
  | .arr items => ([], .arr items) :: partsOfItems 0 items
  | .obj entries => ([], .obj entries) :: partsOfEntries entries
  | .null => [([], .null)]
  | .bool b => [([], .bool b)]
  | .num n => [([], .num n)]
  | .str s => [([], .str s)]
def partsOfItems (index : Nat) : List Json → List (List Step × Json)
  | [] => []
  | item :: rest => (parts item).map (fun part => (.index index :: part.1, part.2)) ++ partsOfItems (index + 1) rest
def partsOfEntries : List (Text × Json) → List (List Step × Json)
  | [] => []
  | (name, value) :: rest => (parts value).map (fun part => (.key name :: part.1, part.2)) ++ partsOfEntries rest
end

theorem mem_stepped {step : Step} {inner : List (List Step × Json)} {path : List Step} {part : Json} :
    (path, part) ∈ inner.map (fun part => (step :: part.1, part.2)) ↔ ∃ rest, path = step :: rest ∧ (rest, part) ∈ inner := by
  constructor
  · intro member
    obtain ⟨⟨rest, found⟩, deeper, same⟩ := List.mem_map.mp member
    obtain ⟨rfl, rfl⟩ := Prod.mk.inj same
    exact ⟨rest, rfl, deeper⟩
  · rintro ⟨rest, rfl, deeper⟩
    exact List.mem_map.mpr ⟨_, deeper, rfl⟩

/-- The items are numbered from the first on. -/
theorem mem_partsOfItems {items : List Json} {start : Nat} {path : List Step} {part : Json} :
    (path, part) ∈ partsOfItems start items ↔
      ∃ i item rest, items[i]? = some item ∧ path = .index (start + i) :: rest ∧ (rest, part) ∈ item.parts := by
  induction items generalizing start with
  | nil =>
    refine ⟨fun member => absurd member List.not_mem_nil, fun ⟨i, item, rest, there, _⟩ => ?_⟩
    rw [List.getElem?_nil] at there
    cases there
  | cons first later ih =>
    rw [partsOfItems, List.mem_append, mem_stepped, ih]
    constructor
    · rintro (⟨rest, same, deeper⟩ | ⟨i, item, rest, there, same, deeper⟩)
      · exact ⟨0, first, rest, rfl, same, deeper⟩
      · exact ⟨i + 1, item, rest, there, by rw [same, Nat.add_right_comm, Nat.add_assoc], deeper⟩
    · rintro ⟨i, item, rest, there, same, deeper⟩
      cases i with
      | zero =>
        obtain rfl := Option.some.inj there
        exact .inl ⟨rest, same, deeper⟩
      | succ i => exact .inr ⟨i, item, rest, there, by rw [same, Nat.add_right_comm, Nat.add_assoc], deeper⟩

theorem mem_partsOfEntries {entries : List (Text × Json)} {path : List Step} {part : Json} :
    (path, part) ∈ partsOfEntries entries ↔
      ∃ entry ∈ entries, ∃ rest, path = .key entry.1 :: rest ∧ (rest, part) ∈ entry.2.parts := by
  induction entries with
  | nil => exact ⟨fun member => absurd member List.not_mem_nil, fun ⟨_, member, _⟩ => absurd member List.not_mem_nil⟩
  | cons first later ih =>
    rw [partsOfEntries, List.mem_append, mem_stepped, ih]
    constructor
    · rintro (⟨rest, same, deeper⟩ | ⟨entry, member, found⟩)
      · exact ⟨first, List.mem_cons_self, rest, same, deeper⟩
      · exact ⟨entry, List.mem_cons_of_mem _ member, found⟩
    · rintro ⟨entry, member, rest, same, deeper⟩
      rcases List.mem_cons.mp member with rfl | member
      · exact .inl ⟨rest, same, deeper⟩
      · exact .inr ⟨entry, member, rest, same, deeper⟩

theorem mem_parts_scalar {value : Json} (scalar : value.isScalar = true) {path : List Step} {part : Json} :
    (path, part) ∈ value.parts ↔ value.follow path = some part := by
  have single : value.parts = [([], value)] := by
    cases value with
    | arr items => cases scalar
    | obj entries => cases scalar
    | _ => rw [parts]
  rw [single, List.mem_singleton, Prod.mk.injEq]
  cases path with
  | nil => exact ⟨fun same => congrArg some same.2.symm, fun same => ⟨rfl, (Option.some.inj same).symm⟩⟩
  | cons step rest =>
    rw [follow_scalar scalar]
    exact ⟨fun same => (List.cons_ne_nil _ _ same.1).elim, fun same => by cases same⟩

theorem mem_whole {value part : Json} {deeper : Prop} (apart : ¬deeper) :
    (([] : List Step), part) = ([], value) ∨ deeper ↔ value.follow [] = some part := by
  rw [follow_nil, or_iff_left apart, Prod.mk.injEq, Option.some.injEq, eq_comm (a := part)]
  exact and_iff_right rfl

/-- The parts are what is read at some path. -/
theorem mem_parts {path : List Step} : ∀ {value part : Json}, value.Distinct →
    ((path, part) ∈ value.parts ↔ value.follow path = some part) := by
  induction path with
  | nil =>
    intro value part _
    cases value with
    | arr items =>
      rw [parts, List.mem_cons, mem_partsOfItems]
      exact mem_whole fun ⟨_, _, _, _, same, _⟩ => by cases same
    | obj entries =>
      rw [parts, List.mem_cons, mem_partsOfEntries]
      exact mem_whole fun ⟨_, _, _, same, _⟩ => by cases same
    | _ => exact mem_parts_scalar rfl
  | cons step rest ih =>
    intro value part distinct
    cases value with
    | arr items =>
      rw [parts, List.mem_cons, mem_partsOfItems]
      constructor
      · rintro (same | ⟨i, item, inner, there, same, deeper⟩)
        · cases same
        · obtain ⟨rfl, rfl⟩ := List.cons.inj same
          have within := List.mem_of_getElem? there
          rw [Nat.zero_add, follow_index_arr, there, Option.bind_some]
          exact (ih (distinct_of_item distinct within)).mp deeper
      · intro found
        cases step with
        | key name => cases found
        | index i =>
          rw [follow_index_arr] at found
          obtain ⟨item, there, deeper⟩ := Option.bind_eq_some_iff.mp found
          have within := List.mem_of_getElem? there
          exact .inr ⟨i, item, rest, there, by rw [Nat.zero_add], (ih (distinct_of_item distinct within)).mpr deeper⟩
    | obj entries =>
      rw [parts, List.mem_cons, mem_partsOfEntries]
      constructor
      · rintro (same | ⟨entry, member, inner, same, deeper⟩)
        · cases same
        · obtain ⟨rfl, rfl⟩ := List.cons.inj same
          rw [follow_key_obj, Assoc.lookup_of_mem distinct.1 member, Option.bind_some]
          exact (ih (distinct_of_entry distinct.2 member)).mp deeper
      · intro found
        cases step with
        | index i => cases found
        | key name =>
          rw [follow_key_obj] at found
          obtain ⟨value, there, deeper⟩ := Option.bind_eq_some_iff.mp found
          have member := Assoc.mem_of_lookup there
          exact .inr ⟨_, member, rest, rfl, (ih (distinct_of_entry distinct.2 member)).mpr deeper⟩
    | _ => exact mem_parts_scalar rfl

end Json

section
variable {α : Type*} {paths : List (List α)} {path : List α}

/-- Those that none is longer than. -/
def longest (paths : List (List α)) : List (List α) :=
  paths.filter fun path => paths.all fun other => other.length ≤ path.length

theorem mem_longest : path ∈ longest paths ↔ path ∈ paths ∧ ∀ other ∈ paths, other.length ≤ path.length := by
  simp [longest]

theorem longest_eq {length : Nat} (bound : ∀ path ∈ paths, path.length ≤ length)
    (reached : ∃ path ∈ paths, path.length = length) : longest paths = paths.filter fun path => path.length = length := by
  refine List.filter_congr fun path member => ?_
  obtain ⟨other, other_mem, same⟩ := reached
  have below := bound path member
  rw [Bool.eq_iff_iff, List.all_eq_true, decide_eq_true_eq]
  constructor
  · intro all
    have above := of_decide_eq_true (all other other_mem)
    omega
  · intro length third third_mem
    have bounded := bound third third_mem
    exact decide_eq_true (by omega)

end

end MqBridge
