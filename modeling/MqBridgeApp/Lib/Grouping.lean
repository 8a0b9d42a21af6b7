import Mathlib.Data.List.Induction
import Mathlib.Data.List.Nodup

/-!
# Grouping

Items are filed one by one under their key, into a map that keeps the order in which the keys came in: an item whose
key is new opens a group, and every item is added to the group of its key.
-/

namespace MqBridge.Grouping

variable {ι κ β : Type*} [DecidableEq κ]

section
variable (key : ι → κ) (create : ι → β) (add : β → ι → β)

/-- Adds an item to the group of its key, which is created when there is none. -/
def file (groups : List (κ × β)) (item : ι) : List (κ × β) :=
  if key item ∈ groups.map Prod.fst then
    groups.map fun group => if group.1 = key item then (group.1, add group.2 item) else group
  else groups ++ [(key item, add (create item) item)]

def fileAll (items : List ι) : List (κ × β) := items.foldl (file key create add) []

/-- The items that are filed under `k`. -/
def filed (k : κ) (items : List ι) : List ι := items.filter fun item => key item = k

/-- The groups hold `items`: each key has one group, in which its items were added in order to what the first of them
created. -/
structure Holds (groups : List (κ × β)) (items : List ι) : Prop where
  distinct : (groups.map Prod.fst).Nodup
  keys : ∀ k, k ∈ groups.map Prod.fst ↔ k ∈ items.map key
  held : ∀ group ∈ groups, ∃ first ∈ items, key first = group.1 ∧
    group.2 = (filed key group.1 items).foldl add (create first)

variable {key create add}

theorem filed_concat_same {items : List ι} (item : ι) :
    filed key (key item) (items ++ [item]) = filed key (key item) items ++ [item] := by
  simp [filed]

theorem filed_concat_other {items : List ι} {item : ι} {k : κ} (other : key item ≠ k) :
    filed key k (items ++ [item]) = filed key k items := by
  simp [filed, other]

theorem filed_eq_nil {items : List ι} {k : κ} (absent : k ∉ items.map key) : filed key k items = [] := by
  refine List.filter_eq_nil_iff.mpr fun item member same => absent ?_
  exact List.mem_map.mpr ⟨item, member, by simpa using same⟩

theorem holds_file {groups : List (κ × β)} {items : List ι} (holds : Holds key create add groups items) (item : ι) :
    Holds key create add (file key create add groups item) (items ++ [item]) := by
  obtain ⟨distinct, keys, held⟩ := holds
  unfold file
  split
  next known =>
    have same : (groups.map fun group => if group.1 = key item then (group.1, add group.2 item) else group).map Prod.fst =
        groups.map Prod.fst := by
      rw [List.map_map]
      refine List.map_congr_left fun group _ => ?_
      dsimp only [Function.comp_apply]
      split <;> rfl
    refine ⟨by rwa [same], fun k => ?_, fun group member => ?_⟩
    · rw [same, keys, List.map_append, List.mem_append, List.map_singleton, List.mem_singleton]
      constructor
      · exact .inl
      · rintro (there | rfl)
        · exact there
        · exact (keys _).mp known
    · obtain ⟨before, before_mem, rfl⟩ := List.mem_map.mp member
      obtain ⟨first, first_mem, first_key, contents⟩ := held before before_mem
      split
      next hit =>
        refine ⟨first, List.mem_append_left _ first_mem, first_key, ?_⟩
        rw [hit, filed_concat_same, List.foldl_append, ← hit, ← contents]
        rfl
      next miss =>
        refine ⟨first, List.mem_append_left _ first_mem, first_key, ?_⟩
        rw [filed_concat_other (Ne.symm miss), contents]
  next new =>
    refine ⟨?_, fun k => ?_, fun group member => ?_⟩
    · rw [List.map_append, List.map_singleton]
      exact (List.nodup_cons.mpr ⟨new, distinct⟩).perm (List.perm_append_singleton ..).symm
    · rw [List.map_append, List.map_append, List.mem_append, List.mem_append, keys]
      rfl
    · rcases List.mem_append.mp member with old | created
      · obtain ⟨first, first_mem, first_key, contents⟩ := held group old
        have other : key item ≠ group.1 := fun same => new (same ▸ List.mem_map_of_mem old)
        exact ⟨first, List.mem_append_left _ first_mem, first_key, by rw [filed_concat_other other, contents]⟩
      · obtain rfl := List.mem_singleton.mp created
        refine ⟨item, List.mem_append_right _ (List.mem_singleton_self _), rfl, ?_⟩
        have none_before : filed key (key item) items = [] := filed_eq_nil fun there => new ((keys _).mpr there)
        rw [filed_concat_same, none_before]
        rfl

variable (key create add) in
theorem holds_fileAll (items : List ι) : Holds key create add (fileAll key create add items) items := by
  induction items using List.reverseRecOn with
  | nil => exact ⟨List.nodup_nil, fun k => by simp [fileAll], List.forall_mem_nil _⟩
  | append_singleton items item ih =>
    rw [fileAll, List.foldl_append]
    exact holds_file ih item

end

/-- What is filed under the keys together is everything. -/
theorem filed_perm {key : ι → κ} {keys : List κ} {items : List ι} (distinct : keys.Nodup)
    (all : ∀ item ∈ items, key item ∈ keys) : (keys.flatMap fun k => filed key k items).Perm items := by
  induction items with
  | nil => simp [filed]
  | cons item items ih =>
    have rest := ih fun other member => all other (.tail _ member)
    obtain ⟨front, back, same⟩ := List.append_of_mem (all item (.head _))
    rw [same] at distinct rest ⊢
    have apart := List.nodup_append.mp distinct
    have missing : ∀ part : List κ, key item ∉ part →
        (part.flatMap fun k => filed key k (item :: items)) = part.flatMap fun k => filed key k items := by
      intro part absent
      refine List.flatMap_congr fun k member => ?_
      have other : ¬key item = k := fun hit => absent (hit ▸ member)
      simp [filed, other]
    have inFront : key item ∉ front := fun member => apart.2.2 _ member _ (.head _) rfl
    have inBack : key item ∉ back := (List.nodup_cons.mp apart.2.1).1
    have here : filed key (key item) (item :: items) = item :: filed key (key item) items := by simp [filed]
    simp only [List.flatMap_append, List.flatMap_cons] at rest ⊢
    rw [missing front inFront, missing back inBack, here, List.cons_append]
    exact List.perm_middle.trans (rest.cons item)

end MqBridge.Grouping
