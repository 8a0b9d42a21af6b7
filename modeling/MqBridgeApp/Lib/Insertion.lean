import MqBridgeApp.Lib.Assoc

/-!
# Insertions before the last element that is hit

A list with such an element is what comes before it and what starts with it. Elements that are not hit
themselves go between the two, or to the front, and do not move the place between them.
-/

namespace MqBridge.Insertion

variable {α : Type*} (hit : α → Bool)

/-- The list from the last element that is hit, or nothing. -/
def fromLast (items : List α) : List α := ((Assoc.lastIndex hit items).map items.drop).getD []

def beforeLast (items : List α) : List α := ((Assoc.lastIndex hit items).map items.take).getD items

def insertBeforeLast (items : List α) (item : α) : List α :=
  match Assoc.lastIndex hit items with
  | some index => items.insertIdx index item
  | none => items ++ [item]

theorem beforeLast_append_fromLast (items : List α) : beforeLast hit items ++ fromLast hit items = items := by
  unfold beforeLast fromLast
  cases Assoc.lastIndex hit items <;> simp

variable {hit}

theorem insertIdx_length (front rest : List α) (item : α) :
    (front ++ rest).insertIdx front.length item = front ++ item :: rest := by
  induction front with
  | nil => simp
  | cons first front ih => simp [ih]

theorem fromLast_of_none {items : List α} (misses : ∀ item ∈ items, hit item = false) :
    beforeLast hit items = items ∧ fromLast hit items = [] := by
  simp [beforeLast, fromLast, Assoc.lastIndex_eq_none.mpr misses]

theorem lastIndex_of_last {front rest : List α} {last : α} (isHit : hit last = true)
    (misses : ∀ item ∈ rest, hit item = false) : Assoc.lastIndex hit (front ++ last :: rest) = some front.length := by
  have tail : Assoc.lastIndex hit (last :: rest) = some 0 := by
    simp [Assoc.lastIndex, Assoc.lastIndex_eq_none.mpr misses, isHit]
  simp [Assoc.lastIndex_append, tail]

theorem fromLast_of_last {front rest : List α} {last : α} (isHit : hit last = true)
    (misses : ∀ item ∈ rest, hit item = false) :
    beforeLast hit (front ++ last :: rest) = front ∧ fromLast hit (front ++ last :: rest) = last :: rest := by
  simp [beforeLast, fromLast, lastIndex_of_last isHit misses]

theorem last_cases (hit : α → Bool) (items : List α) : (∀ item ∈ items, hit item = false) ∨
    ∃ front last rest, items = front ++ last :: rest ∧ hit last = true ∧ ∀ item ∈ rest, hit item = false := by
  induction items with
  | nil => simp
  | cons first items ih =>
    rcases ih with misses | ⟨front, last, rest, rfl, isHit, misses⟩
    · by_cases isHit : hit first = true
      · exact .inr ⟨[], first, items, rfl, isHit, misses⟩
      · simp only [Bool.not_eq_true] at isHit
        exact .inl (List.forall_mem_cons.mpr ⟨isHit, misses⟩)
    · exact .inr ⟨first :: front, last, rest, rfl, isHit, misses⟩

theorem insertBeforeLast_eq (items : List α) (item : α) :
    insertBeforeLast hit items item = beforeLast hit items ++ item :: fromLast hit items := by
  rcases last_cases hit items with misses | ⟨front, last, rest, rfl, isHit, misses⟩
  · obtain ⟨before, after⟩ := fromLast_of_none misses
    simp [insertBeforeLast, before, after, Assoc.lastIndex_eq_none.mpr misses]
  · obtain ⟨before, after⟩ := @fromLast_of_last _ _ front _ _ isHit misses
    simp [insertBeforeLast, before, after, lastIndex_of_last isHit misses, insertIdx_length]

/-- Elements that are not hit leave the place before the last hit one where it is. -/
theorem fromLast_insert {front middle items : List α} (frontMisses : ∀ item ∈ front, hit item = false)
    (middleMisses : ∀ item ∈ middle, hit item = false) :
    beforeLast hit (front ++ beforeLast hit items ++ middle ++ fromLast hit items) =
        front ++ beforeLast hit items ++ middle ∧
      fromLast hit (front ++ beforeLast hit items ++ middle ++ fromLast hit items) = fromLast hit items := by
  rcases last_cases hit items with misses | ⟨before, last, rest, rfl, isHit, misses⟩
  · obtain ⟨all, nothing⟩ := fromLast_of_none misses
    have missed : ∀ item ∈ front ++ items ++ middle, hit item = false := by
      simp only [List.mem_append]
      rintro item ((there | there) | there)
      · exact frontMisses item there
      · exact misses item there
      · exact middleMisses item there
    rw [all, nothing, List.append_nil]
    exact fromLast_of_none missed
  · obtain ⟨outer, inner⟩ := @fromLast_of_last _ _ before _ _ isHit misses
    rw [outer, inner]
    exact fromLast_of_last isHit misses

end MqBridge.Insertion
