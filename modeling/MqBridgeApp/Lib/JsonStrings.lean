import MqBridgeApp.Lib.JsonAgree

/-!
# The strings of a value

A value with its strings replaced by a function of them. Two functions make the same value exactly when
they agree on every string in it.
-/

namespace MqBridge.Json

mutual
/-- The value with its strings replaced. Keys stay as they are. -/
def mapStrings (f : Text → Text) : Json → Json
  | .str text => .str (f text)
  | .arr items => .arr (mapItems f items)
  | .obj entries => .obj (mapEntries f entries)
  | .null => .null
  | .bool b => .bool b
  | .num n => .num n
def mapItems (f : Text → Text) : List Json → List Json
  | [] => []
  | item :: rest => item.mapStrings f :: mapItems f rest
def mapEntries (f : Text → Text) : List (Text × Json) → List (Text × Json)
  | [] => []
  | (key, value) :: rest => (key, value.mapStrings f) :: mapEntries f rest
end

mutual
def strings : Json → List Text
  | .str text => [text]
  | .arr items => itemStrings items
  | .obj entries => entryStrings entries
  | .null | .bool _ | .num _ => []
def itemStrings : List Json → List Text
  | [] => []
  | item :: rest => item.strings ++ itemStrings rest
def entryStrings : List (Text × Json) → List Text
  | [] => []
  | (_, value) :: rest => value.strings ++ entryStrings rest
end

section
variable {f g : Text → Text}

theorem mapEntries_eq (f : Text → Text) (entries : List (Text × Json)) :
    mapEntries f entries = entries.map fun entry => (entry.1, entry.2.mapStrings f) := by
  induction entries with
  | nil => rfl
  | cons entry rest ih => rw [mapEntries, ih, List.map_cons]

theorem keys_mapEntries (f : Text → Text) (entries : List (Text × Json)) :
    (mapEntries f entries).map Prod.fst = entries.map Prod.fst := by
  rw [mapEntries_eq, List.map_map]
  rfl

theorem lookup_mapEntries (f : Text → Text) (entries : List (Text × Json)) (key : Text) :
    (mapEntries f entries).lookup key = (entries.lookup key).map (mapStrings f) := by
  rw [mapEntries_eq, Assoc.lookup_map]

mutual
theorem distinct_mapStrings (f : Text → Text) : ∀ {value : Json}, (value.mapStrings f).Distinct ↔ value.Distinct
  | .str _ | .null | .bool _ | .num _ => Iff.rfl
  | .arr _ => distinct_mapItems f
  | .obj entries => by
    rw [mapStrings, Distinct, Distinct, keys_mapEntries]
    exact and_congr_right' (distinct_mapEntries f)
theorem distinct_mapItems (f : Text → Text) : ∀ {items : List Json}, DistinctItems (mapItems f items) ↔ DistinctItems items
  | [] => Iff.rfl
  | _ :: _ => and_congr (distinct_mapStrings f) (distinct_mapItems f)
theorem distinct_mapEntries (f : Text → Text) : ∀ {entries : List (Text × Json)},
    DistinctEntries (mapEntries f entries) ↔ DistinctEntries entries
  | [] => Iff.rfl
  | (_, _) :: _ => and_congr (distinct_mapStrings f) (distinct_mapEntries f)
end

theorem mem_entryStrings {entries : List (Text × Json)} {text : Text} :
    text ∈ entryStrings entries ↔ ∃ entry ∈ entries, text ∈ entry.2.strings := by
  induction entries with
  | nil => exact iff_of_false List.not_mem_nil fun ⟨_, member, _⟩ => absurd member List.not_mem_nil
  | cons entry rest ih => rw [entryStrings, List.mem_append, ih, List.exists_mem_cons_iff]

mutual
/-- Two functions make the same value exactly when they agree on its strings. -/
theorem same_mapStrings_iff : ∀ {value : Json}, value.Distinct →
    ((value.mapStrings f).same (value.mapStrings g) = true ↔ ∀ text ∈ value.strings, f text = g text)
  | .null, _ | .bool _, _ | .num _, _ => iff_of_true (by simp [mapStrings, same]) fun _ member => absurd member List.not_mem_nil
  | .str text, _ => by rw [mapStrings, mapStrings, same_str, strings, List.forall_mem_singleton]
  | .arr items, distinct => same_mapItems_iff distinct
  | .obj entries, distinct => by
    have each := same_mapEntries_iff distinct.2
    have lengths : ∀ f : Text → Text, (mapEntries f entries).length = entries.length := by
      intro f
      rw [mapEntries_eq, List.length_map]
    rw [mapStrings, mapStrings, same, lengths, lengths, beq_self_eq_true, Bool.true_and, sameEntries_iff, strings]
    constructor
    · intro found text member
      obtain ⟨entry, inside, own⟩ := mem_entryStrings.mp member
      obtain ⟨other, lookup, step⟩ := found (entry.1, entry.2.mapStrings f)
        (by rw [mapEntries_eq]; exact List.mem_map_of_mem inside)
      rw [lookup_mapEntries, Assoc.lookup_of_mem distinct.1 inside] at lookup
      obtain rfl := Option.some.inj lookup
      exact (each entry inside).mp step text own
    · intro agree other member
      rw [mapEntries_eq] at member
      obtain ⟨entry, inside, rfl⟩ := List.mem_map.mp member
      refine ⟨entry.2.mapStrings g, ?_, ?_⟩
      · rw [lookup_mapEntries, Assoc.lookup_of_mem distinct.1 inside]
        rfl
      · exact (each entry inside).mpr fun text own => agree text (mem_entryStrings.mpr ⟨entry, inside, own⟩)
theorem same_mapItems_iff : ∀ {items : List Json}, DistinctItems items →
    (sameItems (mapItems f items) (mapItems g items) = true ↔ ∀ text ∈ itemStrings items, f text = g text)
  | [], _ => iff_of_true rfl fun _ member => absurd member List.not_mem_nil
  | item :: rest, distinct => by
    rw [mapItems, mapItems, sameItems, Bool.and_eq_true, itemStrings, List.forall_mem_append,
      same_mapStrings_iff distinct.1, same_mapItems_iff distinct.2]
theorem same_mapEntries_iff : ∀ {entries : List (Text × Json)}, DistinctEntries entries →
    ∀ entry ∈ entries, ((entry.2.mapStrings f).same (entry.2.mapStrings g) = true ↔ ∀ text ∈ entry.2.strings, f text = g text)
  | [], _ => nofun
  | (_, _) :: _, distinct => List.forall_mem_cons.mpr ⟨same_mapStrings_iff distinct.1, same_mapEntries_iff distinct.2⟩
end

end

end MqBridge.Json
