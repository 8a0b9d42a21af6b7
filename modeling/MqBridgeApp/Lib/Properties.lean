import MqBridgeApp.Lib.JavaScript

/-!
# Properties of objects

Properties that are defined, set and deleted, where each of them keeps its place.
-/

namespace MqBridge

/-- A property of an object, at its place if the object has it. -/
def defineProperty (record : Record) (key : Text) (value : Json) : Record :=
  if key ∈ record.map Prod.fst then record.map fun entry => (entry.1, if entry.1 = key then value else entry.2)
  else record ++ [(key, value)]

/-- `record[key] = value`, which sets no property where the prototype is meant. -/
def setInPlace (record : Record) (key : Text) (value : Json) : Record :=
  if key = "__proto__" ∧ key ∉ record.map Prod.fst then record else defineProperty record key value

/-- The entries of an object that assignments to an empty object would set. -/
def settable {α : Type*} (entries : List (Text × α)) : List (Text × α) :=
  entries.filter fun entry => entry.1 != ("__proto__" : Text)

def setAllInPlace (record : Record) (properties : List (Text × Json)) : Record :=
  properties.foldl (fun record property => setInPlace record property.1 property.2) record

theorem mem_settable {α : Type*} {entries : List (Text × α)} {entry : Text × α} :
    entry ∈ settable entries ↔ entry ∈ entries ∧ entry.1 ≠ "__proto__" := by
  simp [settable]

theorem settable_eq_self {α : Type*} {entries : List (Text × α)} (plain : ∀ entry ∈ entries, entry.1 ≠ "__proto__") :
    settable entries = entries :=
  List.filter_eq_self.mpr fun entry member => bne_iff_ne.mpr (plain entry member)

theorem lookup_defineProperty (record : Record) (key other : Text) (value : Json) :
    (defineProperty record key value).lookup other = if other = key then some value else record.lookup other := by
  unfold defineProperty
  split
  · next present =>
    rw [Assoc.lookup_mapWithKey fun name held => if name = key then value else held]
    by_cases asked : other = key
    · obtain ⟨held, there⟩ := Assoc.mem_keys.mp present
      simp only [asked, there, if_true, Option.map_some]
    · simp only [if_neg asked, Option.map_id']
  · next absent =>
    rw [Assoc.lookup_append]
    by_cases asked : other = key
    · have missing : record.lookup key = none :=
        Assoc.lookup_eq_none.mpr fun value member => absent (List.mem_map.mpr ⟨_, member, rfl⟩)
      rw [if_pos asked, asked, missing]
      simp
    · rw [if_neg asked]
      simp [List.lookup_cons, beq_eq_false_iff_ne.mpr asked]

theorem keys_defineProperty (record : Record) (key : Text) (value : Json) (other : Text) :
    other ∈ (defineProperty record key value).map Prod.fst ↔ other ∈ record.map Prod.fst ∨ other = key := by
  unfold defineProperty
  split
  · next present =>
    rw [List.map_map]
    exact ⟨.inl, fun either => either.elim id fun same => same ▸ present⟩
  · rw [List.map_append, List.mem_append, List.map_singleton, List.mem_singleton]

theorem lookup_setInPlace {key : Text} (plain : key ≠ "__proto__") (record : Record) (other : Text) (value : Json) :
    (setInPlace record key value).lookup other = if other = key then some value else record.lookup other := by
  rw [setInPlace, if_neg fun both => plain both.1, lookup_defineProperty]

theorem keys_setInPlace {record : Record} {key : Text} (shown : ¬(key = "__proto__" ∧ key ∉ record.map Prod.fst))
    (value : Json) (other : Text) :
    other ∈ (setInPlace record key value).map Prod.fst ↔ other ∈ record.map Prod.fst ∨ other = key := by
  rw [setInPlace, if_neg shown, keys_defineProperty]

theorem prop_setInPlace {key : Text} (plain : key ≠ "__proto__") (record : Record) (other : Text) (value : Json) :
    (setInPlace record key value).prop other = if other = key then some value else record.prop other :=
  lookup_setInPlace plain record other value

theorem prop_setAllInPlace {properties : List (Text × Json)} {key : Text} (other : ∀ property ∈ properties, property.1 ≠ key)
    (record : Record) : (setAllInPlace record properties).prop key = record.prop key := by
  unfold setAllInPlace
  induction properties generalizing record with
  | nil => rfl
  | cons property rest ih =>
    rw [List.foldl_cons, ih fun later member => other later (List.mem_cons_of_mem _ member)]
    unfold setInPlace
    split
    · rfl
    · exact (lookup_defineProperty ..).trans (if_neg (other property List.mem_cons_self).symm)

theorem prop_setAllInPlace_of_mem {properties : List (Text × Json)} {key : Text} {value : Json}
    (distinct : (properties.map Prod.fst).Nodup) (plain : key ≠ "__proto__") (written : (key, value) ∈ properties)
    (record : Record) : (setAllInPlace record properties).prop key = some value := by
  induction properties generalizing record with
  | nil => cases written
  | cons property rest ih =>
    rw [List.map_cons, List.nodup_cons] at distinct
    rcases List.mem_cons.mp written with rfl | later
    · have untouched : ∀ later ∈ rest, later.1 ≠ key := by
        intro other member same
        exact distinct.1 (List.mem_map.mpr ⟨other, member, same⟩)
      exact (prop_setAllInPlace untouched _).trans ((prop_setInPlace plain ..).trans (if_pos rfl))
    · exact ih distinct.2 later _

theorem prop_erase (record : Record) (erased other : Text) :
    Record.prop (Assoc.erase record erased) other = if other = erased then none else record.prop other := by
  refine (Assoc.lookup_erase record erased other).trans ?_
  by_cases same : other = erased
  · rw [if_pos (by simpa using same), if_pos same]
  · rw [if_neg (by simpa using same), if_neg same]

theorem defineProperty_self {record : Record} (distinct : (record.map Prod.fst).Nodup) {key : Text} {value : Json}
    (found : record.lookup key = some value) : defineProperty record key value = record := by
  have member := Assoc.mem_of_lookup found
  rw [defineProperty, if_pos (List.mem_map.mpr ⟨_, member, rfl⟩)]
  refine (List.map_congr_left fun entry inside => ?_).trans (List.map_id record)
  split
  · next same =>
    have own := Assoc.lookup_of_mem distinct inside
    rw [same, found] at own
    exact Prod.ext rfl (Option.some.inj own)
  · rfl

theorem setInPlace_self {record : Record} (distinct : (record.map Prod.fst).Nodup) {key : Text} {value : Json}
    (found : record.lookup key = some value) : setInPlace record key value = record := by
  rw [setInPlace]
  split
  · rfl
  · exact defineProperty_self distinct found

theorem nodup_defineProperty {record : Record} (distinct : (record.map Prod.fst).Nodup) (key : Text) (value : Json) :
    ((defineProperty record key value).map Prod.fst).Nodup := by
  unfold defineProperty
  split
  · rw [List.map_map]
    exact distinct
  · next absent =>
    rw [List.map_append, List.map_singleton]
    refine List.nodup_append.mpr ⟨distinct, List.nodup_singleton _, ?_⟩
    rintro other inside name (_ | ⟨_, ⟨⟩⟩) rfl
    exact absent inside

theorem nodup_setInPlace {record : Record} (distinct : (record.map Prod.fst).Nodup) (key : Text) (value : Json) :
    ((setInPlace record key value).map Prod.fst).Nodup := by
  unfold setInPlace
  split
  · exact distinct
  · exact nodup_defineProperty distinct key value

theorem nodup_erase {record : Record} (distinct : (record.map Prod.fst).Nodup) (key : Text) :
    ((Assoc.erase record key).map Prod.fst).Nodup :=
  distinct.sublist (List.filter_sublist.map Prod.fst)

theorem erase_of_lookup_none {record : Record} {key : Text} (absent : record.lookup key = none) :
    Assoc.erase record key = record := by
  rw [Assoc.erase, List.filter_eq_self]
  intro entry member
  have other := Assoc.lookup_eq_none.mp absent
  simp only [bne_iff_ne, ne_eq]
  rintro rfl
  exact other entry.2 member

end MqBridge
