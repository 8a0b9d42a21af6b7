import MqBridgeApp.Workspace.PublisherRequest
import MqBridgeApp.Lib.JsonPlaces

/-!
# Deprecated fields of a form

The form of an entry is drawn from a schema. A field that the schema calls deprecated is hidden unless the
configuration carries it. Where a definition is referred to by properties, the field is looked for under
their names only, and anywhere where no property refers to the definition.
-/

namespace MqBridge.Ui
open Text

/-! ### Hiding -/

/-- The definition that a schema refers to. In a schema `$ref` is a text. -/
def refDefinition (schema : Json) : Option Text :=
  match schema.get? "$ref" with
  | some (.str ref) => stripPrefix "#/$defs/" ref
  | _ => none

def schemaProperties (node : Json) : Record := (node.get? "properties").elim [] objectEntries

def ownersHere (node : Json) : List (Text × Text) :=
  (schemaProperties node).filterMap fun property => (refDefinition property.2).map fun name => (name, property.1)

mutual
/-- The definitions that properties refer to, each with the name of the property. -/
def collectOwners : Json → List (Text × Text)
  | .arr items => collectOwnersItems items
  | .obj entries => ownersHere (.obj entries) ++ collectOwnersEntries entries
  | _ => []
def collectOwnersItems : List Json → List (Text × Text)
  | [] => []
  | item :: rest => collectOwners item ++ collectOwnersItems rest
def collectOwnersEntries : List (Text × Json) → List (Text × Text)
  | [] => []
  | (_, value) :: rest => collectOwners value ++ collectOwnersEntries rest
end

/-- `owner + "." + key` -/
def dotted (owner key : Text) : Text := owner ++ '.' :: key

mutual
/-- The fields of the objects of a value, each behind the name of the property that the object is at. -/
def collectPresent (owner : Text) : Json → List Text
  | .arr items => collectPresentItems owner items
  | .obj entries => collectPresentEntries owner entries
  | _ => []
def collectPresentItems (owner : Text) : List Json → List Text
  | [] => []
  | item :: rest => collectPresent owner item ++ collectPresentItems owner rest
def collectPresentEntries (owner : Text) : List (Text × Json) → List Text
  | [] => []
  | (key, value) :: rest => dotted owner key :: (collectPresent key value ++ collectPresentEntries owner rest)
end

def isDeprecated (property : Json) : Bool :=
  match property.get? "description" with
  | some (.str description) => decide (("Deprecated:" : Text) <+: description)
  | _ => false

def isUsed (owners : List (Text × Text)) (present : List Text) (name field : Text) : Bool :=
  match (owners.filter fun owner => owner.1 == name).map Prod.snd with
  | [] => present.any fun entry => decide (('.' :: field) <:+ entry)
  | ownerKeys => ownerKeys.any fun owner => present.contains (dotted owner field)

def hideProperty (used : Bool) : Json → Json
  | .obj property => if isDeprecated (.obj property) && !used then .obj (Record.assign property "hidden" (.bool true)) else .obj property
  | other => other

/-- Changes the value at a key, if there is one. -/
def updateAt (key : Text) (change : Json → Json) : Json → Json
  | .obj entries => .obj (entries.map fun entry => (entry.1, if entry.1 = key then change entry.2 else entry.2))
  | other => other

/-- Changes each entry of `Object.entries(value)`. -/
def updateEach (change : Text → Json → Json) : Json → Json
  | .obj entries => .obj (entries.map fun entry => (entry.1, change entry.1 entry.2))
  | .arr items => .arr (items.mapIdx fun index item => change (ofNat index) item)
  | other => other

def hideUnusedDeprecatedProperties (itemSchema data : Json) : Json :=
  let owners := collectOwners itemSchema
  let present := collectPresent [] data
  updateAt "$defs" (updateEach fun name => updateAt "properties" (updateEach fun field =>
    hideProperty (isUsed owners present name field))) itemSchema

section
variable (schema data : Json)

def definitionOf (name : Text) : Option Json := (schema.get? "$defs").bind (Json.get? name)

def propertyOf (name field : Text) : Option Json :=
  ((definitionOf schema name).bind (Json.get? "properties")).bind (Json.get? field)

def alternatives (node : Json) : List Json := Json.items (node.get? "anyOf") ++ Json.items (node.get? "oneOf")

def allowsNullOnly (node : Json) : Bool := node.get? "type" == some (.str "null")

/-- A schema refers to a definition for a part of a value: directly, unless it is null, or for its items. -/
inductive Refers (name : Text) : Json → Json → Json → Prop
  | direct {node value : Json} (ref : refDefinition node = some name) : Refers name node value value
  | nullable {node branch value part : Json} (either : branch ∈ alternatives node)
      (others : ∀ other ∈ alternatives node, other = branch ∨ allowsNullOnly other = true)
      (refers : Refers name branch value part) : Refers name node value part
  | items {node inner item part : Json} {items : List Json} (each : node.get? "items" = some inner) (member : item ∈ items)
      (refers : Refers name inner item part) : Refers name node (.arr items) part

/-- A part of the schema is about a part of the value, which is at a property of that name or in an array there.
Which alternatives a value meets is left to `valid`. -/
inductive Describes (valid : Json → Json → Prop) : Json → Text → Json → Prop
  | root : Describes valid schema [] data
  | definition {node value inner : Json} {owner name : Text} (here : Describes valid node owner value)
      (ref : refDefinition node = some name) (found : definitionOf schema name = some inner) : Describes valid inner owner value
  | alternative {node branch value : Json} {owner : Text} (here : Describes valid node owner value)
      (either : branch ∈ alternatives node ++ Json.items (node.get? "allOf")) (meets : valid branch value) :
      Describes valid branch owner value
  | property {node inner value : Json} {owner key : Text} {entries : Record} (here : Describes valid node owner (.obj entries))
      (known : (schemaProperties node).lookup key = some inner) (there : entries.lookup key = some value) :
      Describes valid inner key value
  | additional {node inner value : Json} {owner key : Text} {entries : Record} (here : Describes valid node owner (.obj entries))
      (unknown : (schemaProperties node).lookup key = none) (each : node.get? "additionalProperties" = some inner)
      (there : entries.lookup key = some value) : Describes valid inner key value
  | items {node inner item : Json} {owner : Text} {items : List Json} (here : Describes valid node owner (.arr items))
      (each : node.get? "items" = some inner) (member : item ∈ items) : Describes valid inner owner item

/-- An object of the value is described by a definition, to which the schema of a property refers. -/
def DescribedAt (valid : Json → Json → Prop) (name key : Text) (object : Record) : Prop :=
  ∃ node owner entries inner value, Describes schema data valid node owner (.obj entries) ∧
    (schemaProperties node).lookup key = some inner ∧ entries.lookup key = some value ∧ Refers name inner value (.obj object)

/-- A part of the value is at a property of that name, or in an array there. -/
inductive Under : Text → Json → Prop
  | root : Under [] data
  | field {owner key : Text} {value : Json} {entries : Record} (here : Under owner (.obj entries))
      (member : (key, value) ∈ entries) : Under key value
  | item {owner : Text} {item : Json} {items : List Json} (here : Under owner (.arr items)) (member : item ∈ items) :
      Under owner item

/-- An object of the value that is at a property of the first name has a field of the second. -/
def Carries (owner field : Text) : Prop := ∃ entries, Under data owner (.obj entries) ∧ field ∈ entries.map Prod.fst

def RefersDirectly (name key : Text) : Prop :=
  ∃ path before node after, Json.Inside schema path before node after ∧
    ∃ inner, (key, inner) ∈ schemaProperties node ∧ refDefinition inner = some name

def isHidden (property : Json) : Bool := property.get? "hidden" == some (.bool true)

/-- A field of a definition is deprecated and not hidden beforehand. -/
def Deprecates (name field : Text) : Prop :=
  ∃ property, propertyOf schema name field = some property ∧ isDeprecated property = true ∧ isHidden property = false

def Hides (name field : Text) : Prop := ∃ property, propertyOf schema name field = some property ∧ isHidden property = true

end

/-! ### Owners -/

theorem mem_ownersHere {node : Json} {name key : Text} : (name, key) ∈ ownersHere node ↔
    ∃ inner, (key, inner) ∈ schemaProperties node ∧ refDefinition inner = some name := by
  unfold ownersHere
  rw [List.mem_filterMap]
  constructor
  · rintro ⟨⟨key', inner⟩, member, found⟩
    obtain ⟨_, ref, same⟩ := Option.map_eq_some_iff.mp found
    cases same
    exact ⟨inner, member, ref⟩
  · rintro ⟨inner, member, ref⟩
    exact ⟨(key, inner), member, by rw [ref, Option.map_some]⟩

theorem mem_collectOwnersItems {owner : Text × Text} {items : List Json} :
    owner ∈ collectOwnersItems items ↔ ∃ item ∈ items, owner ∈ collectOwners item := by
  induction items with
  | nil => simp [collectOwnersItems]
  | cons item rest ih => rw [collectOwnersItems, List.mem_append, ih, List.exists_mem_cons_iff]

theorem mem_collectOwnersEntries {owner : Text × Text} {entries : List (Text × Json)} :
    owner ∈ collectOwnersEntries entries ↔ ∃ entry ∈ entries, owner ∈ collectOwners entry.2 := by
  induction entries with
  | nil => simp [collectOwnersEntries]
  | cons entry rest ih => rw [collectOwnersEntries, List.mem_append, ih, List.exists_mem_cons_iff]

theorem collectOwners_inside {schema node : Json} {path : List Step} {before after : Text}
    (inside : Json.Inside schema path before node after) {owner : Text × Text} (here : owner ∈ collectOwners node) :
    owner ∈ collectOwners schema := by
  induction inside with
  | here schema => exact here
  | item _ ih =>
    rw [collectOwners, mem_collectOwnersItems]
    exact ⟨_, List.mem_append_right _ List.mem_cons_self, ih here⟩
  | entry _ ih =>
    rw [collectOwners, List.mem_append, mem_collectOwnersEntries]
    exact .inr ⟨_, List.mem_append_right _ List.mem_cons_self, ih here⟩

mutual
theorem refersDirectly_of_mem : ∀ {schema : Json} {name key : Text}, (name, key) ∈ collectOwners schema →
    RefersDirectly schema name key
  | .arr items, name, key, member => by
    rw [collectOwners] at member
    obtain ⟨front, item, back, rfl, path, before, node, after, inside, refers⟩ := refersDirectly_of_items member
    exact ⟨_, _, node, _, .item inside, refers⟩
  | .obj entries, name, key, member => by
    rw [collectOwners, List.mem_append] at member
    rcases member with here | below
    · exact ⟨_, _, _, _, .here _, mem_ownersHere.mp here⟩
    · obtain ⟨front, entry, back, rfl, path, before, node, after, inside, refers⟩ := refersDirectly_of_entries below
      exact ⟨_, _, node, _, .entry inside, refers⟩
  | .null, _, _, member | .bool _, _, _, member | .num _, _, _, member | .str _, _, _, member => nomatch member
theorem refersDirectly_of_items : ∀ {items : List Json} {name key : Text}, (name, key) ∈ collectOwnersItems items →
    ∃ front item back, items = front ++ item :: back ∧ RefersDirectly item name key
  | item :: rest, name, key, member => by
    rw [collectOwnersItems, List.mem_append] at member
    rcases member with here | later
    · exact ⟨[], item, rest, rfl, refersDirectly_of_mem here⟩
    · obtain ⟨front, other, back, rfl, refers⟩ := refersDirectly_of_items later
      exact ⟨item :: front, other, back, rfl, refers⟩
theorem refersDirectly_of_entries : ∀ {entries : List (Text × Json)} {name key : Text},
    (name, key) ∈ collectOwnersEntries entries →
    ∃ front entry back, entries = front ++ entry :: back ∧ RefersDirectly entry.2 name key
  | (field, value) :: rest, name, key, member => by
    rw [collectOwnersEntries, List.mem_append] at member
    rcases member with here | later
    · exact ⟨[], (field, value), rest, rfl, refersDirectly_of_mem here⟩
    · obtain ⟨front, other, back, rfl, refers⟩ := refersDirectly_of_entries later
      exact ⟨(field, value) :: front, other, back, rfl, refers⟩
end

theorem mem_collectOwners {schema : Json} {name key : Text} :
    (name, key) ∈ collectOwners schema ↔ RefersDirectly schema name key := by
  refine ⟨refersDirectly_of_mem, ?_⟩
  rintro ⟨path, before, node, after, inside, refers⟩
  refine collectOwners_inside inside ?_
  cases node with
  | obj entries => exact List.mem_append_left _ (mem_ownersHere.mpr refers)
  | _ =>
    obtain ⟨_, member, -⟩ := refers
    cases member

theorem mem_collectPresentItems {owner entry : Text} {items : List Json} :
    entry ∈ collectPresentItems owner items ↔ ∃ item ∈ items, entry ∈ collectPresent owner item := by
  induction items with
  | nil => simp [collectPresentItems]
  | cons item rest ih => rw [collectPresentItems, List.mem_append, ih, List.exists_mem_cons_iff]

theorem mem_collectPresentEntries {owner entry : Text} {entries : List (Text × Json)} :
    entry ∈ collectPresentEntries owner entries ↔
      ∃ property ∈ entries, entry = dotted owner property.1 ∨ entry ∈ collectPresent property.1 property.2 := by
  induction entries with
  | nil => simp [collectPresentEntries]
  | cons property rest ih =>
    rw [collectPresentEntries, List.mem_cons, List.mem_append, ih, List.exists_mem_cons_iff, or_assoc]

theorem collectPresent_under {data part : Json} {owner : Text} (under : Under data owner part) {entry : Text}
    (here : entry ∈ collectPresent owner part) : entry ∈ collectPresent [] data := by
  induction under with
  | root => exact here
  | field _ member ih =>
    refine ih ?_
    rw [collectPresent, mem_collectPresentEntries]
    exact ⟨_, member, .inr here⟩
  | item _ member ih =>
    refine ih ?_
    rw [collectPresent, mem_collectPresentItems]
    exact ⟨_, member, here⟩

mutual
theorem carries_of_mem {data : Json} : ∀ {part : Json} {owner entry : Text}, Under data owner part →
    entry ∈ collectPresent owner part → ∃ key field, Carries data key field ∧ entry = dotted key field
  | .arr items, owner, entry, under, member => by
    rw [collectPresent] at member
    exact carries_of_items (fun item inside => .item under inside) member
  | .obj entries, owner, entry, under, member => by
    rw [collectPresent] at member
    exact carries_of_entries under (fun property inside => inside) member
  | .null, _, _, _, member | .bool _, _, _, _, member | .num _, _, _, _, member | .str _, _, _, _, member => nomatch member
theorem carries_of_items {data : Json} : ∀ {items : List Json} {owner entry : Text},
    (∀ item ∈ items, Under data owner item) → entry ∈ collectPresentItems owner items →
    ∃ key field, Carries data key field ∧ entry = dotted key field
  | item :: rest, owner, entry, under, member => by
    rw [collectPresentItems, List.mem_append] at member
    rcases member with here | later
    · exact carries_of_mem (under item List.mem_cons_self) here
    · exact carries_of_items (fun other inside => under other (List.mem_cons_of_mem _ inside)) later
theorem carries_of_entries {data : Json} {whole : Record} : ∀ {entries : List (Text × Json)} {owner entry : Text},
    Under data owner (.obj whole) → (∀ property ∈ entries, property ∈ whole) → entry ∈ collectPresentEntries owner entries →
    ∃ key field, Carries data key field ∧ entry = dotted key field
  | (key, value) :: rest, owner, entry, under, within, member => by
    rw [collectPresentEntries, List.mem_cons, List.mem_append] at member
    have inside := within _ List.mem_cons_self
    rcases member with here | below | later
    · exact ⟨owner, key, ⟨whole, under, List.mem_map.mpr ⟨_, inside, rfl⟩⟩, here⟩
    · exact carries_of_mem (.field under inside) below
    · exact carries_of_entries under (fun property inside => within property (List.mem_cons_of_mem _ inside)) later
end

theorem mem_collectPresent {data : Json} {entry : Text} :
    entry ∈ collectPresent [] data ↔ ∃ owner field, Carries data owner field ∧ entry = dotted owner field := by
  refine ⟨carries_of_mem .root, ?_⟩
  rintro ⟨owner, field, ⟨entries, under, named⟩, rfl⟩
  obtain ⟨property, member, rfl⟩ := List.mem_map.mp named
  refine collectPresent_under under ?_
  rw [collectPresent, mem_collectPresentEntries]
  exact ⟨property, member, .inl rfl⟩

/-! ### What is hidden -/

theorem get?_updateAt (key : Text) (change : Json → Json) (value : Json) :
    (updateAt key change value).get? key = (value.get? key).map change := by
  cases value with
  | obj entries =>
    show (entries.map fun entry => (entry.1, if entry.1 = key then change entry.2 else entry.2)).lookup key = _
    have found := Assoc.lookup_mapWithKey (fun name value => if name = key then change value else value) entries key
    simp only [if_true] at found
    exact found
  | _ => rfl

theorem get?_updateEach (change : Text → Json → Json) (value : Json) (key : Text) :
    (updateEach change value).get? key = (value.get? key).map (change key) := by
  cases value with
  | obj entries => exact Assoc.lookup_mapWithKey change entries key
  | _ => rfl

section
variable {schema data : Json} {name field : Text}

/-- A property of a definition, and whether it is used, say what becomes of it. -/
theorem propertyOf_hide (schema data : Json) (name field : Text) :
    propertyOf (hideUnusedDeprecatedProperties schema data) name field =
      (propertyOf schema name field).map
        (hideProperty (isUsed (collectOwners schema) (collectPresent [] data) name field)) := by
  unfold propertyOf definitionOf hideUnusedDeprecatedProperties
  dsimp only
  rw [get?_updateAt]
  cases schema.get? "$defs" with
  | none => rfl
  | some definitions =>
    rw [Option.map_some, Option.bind_some, Option.bind_some, get?_updateEach]
    cases definitions.get? name with
    | none => rfl
    | some definition =>
      rw [Option.map_some, Option.bind_some, Option.bind_some, get?_updateAt]
      cases definition.get? "properties" with
      | none => rfl
      | some properties => rw [Option.map_some, Option.bind_some, Option.bind_some, get?_updateEach]

/-- A deprecated field is hidden if and only if it is not used. -/
theorem hides_iff (deprecates : Deprecates schema name field) : Hides (hideUnusedDeprecatedProperties schema data) name field ↔
    isUsed (collectOwners schema) (collectPresent [] data) name field = false := by
  obtain ⟨property, found, deprecated, shown⟩ := deprecates
  unfold Hides
  rw [propertyOf_hide, found, Option.map_some]
  cases property with
  | obj record =>
    simp only [hideProperty, deprecated, Bool.true_and, Option.some.injEq, exists_eq_left']
    cases isUsed (collectOwners schema) (collectPresent [] data) name field with
    | false =>
      have hidden : isHidden (.obj (Record.assign record "hidden" (.bool true))) = true := by
        show ((Record.assign record "hidden" (.bool true)).prop "hidden" == some (.bool true)) = true
        rw [Record.prop, Record.lookup_assign, beq_self_eq_true, if_pos rfl]
        exact beq_self_eq_true _
      exact ⟨fun _ => rfl, fun _ => hidden⟩
    | true =>
      rw [Bool.not_true, if_neg Bool.false_ne_true, shown]
      exact iff_of_false Bool.false_ne_true Bool.false_ne_true.symm
  | _ => cases deprecated

theorem isUsed_iff : isUsed (collectOwners schema) (collectPresent [] data) name field = true ↔
    (∃ owner, RefersDirectly schema name owner ∧ dotted owner field ∈ collectPresent [] data) ∨
      (∀ owner, ¬ RefersDirectly schema name owner) ∧ ∃ entry ∈ collectPresent [] data, '.' :: field <:+ entry := by
  have owns : ∀ owner, owner ∈ ((collectOwners schema).filter fun owner => owner.1 == name).map Prod.snd ↔
      RefersDirectly schema name owner := by
    intro owner
    rw [← mem_collectOwners, List.mem_map]
    constructor
    · rintro ⟨⟨name', owner'⟩, member, rfl⟩
      obtain ⟨inside, same⟩ := List.mem_filter.mp member
      obtain rfl : name' = name := eq_of_beq same
      exact inside
    · intro member
      exact ⟨(name, owner), List.mem_filter.mpr ⟨member, beq_self_eq_true name⟩, rfl⟩
  unfold isUsed
  split
  · next unowned =>
    have none : ∀ owner, ¬ RefersDirectly schema name owner := fun owner refers => by
      have member := (owns owner).mpr refers
      rw [unowned] at member
      cases member
    simp only [List.any_eq_true, decide_eq_true_eq]
    exact ⟨fun found => .inr ⟨none, found⟩, fun found => found.elim (fun ⟨owner, refers, _⟩ => absurd refers (none owner)) (·.2)⟩
  · next owned =>
    obtain ⟨first, member⟩ := List.exists_mem_of_ne_nil _ owned
    simp only [List.any_eq_true, List.contains_eq_mem, decide_eq_true_eq]
    constructor
    · rintro ⟨owner, member, found⟩
      exact .inl ⟨owner, (owns owner).mp member, found⟩
    · rintro (⟨owner, refers, found⟩ | ⟨none, -⟩)
      · exact ⟨owner, (owns owner).mpr refers, found⟩
      · exact absurd ((owns first).mp member) (none first)

end

/-! ### Carried fields -/

section
variable {schema data : Json} {valid : Json → Json → Prop}

theorem under_of_describes {node value : Json} {owner : Text} (describes : Describes schema data valid node owner value) :
    Under data owner value := by
  induction describes with
  | root => exact .root
  | definition _ _ _ ih => exact ih
  | alternative _ _ _ ih => exact ih
  | property _ _ there ih => exact .field ih (Assoc.mem_of_lookup there)
  | additional _ _ _ there ih => exact .field ih (Assoc.mem_of_lookup there)
  | items _ _ member ih => exact .item ih member

theorem under_of_refers {name key : Text} {node value part : Json} (refers : Refers name node value part)
    (under : Under data key value) : Under data key part := by
  induction refers with
  | direct => exact under
  | nullable _ _ _ ih => exact ih under
  | items _ member _ ih => exact ih (.item under member)

theorem DescribedAt.carries {name key field : Text} {object : Record} (described : DescribedAt schema data valid name key object)
    (named : field ∈ object.map Prod.fst) : Carries data key field := by
  obtain ⟨node, owner, entries, inner, value, describes, -, there, refers⟩ := described
  exact ⟨object, under_of_refers refers (.field (under_of_describes describes) (Assoc.mem_of_lookup there)), named⟩

end

/-- Every deprecated field of a definition that is carried is shown, and every one that no object carries is
hidden, if and only if each definition of a field that is carried is referred to directly by no property, or by one
under whose name the field is carried, and no other name and field make the same dotted text as a field that is not. -/
theorem deprecated_shown_iff (valid : Json → Json → Prop) (schema data : Json) :
    ((∀ name key object field, DescribedAt schema data valid name key object → field ∈ object.map Prod.fst →
        Deprecates schema name field → ¬ Hides (hideUnusedDeprecatedProperties schema data) name field) ∧
      ∀ name field, Deprecates schema name field → (∀ owner, ¬ Carries data owner field) →
        Hides (hideUnusedDeprecatedProperties schema data) name field) ↔
    (∀ name key object field, DescribedAt schema data valid name key object → field ∈ object.map Prod.fst →
        Deprecates schema name field → (∀ owner, ¬ RefersDirectly schema name owner) ∨
          ∃ owner, RefersDirectly schema name owner ∧
            ∃ owner' field', Carries data owner' field' ∧ dotted owner field = dotted owner' field') ∧
      ∀ name field, Deprecates schema name field → (∀ owner, ¬ Carries data owner field) →
        ∀ owner' field', Carries data owner' field' →
          (∀ owner, RefersDirectly schema name owner → dotted owner field ≠ dotted owner' field') ∧
          ((∀ owner, ¬ RefersDirectly schema name owner) → ¬ '.' :: field <:+ dotted owner' field') := by
  refine and_congr ?_ ?_
  · refine forall_congr' fun name => forall_congr' fun key => forall_congr' fun object => forall_congr' fun field =>
      forall_congr' fun described => forall_congr' fun named => forall_congr' fun deprecates => ?_
    have carried := described.carries named
    rw [hides_iff deprecates, Bool.not_eq_false, isUsed_iff]
    simp only [mem_collectPresent]
    constructor
    · rintro (⟨owner, refers, found⟩ | ⟨none, -⟩)
      · exact .inr ⟨owner, refers, found⟩
      · exact .inl none
    · rintro (none | ⟨owner, refers, found⟩)
      · exact .inr ⟨none, _, ⟨key, field, carried, rfl⟩, List.suffix_append key ('.' :: field)⟩
      · exact .inl ⟨owner, refers, found⟩
  · refine forall_congr' fun name => forall_congr' fun field => forall_congr' fun deprecates => forall_congr' fun _ => ?_
    rw [hides_iff deprecates, ← Bool.not_eq_true, isUsed_iff]
    simp only [mem_collectPresent]
    constructor
    · intro unused owner' field' carried
      refine ⟨fun owner refers same => unused (.inl ⟨owner, refers, owner', field', carried, same⟩), fun none suffix => ?_⟩
      exact unused (.inr ⟨none, _, ⟨owner', field', carried, rfl⟩, suffix⟩)
    · rintro apart (⟨owner, refers, owner', field', carried, same⟩ | ⟨none, _, ⟨owner', field', carried, rfl⟩, suffix⟩)
      · exact (apart owner' field' carried).1 owner refers same
      · exact (apart owner' field' carried).2 none suffix

def refTo (name : Text) : Json := .obj [("$ref", .str ("#/$defs/" ++ name))]

/-- A definition with a deprecated field, to which two properties refer. -/
def sinkSchema : Json := .obj
  [("properties", .obj [("sink", refTo "FileConfig"),
      ("fallback", .obj [("anyOf", .arr [refTo "FileConfig", .obj [("type", .str "null")]])])]),
    ("$defs", .obj [("FileConfig", .obj [("properties", .obj [("path", .obj [("type", .str "string")]),
      ("idempotency", .obj [("description", .str "Deprecated: use name_by."), ("type", .str "boolean")])])])])]

def sinkEntry : Json := .obj [("sink", .obj [("path", .str "a")]), ("fallback", .obj [("path", .str "b"), ("idempotency", .bool true)])]

/-- A legacy value is hidden where its property may be null. -/
theorem nullable_field_hidden : (∀ valid, DescribedAt sinkSchema sinkEntry valid "FileConfig" "fallback"
      [("path", .str "b"), ("idempotency", .bool true)]) ∧ Deprecates sinkSchema "FileConfig" "idempotency" ∧
    Hides (hideUnusedDeprecatedProperties sinkSchema sinkEntry) "FileConfig" "idempotency" := by
  refine ⟨fun valid => ?_, ⟨_, rfl, by decide, by decide⟩, ⟨_, rfl, by decide⟩⟩
  refine ⟨_, _, _, _, _, .root, rfl, rfl, ?_⟩
  refine @Refers.nullable _ _ (refTo "FileConfig") _ _ List.mem_cons_self ?_ (.direct (by decide))
  decide

end MqBridge.Ui
