import MqBridgeApp.Config.Load
import MqBridgeApp.Config.Alike
import MqBridgeApp.Config.ConsumerValue

/-!
# Reading what was saved

A document a configuration is saved as is read as an alike configuration. It rests on the readers of
the configuration's parts that are not the application's.
-/

namespace MqBridge.Config
open Text

/-- A value is read as what it holds. -/
structure Crates.Lawful (crates : Crates) : Prop where
  string : ∀ text, crates.string (.str text) = some text
  bool : ∀ b, crates.bool (.bool b) = some b
  nat : ∀ n, crates.nat (.num (.ofNat n)) = some n
  int : ∀ i, crates.int (.num (.ofInt i)) = some i
  items : ∀ items, crates.items (.arr items) = some items
  table : ∀ entries, crates.table (.obj entries) = some entries
  fields : ∀ names entries, crates.fields names (.obj entries) = some entries

def AppConfig.entityEndpoints (config : AppConfig) : List Endpoint :=
  config.consumers.map (·.endpoint) ++ config.publishers.map (·.endpoint)

/-- What the endpoints and options of a configuration are saved as is read back. -/
structure Crates.ReadsBack (crates : Crates) (config : AppConfig) : Prop where
  endpoint : ∀ endpoint ∈ config.entityEndpoints, ∀ document, Shows document endpoint.toData →
    ∃ read, crates.endpoint document = some read ∧ SameDocuments read.toData endpoint.toData
  options : ∀ consumer ∈ config.consumers, ∀ entries, Shows (.obj entries) (.record consumer.options.toFields) →
    crates.routeOptions entries = some consumer.options

/-! ### Records by their parts -/

def fieldsOf (parts : List (Bool × Text × Data)) : List (Text × Data) :=
  parts.flatMap fun part => skippedIf part.1 part.2.1 part.2.2

def partNames (parts : List (Bool × Text × Data)) : List Text := parts.map fun part => part.2.1

theorem keys_fieldsOf (parts : List (Bool × Text × Data)) :
    ((fieldsOf parts).map Prod.fst).Sublist (partNames parts) := by
  induction parts with
  | nil => exact List.Sublist.slnil
  | cons part rest ih =>
    rw [fieldsOf, List.flatMap_cons, List.map_append]
    exact (skippedIf_keys part.1 part.2.1 part.2.2).append ih

theorem lookup_fieldsOf {parts : List (Bool × Text × Data)} (nodup : (partNames parts).Nodup) {skip : Bool}
    {name : Text} {data : Data} (member : (skip, name, data) ∈ parts) :
    (fieldsOf parts).lookup name = if skip then none else some data := by
  cases skip with
  | false =>
    apply Assoc.lookup_of_mem (nodup.sublist (keys_fieldsOf parts))
    exact List.mem_flatMap.mpr ⟨_, member, List.mem_singleton.mpr rfl⟩
  | true =>
    show _ = none
    rw [Assoc.lookup_eq_none]
    intro value there
    obtain ⟨⟨skip, name', data'⟩, inside, field⟩ := List.mem_flatMap.mp there
    cases skip with
    | true => cases field
    | false =>
      obtain ⟨rfl, rfl⟩ := Prod.mk.inj (List.mem_singleton.mp field)
      have same := List.inj_on_of_nodup_map nodup inside member rfl
      cases same

/-- The entries hold a record of these parts. -/
structure RecordHeld (drops : Bool) (entries : List (Text × Json)) (parts : List (Bool × Text × Data)) (names : List Text) : Prop where
  held : Holds drops (.obj entries) (.record (fieldsOf parts))
  named : partNames parts = names
  distinct : names.Nodup

section Parts
variable {drops : Bool} {α : Type*} {entries : List (Text × Json)} {parts : List (Bool × Text × Data)}
  {names aliases : List Text} {i : Nat} {skip : Bool} {name : Text} {data : Data} {f : Json → Option α} {P : α → Prop}

theorem RecordHeld.keys (record : RecordHeld drops entries parts names) : ((fieldsOf parts).map Prod.fst).Nodup := by
  have distinct := record.distinct
  rw [← record.named] at distinct
  exact distinct.sublist (keys_fieldsOf parts)

theorem RecordHeld.lookup (record : RecordHeld drops entries parts names) (here : parts[i]? = some (skip, name, data)) :
    (fieldsOf parts).lookup name = if skip then none else some data := by
  have distinct := record.distinct
  rw [← record.named] at distinct
  exact lookup_fieldsOf distinct (List.mem_of_getElem? here)

theorem RecordHeld.givenField (record : RecordHeld drops entries parts names)
    (unused : ∀ alias_ ∈ aliases, alias_ ∉ names) :
    givenField (name :: aliases) entries = some (entries.lookup name) := by
  obtain ⟨_, same, distinct, -, -⟩ := holds_record.mp record.held
  obtain rfl := Json.obj.inj same
  have alone : (entries.filter fun entry => decide (entry.1 ∈ name :: aliases)) =
      entries.filter fun entry => entry.1 == name := by
    apply List.filter_congr
    intro entry member
    have other : entry.1 ∉ aliases := by
      intro inside
      have absent : entries.lookup entry.1 = none := by
        apply lookup_unheld record.held
        rw [Assoc.lookup_eq_none]
        intro data found
        have named := (keys_fieldsOf parts).subset (List.mem_map.mpr ⟨_, found, rfl⟩)
        rw [record.named] at named
        exact absurd named (unused _ inside)
      rw [Assoc.lookup_of_mem distinct member] at absent
      cases absent
    rw [Bool.eq_iff_iff]
    simp [other]
  rw [Config.givenField, alone, Assoc.filter_key distinct]
  cases entries.lookup name <;> rfl

/-- A field of the document is read as what was saved, or as the default when it was left out. -/
theorem RecordHeld.optional (record : RecordHeld drops entries parts names)
    (here : parts[i]? = some (skip, name, data)) (unused : ∀ alias_ ∈ aliases, alias_ ∉ names) {d : α}
    (skipped : skip = true → P d) (full : skip = false → data.isNull = false)
    (reads : skip = false → ∀ value, Holds drops value data → ∃ a, f value = some a ∧ P a) :
    ∃ a, readOptional (name :: aliases) d f entries = some a ∧ P a := by
  unfold readOptional
  rw [record.givenField unused, Option.bind_some]
  have lookup := record.lookup here
  cases skip with
  | true =>
    rw [lookup_unheld record.held lookup]
    exact ⟨d, rfl, skipped rfl⟩
  | false =>
    obtain ⟨value, found, holds⟩ := lookup_held record.keys record.held lookup (full rfl)
    rw [found]
    exact reads rfl value holds

theorem RecordHeld.skippable (record : RecordHeld drops entries parts names) (here : parts[i]? = some (skip, name, data))
    {d : α} (skipped : skip = true → P d) (full : skip = false → data.isNull = false)
    (reads : skip = false → ∀ value, Holds drops value data → ∃ a, f value = some a ∧ P a) :
    ∃ a, readOptional [name] d f entries = some a ∧ P a :=
  record.optional here (fun _ member => absurd member List.not_mem_nil) skipped full reads

theorem RecordHeld.written (record : RecordHeld drops entries parts names)
    (here : parts[i]? = some (false, name, data)) (d : α) (full : data.isNull = false)
    (reads : ∀ value, Holds drops value data → ∃ a, f value = some a ∧ P a) :
    ∃ a, readOptional [name] d f entries = some a ∧ P a :=
  record.skippable here nofun (fun _ => full) fun _ => reads

theorem RecordHeld.required (record : RecordHeld drops entries parts names)
    (here : parts[i]? = some (false, name, data)) (full : data.isNull = false)
    (reads : ∀ value, Holds drops value data → ∃ a, f value = some a ∧ P a) :
    ∃ a, readRequired [name] f entries = some a ∧ P a := by
  unfold readRequired
  rw [record.givenField fun _ member => absurd member List.not_mem_nil, Option.bind_some]
  obtain ⟨value, found, holds⟩ := lookup_held record.keys record.held (record.lookup here) full
  rw [found]
  exact reads value holds

end Parts

/-! ### Scalars, lists and maps -/

section Values
variable {drops : Bool} {crates : Crates} (laws : crates.Lawful)
include laws

theorem string_held {text : Text} (value : Json) (held : Holds drops value (.str text)) :
    ∃ read, crates.string value = some read ∧ read = text := by
  obtain rfl := holds_str.mp held
  exact ⟨text, laws.string text, rfl⟩

theorem bool_held {b : Bool} (value : Json) (held : Holds drops value (.bool b)) :
    ∃ read, crates.bool value = some read ∧ read = b := by
  obtain rfl := holds_bool.mp held
  exact ⟨b, laws.bool b, rfl⟩

theorem nat_held {n : Nat} (value : Json) (held : Holds drops value (.num (.ofNat n))) :
    ∃ read, crates.nat value = some read ∧ read = n := by
  obtain rfl := holds_num.mp held
  exact ⟨n, laws.nat n, rfl⟩

omit laws in
theorem nullable_held {α : Type*} {data : Data} {read : Json → Option α} {P : α → Prop}
    (full : data.isNull = false) (value : Json) (held : Holds drops value data) (reads : ∃ a, read value = some a ∧ P a) :
    ∃ a, readNullable read value = some (some a) ∧ P a := by
  obtain ⟨a, found, holds⟩ := reads
  refine ⟨a, ?_, holds⟩
  cases value with
  | null =>
    rw [isNull_of_holds_null held] at full
    cases full
  | _ =>
    show (read _).map some = _
    rw [found]
    rfl

omit laws in
theorem mapM_held {α : Type*} {toData : α → Data} {read : Json → Option α} {r : α → α → Prop} {as : List α}
    {documents : List Json} (held : List.Forall₂ (Holds drops) documents (as.map toData))
    (reads : ∀ a ∈ as, ∀ value, Holds drops value (toData a) → ∃ b, read value = some b ∧ r b a) :
    ∃ bs, documents.mapM read = some bs ∧ List.Forall₂ r bs as := by
  induction as generalizing documents with
  | nil =>
    cases held
    exact ⟨[], rfl, .nil⟩
  | cons a as ih =>
    rw [List.map_cons] at held
    cases held with
    | cons head tail =>
      obtain ⟨b, found, related⟩ := reads a List.mem_cons_self _ head
      obtain ⟨bs, others, all⟩ := ih tail fun a member => reads a (List.mem_cons_of_mem _ member)
      refine ⟨b :: bs, ?_, .cons related all⟩
      rw [List.mapM_cons, found, others]
      rfl

theorem list_held {α : Type*} {toData : α → Data} {read : Json → Option α} {r : α → α → Prop} {as : List α}
    (value : Json) (held : Holds drops value (.seq (as.map toData)))
    (reads : ∀ a ∈ as, ∀ value, Holds drops value (toData a) → ∃ b, read value = some b ∧ r b a) :
    ∃ bs, crates.list read value = some bs ∧ List.Forall₂ r bs as := by
  obtain ⟨documents, rfl, all⟩ := holds_seq.mp held
  obtain ⟨bs, found, related⟩ := mapM_held all reads
  exact ⟨bs, by rw [Crates.list, laws.items, Option.bind_some, found], related⟩

omit laws in
theorem entities_held {α : Type*} {toData : α → Data} {read : Nat → Json → Option (α × Nat)} {r : α → α → Prop}
    {as : List α} {documents : List Json} {used : Nat} (held : List.Forall₂ (Holds drops) documents (as.map toData))
    (reads : ∀ a ∈ as, ∀ value, Holds drops value (toData a) → ∃ b, read used value = some (b, used) ∧ r b a) :
    ∃ bs, readEntities read documents used = some (bs, used) ∧ List.Forall₂ r bs as := by
  induction as generalizing documents with
  | nil =>
    cases held
    exact ⟨[], rfl, .nil⟩
  | cons a as ih =>
    rw [List.map_cons] at held
    cases held with
    | cons head tail =>
      obtain ⟨b, found, related⟩ := reads a List.mem_cons_self _ head
      obtain ⟨bs, others, all⟩ := ih tail fun a member => reads a (List.mem_cons_of_mem _ member)
      refine ⟨b :: bs, ?_, .cons related all⟩
      rw [readEntities, found, Option.bind_some, others]
      rfl

theorem entityList_held {α : Type*} {toData : α → Data} {read : Nat → Json → Option (α × Nat)} {r : α → α → Prop}
    {as : List α} {used : Nat} (value : Json) (held : Holds drops value (.seq (as.map toData)))
    (reads : ∀ a ∈ as, ∀ value, Holds drops value (toData a) → ∃ b, read used value = some (b, used) ∧ r b a) :
    ∃ bs : List α × Nat, ((crates.items value).bind fun items => readEntities read items used) = some bs ∧
      List.Forall₂ r bs.1 as ∧ bs.2 = used := by
  obtain ⟨documents, rfl, all⟩ := holds_seq.mp held
  obtain ⟨bs, found, related⟩ := entities_held all reads
  exact ⟨(bs, used), by rw [laws.items, Option.bind_some, found], related, rfl⟩

end Values

/-! ### Hash maps -/

mutual
theorem ofJson_toValue : ∀ value : Json, (ofJson value).toValue = value
  | .null => rfl
  | .bool _ => rfl
  | .num _ => rfl
  | .str _ => rfl
  | .arr items => by rw [ofJson, Data.toValue, ofJsons_toValues items]
  | .obj entries => by rw [ofJson, Data.toValue, ofEntries_toEntries entries]
theorem ofJsons_toValues : ∀ items : List Json, Data.toValues (ofJsons items) = items
  | [] => rfl
  | item :: rest => by rw [ofJsons, Data.toValues, ofJson_toValue item, ofJsons_toValues rest]
theorem ofEntries_toEntries : ∀ entries : List (Text × Json), Data.toEntries (ofEntries entries) = entries
  | [] => rfl
  | (key, value) :: rest => by rw [ofEntries, Data.toEntries, ofJson_toValue value, ofEntries_toEntries rest]
end

theorem mem_stripNullEntries {entries : List (Text × Json)} {entry : Text × Json}
    (member : entry ∈ stripNullEntries entries) :
    ∃ value, (entry.1, value) ∈ entries ∧ value.isNull = false ∧ entry.2 = stripNulls value := by
  induction entries with
  | nil => cases member
  | cons first rest ih =>
    obtain ⟨key, value⟩ := first
    rw [stripNullEntries] at member
    have later : entry ∈ stripNullEntries rest → ∃ value', (entry.1, value') ∈ (key, value) :: rest ∧
        value'.isNull = false ∧ entry.2 = stripNulls value' := by
      intro inside
      obtain ⟨value', there, full, same⟩ := ih inside
      exact ⟨value', List.mem_cons_of_mem _ there, full, same⟩
    split at member
    · exact later member
    · next full =>
      rcases List.mem_cons.mp member with rfl | inside
      · exact ⟨value, List.mem_cons_self, by simpa using full, rfl⟩
      · exact later inside

theorem stripNulls_isNull (value : Json) : (stripNulls value).isNull = value.isNull := by
  cases value <;> rfl

theorem isNull_of_same {a b : Json} (same : a.same b = true) : a.isNull = b.isNull := by
  cases a <;> cases b <;> first | rfl | cases same

mutual
theorem stripNulls_of_same : ∀ {document value : Json}, document.same (stripNulls value) = true →
    stripNulls document = document
  | .null, _, _ => rfl
  | .bool _, _, _ => rfl
  | .num _, _, _ => rfl
  | .str _, _, _ => rfl
  | .arr items, value, same => by
    cases value <;> simp only [stripNulls, Json.same, Bool.false_eq_true] at same
    rw [stripNulls, stripNullItems_of_same same]
  | .obj entries, value, same => by
    cases value <;> simp only [stripNulls, Json.same, Bool.false_eq_true, Bool.and_eq_true] at same
    rw [stripNulls, stripNullEntries_of_same same.2]
theorem stripNullItems_of_same : ∀ {documents values : List Json},
    Json.sameItems documents (stripNullItems values) = true → stripNullItems documents = documents
  | [], _, _ => rfl
  | document :: rest, [], same => by simp [stripNullItems, Json.sameItems] at same
  | document :: rest, value :: values, same => by
    simp only [stripNullItems, Json.sameItems, Bool.and_eq_true] at same
    rw [stripNullItems, stripNulls_of_same same.1, stripNullItems_of_same same.2]
theorem stripNullEntries_of_same : ∀ {entries values : List (Text × Json)},
    Json.sameEntries entries (stripNullEntries values) = true → stripNullEntries entries = entries
  | [], _, _ => rfl
  | (key, document) :: rest, values, same => by
    simp only [Json.sameEntries, Bool.and_eq_true] at same
    cases found : (stripNullEntries values).lookup key with
    | none => simp [found] at same
    | some other =>
      simp only [found] at same
      obtain ⟨value, -, full, stripped⟩ := mem_stripNullEntries (Assoc.mem_of_lookup found)
      simp only at stripped
      subst stripped
      have kept : ¬ document.isNull = true := by
        rw [isNull_of_same same.1, stripNulls_isNull, full]
        decide
      rw [stripNullEntries, if_neg kept, stripNulls_of_same same.1, stripNullEntries_of_same same.2]
end

theorem mapM_some {α β : Type*} (f : α → β) (as : List α) : as.mapM (fun a => some (f a)) = some (as.map f) := by
  induction as with
  | nil => rfl
  | cons a as ih =>
    rw [List.mapM_cons, ih]
    rfl

section Maps
variable {drops : Bool} {crates : Crates} (laws : crates.Lawful)
include laws

theorem textMap_shown {entries : List (Text × Text)} (value : Json) (held : Shows value (.textMap entries)) :
    ∃ read, crates.hashMap crates.string value = some read ∧ (read.map Prod.fst).Nodup ∧
      SameDocuments (.textMap read) (.textMap entries) := by
  obtain ⟨documents, rfl, nodup, -, each⟩ := shows_record.mp held
  have texts : ∀ entry ∈ documents, ∃ text, entry.2 = .str text := by
    intro entry member
    obtain ⟨data, found, holds⟩ := each entry member
    have inside := (List.mem_filter.mp (Assoc.mem_of_lookup found)).1
    obtain ⟨⟨_, text⟩, -, same⟩ := List.mem_map.mp inside
    obtain ⟨-, rfl⟩ := Prod.mk.inj same
    exact ⟨text, holds_str.mp (shows_iff.mp holds)⟩
  obtain ⟨read, written⟩ : ∃ read : List (Text × Text), documents = read.map fun entry => (entry.1, Json.str entry.2) := by
    clear held nodup each
    induction documents with
    | nil => exact ⟨[], rfl⟩
    | cons entry rest ih =>
      obtain ⟨read, rfl⟩ := ih fun entry member => texts entry (List.mem_cons_of_mem _ member)
      obtain ⟨text, same⟩ := texts entry List.mem_cons_self
      exact ⟨(entry.1, text) :: read, by rw [List.map_cons, ← same]⟩
  subst written
  have keys : (read.map Prod.fst).Nodup := by
    rw [List.map_map] at nodup
    exact nodup
  refine ⟨read, ?_, keys, sameDocuments_of_shown ?_⟩
  · have strings : (read.map fun entry => (entry.1, Json.str entry.2)).mapM
        (fun entry => (crates.string entry.2).map fun value => (entry.1, value)) = some read := by
      rw [List.mapM_map]
      have each : (fun entry : Text × Text => (crates.string (Json.str entry.2)).map fun value => (entry.1, value)) =
          fun entry => some (id entry) := funext fun entry => by rw [laws.string]; rfl
      exact (congrArg (fun f => read.mapM f) each).trans ((mapM_some id read).trans (by rw [List.map_id]))
    rw [Crates.hashMap, laws.table, Option.bind_some, strings, Option.map_some, Assoc.insertAll_of_nodup (by simpa using keys),
      List.nil_append]
  · rw [Data.toEntries_textMap, stripNulls_of_same held.2]
    exact held

omit laws in
/-- A map of texts has no nulls to drop. -/
theorem holds_textMap {entries : List (Text × Text)} {value : Json} :
    Holds drops value (.textMap entries) ↔ Shows value (.textMap entries) := by
  have stripped : stripNulls (Data.textMap entries).toValue = (Data.textMap entries).toValue := by
    rw [Data.toEntries_textMap, stripNulls]
    congr 1
    induction entries with
    | nil => rfl
    | cons entry rest ih =>
      rw [List.map_cons, stripNullEntries, ih]
      rfl
  cases drops with
  | true => exact Iff.rfl
  | false =>
    rw [Shows, stripped]
    rfl

theorem textMap_held {entries : List (Text × Text)} (value : Json) (held : Holds drops value (.textMap entries)) :
    ∃ read, crates.hashMap crates.string value = some read ∧ (read.map Prod.fst).Nodup ∧
      SameDocuments (.textMap read) (.textMap entries) := textMap_shown laws value (holds_textMap.mp held)

theorem history_held {history : List (Text × Json)} (value : Json) (held : Holds drops value (historyData history)) :
    ∃ read, crates.hashMap some value = some read ∧ Holds drops (.obj read) (historyData history) := by
  obtain ⟨documents, rfl, nodup, -, -⟩ := holds_record.mp (holds_map.mp held)
  have all : documents.mapM (fun entry => (some entry.2).map fun value => (entry.1, value)) = some documents :=
    (mapM_some id documents).trans (by rw [List.map_id])
  refine ⟨documents, ?_, held⟩
  rw [Crates.hashMap, laws.table, Option.bind_some, all, Option.map_some, Assoc.insertAll_of_nodup (by simpa using nodup),
    List.nil_append]

end Maps

/-! ### The parts of a configuration -/

section Records
variable {drops : Bool} {crates : Crates} (laws : crates.Lawful)
include laws

theorem headerRow_held (row : HeaderRow) (value : Json) (held : Holds drops value row.toData) :
    ∃ read, HeaderRow.read crates value = some read ∧ read = row := by
  obtain ⟨entries, rfl, -⟩ := holds_record.mp held
  have record : RecordHeld drops entries
      [(false, "key", .str row.key), (false, "value", .str row.value), (false, "enabled", .bool row.enabled)]
      ["key", "value", "enabled"] := ⟨held, rfl, by decide⟩
  obtain ⟨key, readKey, rfl⟩ := record.written (i := 0) rfl [] rfl (string_held laws)
  obtain ⟨text, readText, rfl⟩ := record.written (i := 1) rfl [] rfl (string_held laws)
  obtain ⟨enabled, readEnabled, rfl⟩ := record.written (i := 2) rfl true rfl (bool_held laws)
  refine ⟨row, ?_, rfl⟩
  unfold HeaderRow.read
  simp only [laws.fields, readKey, readText, readEnabled, Option.bind_eq_bind, Option.bind_some]
  rfl

theorem response_held (response : ConsumerResponseConfig) (value : Json) (held : Holds drops value response.toData) :
    ∃ read, ConsumerResponseConfig.read crates value = some read ∧ read.Alike response := by
  obtain ⟨entries, rfl, -⟩ := holds_record.mp held
  have record : RecordHeld drops entries
      [(false, "headers", .textMap response.headers.entries), (false, "payload", .str response.payload)]
      ["headers", "payload"] := ⟨held, rfl, by decide⟩
  obtain ⟨headers, readHeaders, sameHeaders⟩ := record.written (i := 0)
    (P := fun map : TextMap => SameDocuments (.textMap map.entries) (.textMap response.headers.entries))
    (f := fun given => (crates.hashMap crates.string given).map TextMap.ofEntries) rfl {} rfl fun value held => by
      obtain ⟨read, found, nodup, same⟩ := textMap_held laws value held
      have own : (TextMap.ofEntries read).entries = read := Assoc.insertAll_of_nodup (l := []) nodup
      refine ⟨TextMap.ofEntries read, by rw [found, Option.map_some], ?_⟩
      rw [own]
      exact same
  obtain ⟨payload, readPayload, rfl⟩ := record.written (i := 1) rfl [] rfl (string_held laws)
  refine ⟨⟨headers, response.payload⟩, ?_, ⟨sameHeaders, rfl⟩⟩
  unfold ConsumerResponseConfig.read
  simp only [laws.fields, readHeaders, readPayload, Option.bind_eq_bind, Option.bind_some]
  rfl

theorem nullableResponse_held {response : Option ConsumerResponseConfig} (given : response.isNone = false) (value : Json)
    (held : Holds drops value (.option ConsumerResponseConfig.toData response)) :
    ∃ read, readNullable (ConsumerResponseConfig.read crates) value = some read ∧
      Option.Rel ConsumerResponseConfig.Alike read response := by
  cases response with
  | none => cases given
  | some answer =>
    obtain ⟨read, found, alike⟩ := nullable_held rfl value held (response_held laws answer value held)
    exact ⟨some read, found, .some alike⟩

theorem output_held (output : ConsumerOutputConfig) (value : Json) (held : Holds drops value output.toData) :
    ∃ read, ConsumerOutputConfig.read crates value = some read ∧ read.Alike output := by
  obtain ⟨entries, rfl, -⟩ := holds_record.mp held
  unfold ConsumerOutputConfig.read
  rw [laws.table]
  cases output with
  | none =>
    have record : RecordHeld drops entries [(false, "mode", .str "none")] ["mode"] := ⟨held, rfl, by decide⟩
    obtain ⟨mode, readMode, rfl⟩ := record.required (i := 0) rfl rfl (string_held laws)
    exact ⟨.none, by simp only [readMode, Option.bind_eq_bind, Option.bind_some]; rfl, .none⟩
  | publisher name id =>
    have record : RecordHeld drops entries
        [(false, "mode", .str "publisher"), (false, "publisher", .str name), (id.isNone, "publisher_id", .option .str id)]
        ["mode", "publisher", "publisher_id"] := by
      refine ⟨?_, rfl, by decide⟩
      have fields : fieldsOf [(false, "mode", .str "publisher"), (false, "publisher", .str name),
          (id.isNone, "publisher_id", .option .str id)] = (ConsumerOutputConfig.publisher name id).toFields := by
        cases id <;> rfl
      rw [fields]
      exact held
    obtain ⟨mode, readMode, rfl⟩ := record.required (i := 0) rfl rfl (string_held laws)
    obtain ⟨publisher, readPublisher, rfl⟩ := record.required (i := 1) rfl rfl (string_held laws)
    obtain ⟨publisherId, readId, same⟩ := record.skippable (i := 2) (P := fun read : Option Text => read = id)
      (f := readNullable crates.string) (d := none) rfl (by cases id <;> simp) (by cases id <;> simp [Data.option, Data.isNull])
      fun given value held => by
        cases id with
        | none => cases given
        | some id =>
          obtain ⟨read, found, rfl⟩ := nullable_held rfl value held (string_held laws value held)
          exact ⟨some read, found, rfl⟩
    subst same
    refine ⟨.publisher publisher publisherId, ?_, .publisher publisher publisherId⟩
    simp only [readMode, Option.bind_eq_bind, Option.bind_some]
    unfold readOutputAs
    rw [if_neg (by decide), if_pos rfl]
    simp only [readPublisher, readId, Option.bind_eq_bind, Option.bind_some]
    rfl
  | response answer =>
    have record : RecordHeld drops entries
        [(false, "mode", .str "response"), (answer.isNone, "response", .option ConsumerResponseConfig.toData answer)]
        ["mode", "response"] := by
      refine ⟨?_, rfl, by decide⟩
      have fields : fieldsOf [(false, "mode", .str "response"),
          (answer.isNone, "response", .option ConsumerResponseConfig.toData answer)] =
          (ConsumerOutputConfig.response answer).toFields := by
        cases answer <;> rfl
      rw [fields]
      exact held
    obtain ⟨mode, readMode, rfl⟩ := record.required (i := 0) rfl rfl (string_held laws)
    obtain ⟨response, readResponse, same⟩ := record.skippable (i := 1)
      (P := fun read => Option.Rel ConsumerResponseConfig.Alike read answer)
      (f := readNullable (ConsumerResponseConfig.read crates)) (d := none) rfl
      (by cases answer <;> simp) (by cases answer <;> simp [Data.option, Data.isNull, ConsumerResponseConfig.toData])
      (nullableResponse_held laws)
    refine ⟨.response response, ?_, .response same⟩
    simp only [readMode, Option.bind_eq_bind, Option.bind_some]
    unfold readOutputAs
    rw [if_neg (by decide), if_neg (by decide), if_pos rfl, readResponse, Option.map_some]

theorem messageCapture_held (capture : ConsumerMessageCaptureConfig) (value : Json) (held : Holds drops value capture.toData) :
    ∃ read, ConsumerMessageCaptureConfig.read crates value = some read ∧ read = capture := by
  obtain ⟨entries, rfl, -⟩ := holds_record.mp held
  have record : RecordHeld drops entries
      [(false, "enabled", .bool capture.enabled), (false, "keep_last", .num (.ofNat capture.keepLast))]
      ["enabled", "keep_last"] := ⟨held, rfl, by decide⟩
  obtain ⟨enabled, readEnabled, rfl⟩ := record.written (i := 0) rfl true rfl (bool_held laws)
  obtain ⟨keepLast, readKeep, rfl⟩ := record.optional (i := 1) (d := 100) rfl
    (by decide : ∀ a ∈ (["keepLast"] : List Text), _) nofun (fun _ => rfl) fun _ => nat_held laws
  refine ⟨capture, ?_, rfl⟩
  unfold ConsumerMessageCaptureConfig.read
  simp only [laws.fields, readEnabled, readKeep, Option.bind_eq_bind, Option.bind_some]
  rfl

omit laws in
theorem ofLabel_label (mode : ConfigSecurityMode) : ConfigSecurityMode.ofLabel mode.label = some mode := by
  cases mode <;> decide

theorem security_held (security : ConfigSecurity) (value : Json) (held : Holds drops value security.toData) :
    ∃ read, ConfigSecurity.read crates value = some read ∧ read = security := by
  obtain ⟨entries, rfl, -⟩ := holds_record.mp held
  have record : RecordHeld drops entries [(false, "mode", .str security.mode.label)] ["mode"] := ⟨held, rfl, by decide⟩
  obtain ⟨mode, readMode, rfl⟩ := record.written (i := 0) (P := fun mode => mode = security.mode)
    (f := fun given => (crates.string given).bind ConfigSecurityMode.ofLabel) rfl .balanced rfl fun value held => by
      obtain rfl := holds_str.mp held
      exact ⟨security.mode, by rw [laws.string, Option.bind_some, ofLabel_label], rfl⟩
  refine ⟨security, ?_, rfl⟩
  unfold ConfigSecurity.read
  simp only [laws.fields, readMode, Option.bind_eq_bind, Option.bind_some]
  rfl

end Records

/-! ### Consumers and publishers -/

theorem endpoint_full (endpoint : Endpoint) : endpoint.toData.isNull = false := by
  cases endpoint
  rfl

def ConsumerConfig.parts (consumer : ConsumerConfig) : List (Bool × Text × Data) :=
  ([(false, "id", .str consumer.id), (false, "name", .str consumer.name),
    (consumer.enabled, "enabled", .bool consumer.enabled), (false, "endpoint", consumer.endpoint.toData),
    (false, "comment", .str consumer.comment),
    (consumer.response.isNone, "response", .option ConsumerResponseConfig.toData consumer.response),
    (consumer.output.isNone, "output", consumer.output.toData),
    (false, "message_capture", consumer.messageCapture.toData)] : List (Bool × Text × Data)) ++
  consumer.options.toFields.map fun field => (false, field.1, field.2)

theorem ConsumerConfig.fieldsOf_parts (consumer : ConsumerConfig) : fieldsOf consumer.parts = consumer.toFields := by
  unfold ConsumerConfig.toFields
  simp only [List.append_assoc]
  rfl

section Entities
variable {drops : Bool} {crates : Crates} (laws : crates.Lawful)
include laws

theorem id_held {entries : List (Text × Json)} {parts : List (Bool × Text × Data)} {names : List Text} {i : Nat}
    {id : Text} (record : RecordHeld drops entries parts names) (here : parts[i]? = some (false, ("id" : Text), Data.str id))
    (ids : IdSupply) (used : Nat) : crates.readId ids used entries = some (id, used) := by
  obtain ⟨read, found, rfl⟩ := record.written (P := fun read => read = (id, used))
    (f := fun given => (crates.string given).map fun id => (id, used)) here (ids used, used + 1) rfl
    fun value held => by
      obtain ⟨read, found, rfl⟩ := string_held laws value held
      exact ⟨(read, used), by rw [found, Option.map_some], rfl⟩
  exact found

theorem consumer_held (consumer : ConsumerConfig)
    (endpoint : ∀ document, Holds drops document consumer.endpoint.toData →
      ∃ read, crates.endpoint document = some read ∧ SameDocuments read.toData consumer.endpoint.toData)
    (options : ∀ entries, Holds drops (.obj entries) (.record consumer.options.toFields) →
      crates.routeOptions entries = some consumer.options)
    (ids : IdSupply) (used : Nat) (value : Json) (held : Holds drops value consumer.toData) :
    ∃ read, ConsumerConfig.read crates ids used value = some (read, used) ∧ read.Alike consumer := by
  obtain ⟨entries, rfl, -⟩ := holds_record.mp held
  have fields : Holds drops (.obj entries) (.record (fieldsOf consumer.parts)) := by
    rw [consumer.fieldsOf_parts]
    exact held
  have record : RecordHeld drops entries consumer.parts consumerKeys := ⟨fields, rfl, by decide⟩
  have readId := id_held laws record (i := 0) rfl ids used
  obtain ⟨name, readName, rfl⟩ := record.written (i := 1) rfl [] rfl (string_held laws)
  obtain ⟨enabled, readEnabled, rfl⟩ := record.skippable (i := 2) (d := true) (P := fun read => read = consumer.enabled)
    rfl Eq.symm (fun _ => rfl) fun _ => bool_held laws
  obtain ⟨read, readEndpoint, sameEndpoint⟩ := record.required (i := 3) rfl (endpoint_full _) endpoint
  obtain ⟨comment, readComment, rfl⟩ := record.written (i := 4) rfl [] rfl (string_held laws)
  obtain ⟨response, readResponse, sameResponse⟩ := record.skippable (i := 5)
    (P := fun read => Option.Rel ConsumerResponseConfig.Alike read consumer.response)
    (f := readNullable (ConsumerResponseConfig.read crates)) (d := none) rfl
    (by cases consumer.response <;> simp)
    (by cases consumer.response <;> simp [Data.option, Data.isNull, ConsumerResponseConfig.toData])
    (nullableResponse_held laws)
  obtain ⟨output, readOutput, sameOutput⟩ := record.skippable (i := 6) (P := fun read : ConsumerOutputConfig => read.Alike consumer.output)
    (d := ConsumerOutputConfig.none) rfl
    (fun none => by
      cases given : consumer.output with
      | none => exact .none
      | publisher _ _ => rw [given] at none; cases none
      | response _ => rw [given] at none; cases none)
    (fun _ => rfl) fun _ => output_held laws consumer.output
  obtain ⟨capture, readCapture, rfl⟩ := record.written (i := 7) rfl {} rfl (messageCapture_held laws consumer.messageCapture)
  have rest : Holds drops (.obj (entries.filter fun entry => decide (entry.1 ∉ consumerFields))) (.record consumer.options.toFields) := by
    have picked := holds_filter record.keys fields fun key => decide (key ∉ consumerFields)
    have left : ((fieldsOf consumer.parts).filter fun field => decide (field.1 ∉ consumerFields)) =
        consumer.options.toFields := by
      have own : ∀ (skip : Bool) {name : Text} (data : Data), name ∈ consumerFields →
          ((skippedIf skip name data).filter fun field => decide (field.1 ∉ consumerFields)) = [] := by
        intro skip name data inside
        cases skip <;> simp [skippedIf, written, inside]
      have others : (consumer.options.toFields.filter fun field => decide (field.1 ∉ consumerFields)) =
          consumer.options.toFields := rfl
      rw [consumer.fieldsOf_parts, ConsumerConfig.toFields]
      simp only [List.filter_append, others]
      rw [own _ _ (by decide : ("response" : Text) ∈ consumerFields), own _ _ (by decide : ("output" : Text) ∈ consumerFields),
        own _ _ (by decide : ("enabled" : Text) ∈ consumerFields)]
      rfl
    rw [left] at picked
    exact picked
  refine ⟨⟨consumer.id, consumer.name, consumer.enabled, read, consumer.comment, response, output, consumer.messageCapture,
    consumer.options⟩, ?_, ⟨rfl, rfl, rfl, sameEndpoint, rfl, sameResponse, sameOutput, rfl, rfl⟩⟩
  unfold ConsumerConfig.read
  simp only [laws.table, readId, readName, readEnabled, readEndpoint, readComment, readResponse, readOutput, readCapture,
    options _ rest, Option.bind_eq_bind, Option.bind_some]
  rfl

def PublisherClient.parts (publisher : PublisherClient) : List (Bool × Text × Data) :=
  [(false, "id", .str publisher.id), (false, "name", .str publisher.name), (false, "endpoint", publisher.endpoint.toData),
    (false, "comment", .str publisher.comment), (publisher.payload.isEmpty, "payload", .str publisher.payload),
    (publisher.headers.isEmpty, "headers", .seq (publisher.headers.map HeaderRow.toData)),
    (publisher.sortOrder.isNone, "sort_order", .option (fun order => .num (.ofInt order)) publisher.sortOrder)]

omit laws in
theorem PublisherClient.fieldsOf_parts (publisher : PublisherClient) :
    .record (fieldsOf publisher.parts) = publisher.toData := by
  unfold PublisherClient.toData
  simp only [List.append_assoc]
  show Data.record _ = Data.record _
  congr 1
  simp [fieldsOf, PublisherClient.parts, written, skippedIf]

theorem publisher_held (publisher : PublisherClient)
    (endpoint : ∀ document, Holds drops document publisher.endpoint.toData →
      ∃ read, crates.endpoint document = some read ∧ SameDocuments read.toData publisher.endpoint.toData)
    (ids : IdSupply) (used : Nat) (value : Json) (held : Holds drops value publisher.toData) :
    ∃ read, PublisherClient.read crates ids used value = some (read, used) ∧ read.Alike publisher := by
  obtain ⟨entries, rfl, -⟩ := holds_record.mp held
  have record : RecordHeld drops entries publisher.parts publisherFields := by
    refine ⟨?_, rfl, by decide⟩
    rw [publisher.fieldsOf_parts]
    exact held
  have readId := id_held laws record (i := 0) rfl ids used
  obtain ⟨name, readName, rfl⟩ := record.written (i := 1) rfl [] rfl (string_held laws)
  obtain ⟨read, readEndpoint, sameEndpoint⟩ := record.required (i := 2) rfl (endpoint_full _) endpoint
  obtain ⟨comment, readComment, rfl⟩ := record.written (i := 3) rfl [] rfl (string_held laws)
  obtain ⟨payload, readPayload, rfl⟩ := record.skippable (i := 4) (P := fun read => read = publisher.payload) rfl
    (fun empty => (List.isEmpty_iff.mp empty).symm) (fun _ => rfl) fun _ => string_held laws
  obtain ⟨headers, readHeaders, sameHeaders⟩ := record.skippable (i := 5)
    (P := fun read => List.Forall₂ (fun a b : HeaderRow => a = b) read publisher.headers)
    (f := crates.list (HeaderRow.read crates)) (d := []) rfl
    (fun empty => by rw [List.isEmpty_iff.mp empty]; exact .nil) (fun _ => rfl)
    fun _ value held => list_held laws value held fun row _ => headerRow_held laws row
  obtain rfl : headers = publisher.headers := by
    rw [List.forall₂_eq_eq_eq] at sameHeaders
    exact sameHeaders
  obtain ⟨sortOrder, readOrder, sameOrder⟩ := record.optional (i := 6) (P := fun read => read = publisher.sortOrder)
    (f := readNullable crates.int) (d := none) rfl (by decide : ∀ a ∈ (["sortOrder"] : List Text), _)
    (by cases publisher.sortOrder <;> simp) (by cases publisher.sortOrder <;> simp [Data.option, Data.isNull])
    fun given value held => by
      cases order : publisher.sortOrder with
      | none => rw [order] at given; cases given
      | some i =>
        rw [order] at held
        obtain ⟨read, found, rfl⟩ := nullable_held rfl value held (P := fun read => read = i) (by
          obtain rfl := holds_num.mp held
          exact ⟨i, laws.int i, rfl⟩)
        exact ⟨some read, found, rfl⟩
  subst sameOrder
  refine ⟨⟨publisher.id, publisher.name, read, publisher.comment, publisher.payload, publisher.headers,
    publisher.sortOrder⟩, ?_, ⟨rfl, rfl, sameEndpoint, rfl, rfl, rfl, rfl⟩⟩
  unfold PublisherClient.read
  simp only [laws.fields, readId, readName, readEndpoint, readComment, readPayload, readHeaders, readOrder,
    Option.bind_eq_bind, Option.bind_some]
  rfl

end Entities

/-! ### Routes -/

def Route.toFields (route : Route) : List (Text × Data) :=
  ("input", route.input.toData) :: ("output", route.output.toData) :: route.options.toFields

/-- What the parts of a configuration are written as is read back. -/
structure Crates.ReadsParts (drops : Bool) (crates : Crates) (config : AppConfig) : Prop where
  endpoint : ∀ endpoint ∈ config.entityEndpoints, ∀ document, Holds drops document endpoint.toData →
    ∃ read, crates.endpoint document = some read ∧ SameDocuments read.toData endpoint.toData
  options : ∀ consumer ∈ config.consumers, ∀ entries, Holds drops (.obj entries) (.record consumer.options.toFields) →
    crates.routeOptions entries = some consumer.options
  route : ∀ entry ∈ config.routes, ∀ entries, Holds drops (.obj entries) (.record (Route.toFields entry.2.route)) →
    ∃ read, crates.route entries = some read ∧ read.Alike entry.2.route

def RouteConfig.parts (config : RouteConfig) : List (Bool × Text × Data) :=
  (false, "enabled", .bool config.enabled) :: (Route.toFields config.route).map fun field => (false, field.1, field.2)

def routeKeys : List Text :=
  ["enabled", "input", "output", "description", "concurrency", "batch_size", "commit_concurrency_limit",
    "startup_timeout_ms", "reconnect_interval_ms", "empty_batch_delay_ms", "allow_fault_injection", "exit_on_empty"]

section Routes
variable {drops : Bool} {crates : Crates} (laws : crates.Lawful)
include laws

theorem routeConfig_held (config : RouteConfig)
    (route : ∀ entries, Holds drops (.obj entries) (.record (Route.toFields config.route)) →
      ∃ read, crates.route entries = some read ∧ read.Alike config.route)
    (value : Json) (held : Holds drops value config.toData) :
    ∃ read, RouteConfig.read crates value = some read ∧ read.Alike config := by
  obtain ⟨entries, rfl, -⟩ := holds_record.mp held
  have record : RecordHeld drops entries config.parts routeKeys := ⟨held, rfl, by decide⟩
  obtain ⟨enabled, readEnabled, rfl⟩ := record.written (i := 0) rfl true rfl (bool_held laws)
  have rest := holds_filter record.keys record.held fun key => key != ("enabled" : Text)
  obtain ⟨read, readRoute, alike⟩ := route _ rest
  refine ⟨⟨config.enabled, read⟩, ?_, ⟨rfl, alike⟩⟩
  unfold RouteConfig.read
  simp only [laws.table, readEnabled, readRoute, Option.bind_eq_bind, Option.bind_some]
  rfl

/-- A hash map is read entry by entry. -/
theorem map_held {α : Type*} {toData : α → Data} (full : ∀ a, (toData a).isNull = false) {read : Json → Option α}
    {r : α → α → Prop} {as : List (Text × α)} (value : Json)
    (held : Holds drops value (.map (as.map fun entry => (entry.1, toData entry.2))))
    (reads : ∀ entry ∈ as, ∀ value, Holds drops value (toData entry.2) → ∃ b, read value = some b ∧ r b entry.2) :
    ∃ bs, crates.hashMap read value = some bs ∧ ∀ name, Option.Rel r (bs.lookup name) (as.lookup name) := by
  obtain ⟨documents, rfl, nodup, -, each⟩ := holds_record.mp (holds_map.mp held)
  have all : members drops (as.map fun entry => (entry.1, toData entry.2)) =
      as.map fun entry => (entry.1, toData entry.2) := by
    apply List.filter_eq_self.mpr
    intro field member
    obtain ⟨entry, -, rfl⟩ := List.mem_map.mp member
    simp [full]
  have keys := keys_perm_members (holds_map.mp held)
  rw [all, List.map_map] at keys
  have readEach : ∀ entry ∈ documents, ∃ b, read entry.2 = some b ∧ ∃ a, as.lookup entry.1 = some a ∧ r b a := by
    intro entry member
    obtain ⟨data, found, holds⟩ := each entry member
    rw [all, Assoc.lookup_map, Option.map_eq_some_iff] at found
    obtain ⟨a, there, rfl⟩ := found
    obtain ⟨b, readHere, related⟩ := reads _ (Assoc.mem_of_lookup there) _ holds
    exact ⟨b, readHere, a, there, related⟩
  obtain ⟨bs, readAll, same, related⟩ : ∃ bs, documents.mapM (fun entry => (read entry.2).map fun value => (entry.1, value)) =
      some bs ∧ bs.map Prod.fst = documents.map Prod.fst ∧ ∀ entry ∈ bs, ∃ a, as.lookup entry.1 = some a ∧ r entry.2 a := by
    clear nodup each keys held
    induction documents with
    | nil => exact ⟨[], rfl, rfl, nofun⟩
    | cons entry rest ih =>
      obtain ⟨b, readHere, a, there, related⟩ := readEach entry List.mem_cons_self
      obtain ⟨bs, readRest, same, others⟩ := ih fun entry member => readEach entry (List.mem_cons_of_mem _ member)
      refine ⟨(entry.1, b) :: bs, by rw [List.mapM_cons, readHere, readRest]; rfl, by rw [List.map_cons, same, List.map_cons], ?_⟩
      intro entry' member
      rcases List.mem_cons.mp member with rfl | later
      · exact ⟨a, there, related⟩
      · exact others entry' later
  have distinct : (bs.map Prod.fst).Nodup := by rw [same]; exact nodup
  refine ⟨bs, ?_, fun name => ?_⟩
  · rw [Crates.hashMap, laws.table, Option.bind_some, readAll, Option.map_some,
      Assoc.insertAll_of_nodup (by simpa using distinct), List.nil_append]
  · cases found : bs.lookup name with
    | some b =>
      obtain ⟨a, there, near⟩ := related _ (Assoc.mem_of_lookup found)
      rw [there]
      exact .some near
    | none =>
      have absent : as.lookup name = none := by
        rw [Assoc.lookup_eq_none] at found ⊢
        intro a member
        have key : name ∈ bs.map Prod.fst := by
          rw [same, keys.mem_iff]
          exact List.mem_map_of_mem (f := fun entry : Text × α => entry.1) member
        obtain ⟨⟨_, b⟩, inside, rfl⟩ := List.mem_map.mp key
        exact found b inside
      rw [absent]
      exact .none

end Routes

/-! ### Configurations -/

def AppConfig.parts (config : AppConfig) : List (Bool × Text × Data) :=
  [(false, "log_level", .str config.logLevel), (false, "logger", .str config.logger),
    (false, "ui_addr", .str config.uiAddr), (false, "metrics_addr", .str config.metricsAddr),
    (config.plugins.isEmpty, "plugins", .seq (config.plugins.map .str)),
    (config.routes.isEmpty, "routes", .map (config.routes.map fun entry => (entry.1, entry.2.toData))),
    (false, "consumers", .seq (config.consumers.map ConsumerConfig.toData)),
    (false, "publishers", .seq (config.publishers.map PublisherClient.toData)),
    (config.history.isEmpty, "history", historyData config.history), (false, "env_vars", .textMap config.envVars),
    (config.configSecurity.isNone, "config_security", .option ConfigSecurity.toData config.configSecurity),
    (!config.extractSecrets, "extract_secrets", .bool config.extractSecrets),
    (false, "default_tab", .str config.defaultTab)]

theorem AppConfig.fieldsOf_parts (config : AppConfig) : fieldsOf config.parts = config.toFields := by
  simp [fieldsOf, AppConfig.parts, AppConfig.toFields, written, skippedIf, historyData]

theorem AppConfig.recordHeld {drops : Bool} {config : AppConfig} {entries : List (Text × Json)}
    (held : Holds drops (.obj entries) (.record config.toFields)) : RecordHeld drops entries config.parts appFields := by
  refine ⟨?_, rfl, by decide⟩
  rw [config.fieldsOf_parts]
  exact held

theorem bind_of_some {α β : Type} {x : Option α} {a : α} (given : x = some a) (f : α → Option β) : (x >>= f) = f a := by
  rw [given]
  rfl

/-- What is read of a document that holds a configuration: the configuration, with its maps in another order. Where
nulls are dropped, a payload may have lost some. -/
structure AppConfig.Restores (drops : Bool) (read config : AppConfig) : Prop where
  logLevel : read.logLevel = config.logLevel
  logger : read.logger = config.logger
  uiAddr : read.uiAddr = config.uiAddr
  metricsAddr : read.metricsAddr = config.metricsAddr
  plugins : read.plugins = config.plugins
  routes : ∀ name, Option.Rel RouteConfig.Alike (read.routes.lookup name) (config.routes.lookup name)
  consumers : List.Forall₂ ConsumerConfig.Alike read.consumers config.consumers
  publishers : List.Forall₂ PublisherClient.Alike read.publishers config.publishers
  history : Holds drops (.obj read.history) (historyData config.history)
  envVars : SameDocuments (.textMap read.envVars) (.textMap config.envVars)
  configSecurity : read.configSecurity = config.configSecurity
  extractSecrets : read.extractSecrets = config.extractSecrets
  defaultTab : read.defaultTab = config.defaultTab

/-- A document that holds a configuration is read as that configuration. -/
theorem config_held {drops : Bool} {crates : Crates} (laws : crates.Lawful) {config : AppConfig}
    (readsParts : crates.ReadsParts drops config) (ids : IdSupply) (value : Json)
    (held : Holds drops value (.record config.toFields)) :
    ∃ read, AppConfig.read crates ids value = some (read, 0) ∧ read.Restores drops config := by
  obtain ⟨entries, rfl, -⟩ := holds_record.mp held
  have record := AppConfig.recordHeld held
  obtain ⟨logLevel, readLogLevel, rfl⟩ := record.written (i := 0) rfl ("info" : Text) rfl (string_held laws)
  obtain ⟨logger, readLogger, rfl⟩ := record.written (i := 1) rfl [] rfl (string_held laws)
  obtain ⟨uiAddr, readUiAddr, rfl⟩ := record.written (i := 2) rfl [] rfl (string_held laws)
  obtain ⟨metricsAddr, readMetricsAddr, rfl⟩ := record.written (i := 3) rfl [] rfl (string_held laws)
  obtain ⟨plugins, readPlugins, samePlugins⟩ := record.skippable (i := 4)
    (P := fun read => List.Forall₂ (fun a b : Text => a = b) read config.plugins)
    (f := crates.list crates.string) (d := []) rfl
    (fun empty => by rw [List.isEmpty_iff.mp empty]; exact .nil) (fun _ => rfl)
    fun _ value held => list_held laws value held fun _ _ => string_held laws
  obtain rfl : plugins = config.plugins := by
    rw [List.forall₂_eq_eq_eq] at samePlugins
    exact samePlugins
  obtain ⟨routes, readRoutes, sameRoutes⟩ := record.skippable (i := 5)
    (P := fun read => ∀ name, Option.Rel RouteConfig.Alike (read.lookup name) (config.routes.lookup name))
    (f := crates.hashMap (RouteConfig.read crates)) (d := []) rfl
    (fun empty name => by rw [List.isEmpty_iff.mp empty]; exact .none) (fun _ => rfl)
    fun _ value held => map_held laws (fun _ => rfl) value held fun entry member =>
      routeConfig_held laws entry.2 (readsParts.route entry member)
  obtain ⟨⟨consumers, used⟩, readConsumers, sameConsumers, unused⟩ := record.written (i := 6)
    (P := fun read : List ConsumerConfig × Nat => List.Forall₂ ConsumerConfig.Alike read.1 config.consumers ∧ read.2 = 0)
    (f := fun given => (crates.items given).bind fun items => readEntities (ConsumerConfig.read crates ids) items 0)
    rfl ([], 0) rfl fun value held => entityList_held laws value held fun consumer member =>
      consumer_held laws consumer
        (readsParts.endpoint _ (List.mem_append_left _ (List.mem_map_of_mem member))) (readsParts.options consumer member)
        ids 0
  obtain rfl : used = 0 := unused
  obtain ⟨⟨publishers, used⟩, readPublishers, samePublishers, unused⟩ := record.written (i := 7)
    (P := fun read : List PublisherClient × Nat => List.Forall₂ PublisherClient.Alike read.1 config.publishers ∧ read.2 = 0)
    (f := fun given => (crates.items given).bind fun items => readEntities (PublisherClient.read crates ids) items 0)
    rfl ([], 0) rfl fun value held => entityList_held laws value held fun publisher member =>
      publisher_held laws publisher
        (readsParts.endpoint _ (List.mem_append_right _ (List.mem_map_of_mem member))) ids 0
  obtain rfl : used = 0 := unused
  obtain ⟨history, readHistory, sameHistory⟩ := record.skippable (i := 8)
    (P := fun read => Holds drops (.obj read) (historyData config.history))
    (f := crates.hashMap some) (d := []) rfl
    (fun empty => by
      rw [List.isEmpty_iff.mp empty]
      exact holds_map.mpr (holds_record.mpr ⟨[], rfl, List.nodup_nil, rfl, fun _ inside => absurd inside List.not_mem_nil⟩))
    (fun _ => rfl)
    fun _ => history_held laws
  obtain ⟨envVars, readEnvVars, sameEnvVars⟩ := record.optional (i := 9)
    (P := fun read => SameDocuments (.textMap read) (.textMap config.envVars))
    (f := crates.hashMap crates.string) (d := []) rfl (by decide : ∀ a ∈ (["envVars"] : List Text), _)
    (fun without => by cases without) (fun _ => rfl) fun _ value held => by
      obtain ⟨read, found, -, same⟩ := textMap_held laws value held
      exact ⟨read, found, same⟩
  obtain ⟨security, readSecurity, sameSecurity⟩ := record.skippable (i := 10) (P := fun read => read = config.configSecurity)
    (f := readNullable (ConfigSecurity.read crates)) (d := none) rfl
    (by cases config.configSecurity <;> simp)
    (by cases config.configSecurity <;> simp [Data.option, Data.isNull, ConfigSecurity.toData])
    fun given value held => by
      cases security : config.configSecurity with
      | none => rw [security] at given; cases given
      | some mode =>
        rw [security] at held
        obtain ⟨read, found, rfl⟩ := nullable_held rfl value held (security_held laws mode value held)
        exact ⟨some read, found, rfl⟩
  obtain ⟨extract, readExtract, sameExtract⟩ := record.skippable (i := 11) (d := false)
    (P := fun read => read = config.extractSecrets) rfl
    (fun off => by cases given : config.extractSecrets <;> simp [given] at off ⊢) (fun _ => rfl) fun _ => bool_held laws
  obtain ⟨defaultTab, readTab, rfl⟩ := record.written (i := 12) rfl [] rfl (string_held laws)
  refine ⟨⟨config.logLevel, config.logger, config.uiAddr, config.metricsAddr, config.plugins, routes, consumers, publishers,
    history, envVars, security, extract, config.defaultTab⟩, ?_,
    ⟨rfl, rfl, rfl, rfl, rfl, sameRoutes, sameConsumers, samePublishers, sameHistory, sameEnvVars, sameSecurity,
      sameExtract, rfl⟩⟩
  unfold AppConfig.read
  rw [bind_of_some (laws.fields _ _), bind_of_some readLogLevel, bind_of_some readLogger, bind_of_some readUiAddr,
    bind_of_some readMetricsAddr, bind_of_some readPlugins, bind_of_some readRoutes, bind_of_some readConsumers]
  dsimp only
  rw [bind_of_some readPublishers]
  dsimp only
  rw [bind_of_some readHistory, bind_of_some readEnvVars, bind_of_some readSecurity, bind_of_some readExtract,
    bind_of_some readTab]
  rfl

theorem sameDocuments_of_history {read history : List (Text × Json)}
    (held : Holds true (.obj read) (historyData history)) : SameDocuments (historyData read) (historyData history) := by
  have own : (historyData read).toValue = .obj read := by
    rw [historyData, Data.toValue, Data.toEntries_eq_map, List.map_map]
    have same : (fun entry : Text × Data => (entry.1, entry.2.toValue)) ∘ (fun entry : Text × Json => (entry.1, ofJson entry.2)) =
        id := funext fun entry => Prod.ext rfl (ofJson_toValue entry.2)
    rw [same, List.map_id]
  apply sameDocuments_of_shown
  rw [own, stripNulls_of_same (shows_iff.mpr held).2]
  exact shows_iff.mpr held

/-- What a configuration without routes is saved as is read as an alike configuration. -/
theorem config_shown {crates : Crates} (laws : crates.Lawful) {config : AppConfig} (readsBack : crates.ReadsBack config)
    (routes : config.routes = []) (ids : IdSupply) (value : Json) (shown : Shows value (.record config.toFields)) :
    ∃ read, AppConfig.read crates ids value = some (read, 0) ∧ read.Alike config := by
  have readsParts : crates.ReadsParts true config :=
    ⟨readsBack.endpoint, readsBack.options, by rw [routes]; exact fun _ member => absurd member List.not_mem_nil⟩
  obtain ⟨read, found, restores⟩ := config_held laws readsParts ids value shown
  have unrouted : read.routes = [] := by
    cases given : read.routes with
    | nil => rfl
    | cons entry rest =>
      have first := restores.routes entry.1
      rw [given, routes, List.lookup_cons_self] at first
      cases first
  exact ⟨read, found, restores.logLevel, restores.logger, restores.uiAddr, restores.metricsAddr, restores.plugins,
    ⟨unrouted, routes⟩, restores.consumers, restores.publishers, sameDocuments_of_history restores.history,
    restores.envVars, restores.configSecurity, restores.extractSecrets, restores.defaultTab⟩

end MqBridge.Config
