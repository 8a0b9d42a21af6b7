import MqBridgeApp.Config.RouteMigration
import MqBridgeApp.Lib.JavaScript

/-!
# Importing a bundle

The browser puts the rows of a bundle behind those of the workspace, each under a name of its own, and
makes publishers of the presets that older versions kept.
-/

namespace MqBridge.Workspace
open Text Config

/-! ### Rows with a name -/

section Rows
variable {α : Type*} (name : α → Text) (rename : Text → α → α)

def namedRows (rows : List α) : List α := rows.filter fun row => !(jsTrim (name row)).isEmpty

def renameRows : List Text → List α → List α
  | _, [] => []
  | existingNames, row :: rest =>
    let baseName : Text := if (name row).isEmpty then "imported" else name row
    let unique := nextUniqueName baseName existingNames
    rename unique row :: renameRows (existingNames ++ [unique]) rest

def mergeNamedEntries (currentRows incomingRows : List α) : List α :=
  currentRows ++ renameRows name rename (currentRows.map name) incomingRows

end Rows

section Rows
variable {α : Type*} {name : α → Text} {rename : Text → α → α}

theorem mem_namedRows {rows : List α} {row : α} : row ∈ namedRows name rows ↔ row ∈ rows ∧ jsTrim (name row) ≠ [] := by
  simp [namedRows]

theorem namedRows_eq_self {rows : List α} (named : ∀ row ∈ rows, jsTrim (name row) ≠ []) : namedRows name rows = rows := by
  rw [namedRows, List.filter_eq_self]
  intro row member
  simpa using named row member

/-- What becomes of the row at a place: its name is one that no row before it has. -/
theorem renameRows_getElem? {existingNames : List Text} {rows : List α} {i : Nat} {row : α}
    (set_name : ∀ text row, name (rename text row) = text) (here : rows[i]? = some row) (full : name row ≠ []) :
    (renameRows name rename existingNames rows)[i]? = some (rename
      (nextUniqueName (name row) (existingNames ++ (renameRows name rename existingNames (rows.take i)).map name)) row) := by
  induction rows generalizing existingNames i with
  | nil => cases here
  | cons first rest ih =>
    cases i with
    | zero =>
      obtain rfl := Option.some.inj here
      have plain : (name first).isEmpty = false := by simpa using full
      simp [renameRows, plain]
    | succ i =>
      have there : rest[i]? = some row := here
      simp only [renameRows, List.getElem?_cons_succ, List.take_succ_cons, List.map_cons, set_name]
      rw [ih there, List.append_assoc, List.singleton_append]

theorem renameRows_length {existingNames : List Text} {rows : List α} :
    (renameRows name rename existingNames rows).length = rows.length := by
  induction rows generalizing existingNames with
  | nil => rfl
  | cons row rest ih => rw [renameRows, List.length_cons, List.length_cons, ih]

theorem mergeNamedEntries_getElem? {current incoming : List α} {i : Nat} {row : α}
    (set_name : ∀ text row, name (rename text row) = text) (here : incoming[i]? = some row) (full : name row ≠ []) :
    (mergeNamedEntries name rename current incoming)[current.length + i]? = some (rename
      (nextUniqueName (name row) ((mergeNamedEntries name rename current (incoming.take i)).map name)) row) := by
  rw [mergeNamedEntries, List.getElem?_append_right (Nat.le_add_right _ _), Nat.add_sub_cancel_left,
    renameRows_getElem? set_name here full, mergeNamedEntries, List.map_append]

theorem jsTrim_nextUniqueName_ne {base : Text} {existing : List Text} (full : jsTrim base ≠ []) :
    jsTrim (nextUniqueName base existing) ≠ [] := by
  obtain ⟨k, same, -⟩ := nextUniqueName_spec base existing
  rw [same]
  cases k with
  | zero => exact full
  | succ k =>
    rw [candidateName, List.append_assoc]
    exact jsTrim_append_ne full

theorem mem_mergeNamedEntries {current incoming : List α} {row' : α}
    (set_name : ∀ text row, name (rename text row) = text) (full : ∀ row ∈ incoming, jsTrim (name row) ≠ [])
    (member : row' ∈ mergeNamedEntries name rename current incoming) :
    row' ∈ current ∨ ∃ row ∈ incoming, ∃ text, jsTrim text ≠ [] ∧ row' = rename text row := by
  rcases List.mem_append.mp member with old | new
  · exact Or.inl old
  · obtain ⟨i, below, rfl⟩ := List.mem_iff_getElem.mp new
    have inside : i < incoming.length := by rwa [renameRows_length] at below
    have named := full _ (List.getElem_mem inside)
    have there : (renameRows name rename (current.map name) incoming)[i]? = some _ :=
      renameRows_getElem? set_name (List.getElem?_eq_getElem inside) (ne_nil_of_jsTrim named)
    rw [List.getElem?_eq_getElem below] at there
    exact Or.inr ⟨_, List.getElem_mem inside, _, jsTrim_nextUniqueName_ne named, Option.some.inj there⟩

theorem renameRows_take {existingNames : List Text} {rows : List α} (i : Nat) :
    renameRows name rename existingNames (rows.take i) = (renameRows name rename existingNames rows).take i := by
  induction rows generalizing existingNames i with
  | nil => simp [renameRows]
  | cons row rest ih =>
    cases i with
    | zero => rfl
    | succ i => simp only [List.take_succ_cons, renameRows, ih]

theorem take_mergeNamedEntries {current incoming : List α} (i : Nat) :
    (mergeNamedEntries name rename current incoming).take (current.length + i) =
      mergeNamedEntries name rename current (incoming.take i) := by
  rw [mergeNamedEntries, List.take_length_add_append, ← renameRows_take, mergeNamedEntries]

/-- No row has the name of an imported one before it. -/
theorem mergeNamedEntries_name_ne {current incoming : List α} {k i : Nat} {row row' : α}
    (set_name : ∀ text row, name (rename text row) = text) (full : ∀ row ∈ incoming, jsTrim (name row) ≠ [])
    (inside : i < incoming.length) (earlier : k < current.length + i)
    (here : (mergeNamedEntries name rename current incoming)[k]? = some row)
    (there : (mergeNamedEntries name rename current incoming)[current.length + i]? = some row') :
    name row ≠ name row' := by
  have atRow : (mergeNamedEntries name rename current incoming)[current.length + i]? = some _ :=
    mergeNamedEntries_getElem? set_name (List.getElem?_eq_getElem inside)
      (ne_nil_of_jsTrim (full _ (List.getElem_mem inside)))
  obtain rfl := Option.some.inj (atRow.symm.trans there)
  rw [set_name]
  intro same
  refine nextUniqueName_not_mem (name incoming[i])
    ((mergeNamedEntries name rename current (incoming.take i)).map name) ?_
  rw [← same]
  refine List.mem_map_of_mem (List.mem_of_getElem? (i := k) ?_)
  rw [← take_mergeNamedEntries, List.getElem?_take_of_lt earlier, here]

theorem mergeNamedEntries_name_inj {current incoming : List α} {k i : Nat} {row row' : α}
    (set_name : ∀ text row, name (rename text row) = text) (full : ∀ row ∈ incoming, jsTrim (name row) ≠ [])
    (inside : i < incoming.length) (here : (mergeNamedEntries name rename current incoming)[k]? = some row)
    (there : (mergeNamedEntries name rename current incoming)[current.length + i]? = some row')
    (same : name row = name row') : k = current.length + i := by
  rcases Nat.lt_trichotomy k (current.length + i) with earlier | equal | later
  · exact absurd same (mergeNamedEntries_name_ne set_name full inside earlier here there)
  · exact equal
  · obtain ⟨j, rfl⟩ := Nat.exists_eq_add_of_le (Nat.le_trans (Nat.le_add_right current.length i) (Nat.le_of_lt later))
    have long := (List.getElem?_eq_some_iff.mp here).1
    rw [mergeNamedEntries, List.length_append, renameRows_length] at long
    exact absurd same.symm (mergeNamedEntries_name_ne set_name full (by omega) (by omega) there here)

end Rows

/-- `String(row.name || "")` -/
def rowName (row : Record) : Text := Json.textOr [] (row.prop "name")

def setRowName (name : Text) (row : Record) : Record := row.assign "name" (.str name)

def normalizeNamedArray (value : Option Json) : List Record :=
  namedRows rowName ((Json.items value).filterMap fun row =>
    match row with
    | .obj entries => some (setRowName (rowName entries) entries)
    -- an array is an object as well, but it has no name
    | _ => none)

/-- How the server reads a row that it accepts: the name of the row is the entity's. -/
structure RowReading (α : Type*) (name : α → Text) (rename : Text → α → α) where
  read : Record → α
  read_name : ∀ row text, row.prop "name" = some (.str text) → name (read row) = text
  read_setRowName : ∀ row text, read (setRowName text row) = rename text (read row)

theorem rowName_setRowName (text : Text) (row : Record) : rowName (setRowName text row) = text := by
  rw [rowName, setRowName, Record.prop, Record.lookup_assign, beq_self_eq_true, if_pos rfl, Json.textOr_str]

theorem prop_setRowName (text : Text) (row : Record) : (setRowName text row).prop "name" = some (.str text) := by
  rw [setRowName, Record.prop, Record.lookup_assign, beq_self_eq_true, if_pos rfl]

theorem renameRows_read {α : Type*} {name : α → Text} {rename : Text → α → α} (reading : RowReading α name rename)
    {existingNames : List Text} {rows : List Record} (texts : ∀ row ∈ rows, row.prop "name" = some (.str (rowName row))) :
    (renameRows rowName setRowName existingNames rows).map reading.read =
      renameRows name rename existingNames (rows.map reading.read) := by
  induction rows generalizing existingNames with
  | nil => rfl
  | cons row rest ih =>
    obtain ⟨first, later⟩ := List.forall_mem_cons.mp texts
    simp only [renameRows, List.map_cons, reading.read_setRowName, reading.read_name row _ first, ih later]

theorem normalizeNamedArray_text {value : Option Json} {row : Record} (member : row ∈ normalizeNamedArray value) :
    row.prop "name" = some (.str (rowName row)) := by
  obtain ⟨kept, -⟩ := mem_namedRows.mp member
  obtain ⟨given, -, made⟩ := List.mem_filterMap.mp kept
  cases given <;> cases made
  rw [prop_setRowName, rowName_setRowName]

theorem mergeNamedEntries_read {α : Type*} {name : α → Text} {rename : Text → α → α} (reading : RowReading α name rename)
    (current incoming : Option Json) :
    (mergeNamedEntries rowName setRowName (normalizeNamedArray current) (normalizeNamedArray incoming)).map reading.read =
      mergeNamedEntries name rename ((normalizeNamedArray current).map reading.read)
        ((normalizeNamedArray incoming).map reading.read) := by
  have names : (normalizeNamedArray current).map rowName = ((normalizeNamedArray current).map reading.read).map name := by
    rw [List.map_map]
    apply List.map_congr_left
    intro row member
    exact (reading.read_name row _ (normalizeNamedArray_text member)).symm
  rw [mergeNamedEntries, mergeNamedEntries, List.map_append, ← names,
    renameRows_read reading fun row member => normalizeNamedArray_text member]

/-! ### Presets -/

/-- A request that older versions kept beside the publishers. -/
structure Preset where
  name : Text
  endpointType : Option Text := none
  payload : Text := []
  headers : List HeaderRow := []
  request : Json := .null

/-- What the migration of presets relies on: the default of an endpoint, an endpoint with the fields of a
request, and ids that the browser makes up. -/
structure PresetForms where
  createDefaultRawPublisherEndpoint : Text → Endpoint
  applyLegacyRequest : Endpoint → Preset → Endpoint
  createLocalEntityId : Nat → Text

def nextUniquePublisherName (base : Text) (existing : List Text) : Text :=
  let normalizedBase := orText (jsTrim base) "publisher"
  if normalizedBase ∈ existing then
    (((List.range (existing.length + 1)).map fun i => normalizedBase ++ " " ++ ofNat (i + 1)).find?
      fun candidate => candidate ∉ existing).getD normalizedBase
  else normalizedBase

structure PresetState where
  publishers : List PublisherClient
  existingNames : List Text
  used : Nat

section
variable (forms : PresetForms)

def migratePreset (publisherKey : Text) (basePublisher : Option PublisherClient) (state : PresetState)
    (preset : Preset) : PresetState :=
  let fallbackType : Text := preset.endpointType.getD "http"
  let baseName :=
    match basePublisher with
    | some base =>
      jsTrim (orText base.name (orText publisherKey fallbackType)) ++ " - " ++ jsTrim (orText preset.name fallbackType)
    | none => jsTrim (orText preset.name (orText publisherKey fallbackType))
  let nextName := nextUniquePublisherName baseName state.existingNames
  let nextPublisher :=
    basePublisher.getD { id := [], endpoint := forms.createDefaultRawPublisherEndpoint fallbackType }
  { publishers := state.publishers ++ [{ nextPublisher with
      id := forms.createLocalEntityId state.used
      name := nextName
      endpoint := forms.applyLegacyRequest nextPublisher.endpoint preset
      payload := preset.payload
      headers := preset.headers }]
    existingNames := state.existingNames ++ [nextName]
    used := state.used + 1 }

def migratePresetRows (state : PresetState) (rows : Text × List Preset) : PresetState :=
  let basePublisher := state.publishers.find? fun publisher =>
    jsTrim publisher.id == rows.1 || jsTrim publisher.name == jsTrim rows.1
  rows.2.foldl (migratePreset forms rows.1 basePublisher) state

def migrateLegacyPresetsToPublishers (presets : List (Text × List Preset)) (publishers : List PublisherClient) :
    List PublisherClient :=
  let existingNames := (publishers.map fun publisher => jsTrim publisher.name).filter fun name => !name.isEmpty
  (presets.foldl (migratePresetRows forms) { publishers, existingNames, used := 0 }).publishers

theorem jsTrim_numbered {base : Text} (trimmed : jsTrim base = base) (nonempty : base ≠ []) (n : Nat) :
    jsTrim (base ++ " " ++ ofNat n) = base ++ " " ++ ofNat n := by
  refine jsTrim_eq_self (fun c first => ?_) fun c last => ?_
  · rw [List.append_assoc, List.head?_append_of_ne_nil _ nonempty, ← trimmed] at first
    exact head_jsTrim first
  · rw [ofNat, List.getLast?_append_of_ne_nil _ Nat.toDigits_ne_nil] at last
    exact isJsSpace_digit (Nat.isDigit_of_mem_toDigits (by decide) (by decide) (List.mem_of_getLast? last))

/-- The name of a publisher that is made is free and trimmed. -/
theorem nextUniquePublisherName_spec (base : Text) (existing : List Text) :
    nextUniquePublisherName base existing ∉ existing ∧ nextUniquePublisherName base existing ≠ [] ∧
      jsTrim (nextUniquePublisherName base existing) = nextUniquePublisherName base existing := by
  have normalized : orText (jsTrim base) "publisher" ≠ [] ∧
      jsTrim (orText (jsTrim base) "publisher") = orText (jsTrim base) "publisher" := by
    unfold orText
    split
    · exact ⟨by decide, by decide⟩
    · next full => exact ⟨by simpa using full, jsTrim_idempotent base⟩
  unfold nextUniquePublisherName
  dsimp only
  generalize orText (jsTrim base) "publisher" = normalizedBase at normalized
  obtain ⟨nonempty, trimmed⟩ := normalized
  split
  · have injective : Function.Injective fun i => normalizedBase ++ " " ++ ofNat (i + 1) := by
      intro j k same
      have equal := ofNat_injective (List.append_cancel_left same)
      omega
    obtain ⟨i, found, new, -⟩ := find?_candidates injective existing
    rw [found]
    exact ⟨new, by simp [nonempty], jsTrim_numbered trimmed nonempty (i + 1)⟩
  · next free => exact ⟨free, nonempty, trimmed⟩

/-- The publishers that presets become: their names are new and trimmed, and their ids are new. -/
structure PresetsAdded (before after : PresetState) (added : List PublisherClient) : Prop where
  publishers : after.publishers = before.publishers ++ added
  names : before.existingNames ⊆ after.existingNames
  fresh : ∀ publisher ∈ added, publisher.name ∉ before.existingNames ∧ jsTrim publisher.name = publisher.name ∧
    ∃ n, publisher.id = forms.createLocalEntityId n

variable {forms}

theorem PresetsAdded.refl (state : PresetState) : PresetsAdded forms state state [] :=
  ⟨(List.append_nil _).symm, List.Subset.refl _, nofun⟩

theorem PresetsAdded.trans {first second third : PresetState} {added more : List PublisherClient}
    (step : PresetsAdded forms first second added) (later : PresetsAdded forms second third more) :
    PresetsAdded forms first third (added ++ more) where
  publishers := by rw [later.publishers, step.publishers, List.append_assoc]
  names := List.Subset.trans step.names later.names
  fresh publisher member := by
    rcases List.mem_append.mp member with old | new
    · exact step.fresh publisher old
    · exact ⟨fun taken => (later.fresh publisher new).1 (step.names taken), (later.fresh publisher new).2⟩

theorem migratePreset_adds (key : Text) (base : Option PublisherClient) (state : PresetState) (preset : Preset) :
    ∃ added, PresetsAdded forms state (migratePreset forms key base state preset) added := by
  refine ⟨_, rfl, List.subset_append_left _ _, fun publisher member => ?_⟩
  obtain rfl := List.mem_singleton.mp member
  obtain ⟨new, -, trimmed⟩ := nextUniquePublisherName_spec _ _
  exact ⟨new, trimmed, _, rfl⟩

theorem foldl_adds {β : Type*} {step : PresetState → β → PresetState}
    (adds : ∀ state item, ∃ added, PresetsAdded forms state (step state item) added) (items : List β)
    (state : PresetState) : ∃ added, PresetsAdded forms state (items.foldl step state) added := by
  induction items generalizing state with
  | nil => exact ⟨[], .refl state⟩
  | cons item rest ih =>
    obtain ⟨added, first⟩ := adds state item
    obtain ⟨more, later⟩ := ih (step state item)
    exact ⟨added ++ more, first.trans later⟩

theorem migrateLegacyPresetsToPublishers_adds (presets : List (Text × List Preset)) (publishers : List PublisherClient) :
    ∃ added, migrateLegacyPresetsToPublishers forms presets publishers = publishers ++ added ∧
      ∀ publisher ∈ added, (∀ other ∈ publishers, jsTrim other.name ≠ [] → publisher.name ≠ jsTrim other.name) ∧
        jsTrim publisher.name = publisher.name ∧ ∃ n, publisher.id = forms.createLocalEntityId n := by
  obtain ⟨added, adds⟩ := @foldl_adds forms _ (migratePresetRows forms)
    (fun state rows => foldl_adds (fun state preset => migratePreset_adds _ _ state preset) rows.2 state) presets
    { publishers
      existingNames := (publishers.map fun publisher => jsTrim publisher.name).filter fun name => !name.isEmpty
      used := 0 }
  refine ⟨added, adds.publishers, fun publisher member => ⟨fun other inside full same => ?_, (adds.fresh publisher member).2⟩⟩
  apply (adds.fresh publisher member).1
  rw [same]
  exact List.mem_filter.mpr ⟨List.mem_map_of_mem inside, by simpa using full⟩

variable (forms)

structure Bundle where
  publishers : List PublisherClient := []
  consumers : List ConsumerConfig := []
  routes : Option (List (Text × RouteConfig)) := none
  presets : List (Text × List Preset) := []

def setPublisherName (name : Text) (publisher : PublisherClient) : PublisherClient := { publisher with name }

def setConsumerName (name : Text) (consumer : ConsumerConfig) : ConsumerConfig := { consumer with name }

def mergePublishers (current incoming : List PublisherClient) : List PublisherClient :=
  mergeNamedEntries PublisherClient.name setPublisherName
    (namedRows PublisherClient.name current) (namedRows PublisherClient.name incoming)

def mergeConsumers (current incoming : List ConsumerConfig) : List ConsumerConfig :=
  mergeNamedEntries ConsumerConfig.name setConsumerName
    (namedRows ConsumerConfig.name current) (namedRows ConsumerConfig.name incoming)

/-- What an import sends to the server. `settings` has what the bundle and the workspace say of everything
but the entities. -/
def importAppConfig (settings current : AppConfig) (bundle : Bundle) : AppConfig :=
  { settings with
    publishers := migrateLegacyPresetsToPublishers forms bundle.presets
      (mergePublishers current.publishers bundle.publishers)
    consumers := mergeConsumers current.consumers bundle.consumers
    routes := bundle.routes.getD current.routes }

end

end MqBridge.Workspace
