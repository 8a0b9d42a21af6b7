import MqBridgeApp.Lib.Lists
import MqBridgeApp.Workspace.PublisherRequest

/-!
# The history of a publisher, read back

A history is stored as JSON and read back entry by entry. The rows of an entry's headers and its metadata
stand in for each other where one of them is empty, and only the headers know which of them are enabled.
-/

namespace MqBridge.Workspace
open Text

/-! ### The fields of an entry -/

structure HistoryFields where
  name : Text
  payload : Text
  headers : List Json
  metadata : List Json
  requestFields : Record
  requestMetadata : Record
  status : JsonNumber
  statusInfo : Record
  duration : JsonNumber
  time : JsonNumber
  pinned : Bool
  publisherId : Option Json
  endpointType : Option Json
  method : Option Json
  url : Option Json
  targetLabel : Option Json
  responseData : Option Json
  ok : Option Json
  statusText : Option Json
  displayStatus : Option Json
  displayStatusText : Option Json

def HistoryFields.toRecord (fields : HistoryFields) : Record :=
  let result : Record := [("name", .str fields.name), ("payload", .str fields.payload), ("headers", .arr fields.headers),
    ("metadata", .arr fields.metadata), ("request_fields", .obj fields.requestFields),
    ("requestMetadata", .obj fields.requestMetadata), ("status", .num fields.status),
    ("status_info", .obj fields.statusInfo), ("duration", .num fields.duration), ("time", .num fields.time),
    ("pinned", .bool fields.pinned)]
  let result := result.put "publisher_id" fields.publisherId
  let result := result.put "endpoint_type" fields.endpointType
  let result := (result.put "method" fields.method).put "url" fields.url
  let result := result.put "targetLabel" fields.targetLabel
  let result := result.put "responseData" fields.responseData
  let result := result.put "ok" fields.ok
  let result := result.put "statusText" fields.statusText
  let result := result.put "displayStatus" fields.displayStatus
  result.put "displayStatusText" fields.displayStatusText

def mergedMetadata (headers metadata : List Json) : List Json :=
  if metadata.isEmpty then
    headers.map fun header => .obj (Record.put (Record.put [] "k" (header.get? "key")) "v" (header.get? "value"))
  else metadata

def mergedHeaders (headers metadata : List Json) : List Json :=
  if headers.isEmpty then
    metadata.map fun row =>
      .obj (Record.assign (Record.put (Record.put [] "key" (row.get? "k")) "value" (row.get? "v")) "enabled" (.bool true))
  else headers

def mergedRequestFields (requestFields : Record) (url : Option Json) : Record :=
  if url.any Json.truthy && !(requestFields.prop "url").any Json.truthy then requestFields.put "url" url else requestFields

def statusInfoOf (entry : Record) (status : JsonNumber) : Record :=
  match entry.prop "status_info" with
  | some (.obj info) => info
  | _ =>
    Record.put [("code", .num status),
      ("label", ((entry.prop "displayStatus").filter Json.truthy).getD (.num status)),
      ("text", (((entry.prop "displayStatusText").filter Json.truthy).or
        ((entry.prop "statusText").filter Json.truthy)).getD (.str []))] "ok" (entry.prop "ok")

def fallbackEntryName (fallbackName : Text) (index : Nat) : Text :=
  if fallbackName.isEmpty then "History entry " ++ (Json.num (.ofNat (index + 1))).toText else fallbackName

def headerRowsOf (entry : Record) : List Json := (Json.items (entry.prop "headers")).map sanitizeHeaderRow

def metadataRowsOf (entry : Record) : List Json := (Json.items (entry.prop "metadata")).map sanitizeHistoryMetadataRow

def historyFields (browser : Browser) (entry : Record) (fallbackName : Text) (index : Nat) : HistoryFields where
  name := Json.textOr (fallbackEntryName fallbackName index) (entry.prop "name")
  payload := Json.textOr [] (entry.prop "payload")
  headers := mergedHeaders (headerRowsOf entry) (mergedMetadata (headerRowsOf entry) (metadataRowsOf entry))
  metadata := mergedMetadata (headerRowsOf entry) (metadataRowsOf entry)
  requestFields := mergedRequestFields (sanitizeStringMap (entry.prop "request_fields")) (truthyText (entry.prop "url"))
  requestMetadata := sanitizeStringMap (entry.prop "requestMetadata")
  status := numberOr (.ofNat 0) (entry.prop "status")
  statusInfo := statusInfoOf entry (numberOr (.ofNat 0) (entry.prop "status"))
  duration := numberOr (.ofNat 0) (entry.prop "duration")
  time := numberOr (.ofNat index) (entry.prop "time")
  pinned := entry.prop "pinned" == some (.bool true)
  publisherId := truthyText (entry.prop "publisher_id")
  endpointType := truthyText (entry.prop "endpoint_type")
  method := (truthyText (entry.prop "method")).map fun method => .str (browser.toUpperCase method.toText)
  url := truthyText (entry.prop "url")
  targetLabel := truthyText (entry.prop "targetLabel")
  responseData := entry.prop "responseData"
  ok := (entry.prop "ok").filter fun ok => ok matches .bool _
  statusText := truthyText (entry.prop "statusText")
  displayStatus := truthyText (entry.prop "displayStatus")
  displayStatusText := truthyText (entry.prop "displayStatusText")

theorem sanitizeHistoryEntry_eq (browser : Browser) (value : Json) (fallbackName : Text) (index : Nat) :
    sanitizeHistoryEntry browser value fallbackName index =
      .obj (historyFields browser (Json.asObject (some value)) fallbackName index).toRecord := rfl

theorem historyFields_toRecord (browser : Browser) (f : HistoryFields) (fallbackName : Text) (index : Nat) :
    historyFields browser f.toRecord fallbackName index =
      { f with
        name := Json.textOr (fallbackEntryName fallbackName index) (some (.str f.name))
        headers := mergedHeaders (f.headers.map sanitizeHeaderRow)
          (mergedMetadata (f.headers.map sanitizeHeaderRow) (f.metadata.map sanitizeHistoryMetadataRow))
        metadata := mergedMetadata (f.headers.map sanitizeHeaderRow) (f.metadata.map sanitizeHistoryMetadataRow)
        requestFields := mergedRequestFields (sanitizeStringMap (some (.obj f.requestFields))) (truthyText f.url)
        requestMetadata := sanitizeStringMap (some (.obj f.requestMetadata))
        publisherId := truthyText f.publisherId
        endpointType := truthyText f.endpointType
        method := (truthyText f.method).map fun method => .str (browser.toUpperCase method.toText)
        url := truthyText f.url
        targetLabel := truthyText f.targetLabel
        ok := f.ok.filter fun ok => ok matches .bool _
        statusText := truthyText f.statusText
        displayStatus := truthyText f.displayStatus
        displayStatusText := truthyText f.displayStatusText } := by
  simp [historyFields, HistoryFields.toRecord, headerRowsOf, metadataRowsOf, statusInfoOf, Record.prop, lit, List.lookup_cons, Json.items,
    numberOr]
  cases f.pinned <;> rfl

def HistoryFields.ofRecord (record : Record) : HistoryFields where
  name := nullishText (record.prop "name")
  payload := nullishText (record.prop "payload")
  headers := Json.items (record.prop "headers")
  metadata := Json.items (record.prop "metadata")
  requestFields := Json.asObject (record.prop "request_fields")
  requestMetadata := Json.asObject (record.prop "requestMetadata")
  status := numberOr (.ofNat 0) (record.prop "status")
  statusInfo := Json.asObject (record.prop "status_info")
  duration := numberOr (.ofNat 0) (record.prop "duration")
  time := numberOr (.ofNat 0) (record.prop "time")
  pinned := (record.prop "pinned").any Json.truthy
  publisherId := record.prop "publisher_id"
  endpointType := record.prop "endpoint_type"
  method := record.prop "method"
  url := record.prop "url"
  targetLabel := record.prop "targetLabel"
  responseData := record.prop "responseData"
  ok := record.prop "ok"
  statusText := record.prop "statusText"
  displayStatus := record.prop "displayStatus"
  displayStatusText := record.prop "displayStatusText"

theorem HistoryFields.ofRecord_toRecord (f : HistoryFields) : HistoryFields.ofRecord f.toRecord = f := by
  simp [HistoryFields.ofRecord, HistoryFields.toRecord, Record.prop, lit, List.lookup_cons, nullishText, Json.items,
    Json.asObject, numberOr, Json.truthy, Json.toText]

theorem HistoryFields.toRecord_inj {f g : HistoryFields} : f.toRecord = g.toRecord ↔ f = g :=
  ⟨fun same => by rw [← f.ofRecord_toRecord, same, g.ofRecord_toRecord], congrArg toRecord⟩

/-! ### Texts -/

/-- A value that counts as true does not read as the empty text, as an empty array does. -/
def ReadsFull (value : Option Json) : Prop := ∀ held ∈ value, held.truthy = true → held.toText ≠ []

theorem truthy_str (text : Text) : (Json.str text).truthy = true ↔ text ≠ [] := by
  cases text <;> simp [Json.truthy]

theorem toText_str (text : Text) : (Json.str text).toText = text := by
  rw [Json.toText]

theorem readsFull_some {held : Json} (truthy : held.truthy = true) : ReadsFull (some held) ↔ held.toText ≠ [] := by
  simp [ReadsFull, truthy]

theorem readsFull_falsy {value : Option Json} (falsy : value.filter Json.truthy = none) : ReadsFull value := by
  intro held member truthy
  rw [Option.mem_def.mp member, Option.filter_some, if_pos truthy] at falsy
  cases falsy

theorem truthyText_falsy {value : Option Json} (falsy : value.filter Json.truthy = none) : truthyText value = none := by
  rw [truthyText, falsy, Option.map_none]

theorem truthyText_truthy {held : Json} (truthy : held.truthy = true) :
    truthyText (some held) = some (.str held.toText) := by
  rw [truthyText, Option.filter_some, if_pos truthy, Option.map_some]

theorem truthyText_str (text : Text) : truthyText (some (.str text)) = if text = [] then none else some (.str text) := by
  cases text with
  | nil => rfl
  | cons c rest => rw [truthyText_truthy rfl, toText_str, if_neg (by simp)]

theorem truthy_cases (value : Option Json) :
    value.filter Json.truthy = none ∨ ∃ held, value = some held ∧ held.truthy = true := by
  cases value with
  | none => exact .inl rfl
  | some held =>
    cases truthy : held.truthy with
    | false => exact .inl (by rw [Option.filter_some, if_neg (by simp [truthy])])
    | true => exact .inr ⟨held, rfl, truthy⟩

theorem truthyText_twice_iff (value : Option Json) : truthyText (truthyText value) = truthyText value ↔ ReadsFull value := by
  rcases truthy_cases value with falsy | ⟨held, rfl, truthy⟩
  · rw [truthyText_falsy falsy]
    exact iff_of_true rfl (readsFull_falsy falsy)
  · rw [truthyText_truthy truthy, truthyText_str, readsFull_some truthy]
    split <;> simp_all

theorem textOr_text (fallback text : Text) :
    Json.textOr fallback (some (.str text)) = if text = [] then fallback else text := by
  cases text with
  | nil => rfl
  | cons c rest => rw [if_neg (by simp), Json.textOr, if_pos ((truthy_str _).mpr (by simp)), toText_str]

theorem textOr_falsy {value : Option Json} (falsy : value.filter Json.truthy = none) (fallback : Text) :
    Json.textOr fallback value = fallback := by
  cases value with
  | none => rfl
  | some held =>
    rw [Json.textOr, if_neg]
    intro truthy
    rw [Option.filter_some, if_pos truthy] at falsy
    cases falsy

theorem textOr_twice_iff {fallback fallback' : Text} (full : fallback ≠ []) (full' : fallback' ≠ []) (value : Option Json) :
    Json.textOr fallback' (some (.str (Json.textOr fallback value))) = Json.textOr fallback value ↔ ReadsFull value := by
  have again : ∀ text : Text, Json.textOr fallback' (some (.str text)) = text ↔ text ≠ [] := by
    intro text
    rw [textOr_text]
    split
    · rename_i empty
      simpa [empty] using full'
    · rename_i nonempty
      exact iff_of_true rfl nonempty
  rw [again]
  rcases truthy_cases value with falsy | ⟨held, rfl, truthy⟩
  · rw [textOr_falsy falsy]
    exact iff_of_true full (readsFull_falsy falsy)
  · rw [readsFull_some truthy, Json.textOr, if_pos truthy]

theorem fallbackEntryName_full (fallbackName : Text) (index : Nat) : fallbackEntryName fallbackName index ≠ [] := by
  unfold fallbackEntryName
  split
  · simp [lit]
  · rename_i full
    simpa using full

/-! ### Rows -/

def headerRow (key value : Text) (enabled : Bool) : Json :=
  .obj [("key", .str key), ("value", .str value), ("enabled", .bool enabled)]

def metadataRow (k v : Text) : Json := .obj [("k", .str k), ("v", .str v)]

theorem enabled_read (enabled : Bool) : (some (Json.bool enabled) != some (.bool false)) = enabled := by
  cases enabled <;> rfl

theorem sanitize_headerRow (key value : Text) (enabled : Bool) :
    sanitizeHeaderRow (headerRow key value enabled) = headerRow key value enabled := by
  have row : sanitizeHeaderRow (headerRow key value enabled) =
      headerRow (Json.str key).toText (Json.str value).toText (some (Json.bool enabled) != some (.bool false)) := rfl
  rw [row, toText_str, toText_str, enabled_read]

theorem sanitize_metadataRow (k v : Text) : sanitizeHistoryMetadataRow (metadataRow k v) = metadataRow k v := by
  have row : sanitizeHistoryMetadataRow (metadataRow k v) = metadataRow (Json.str k).toText (Json.str v).toText := rfl
  rw [row, toText_str, toText_str]

def HeaderRows (rows : List Json) : Prop := ∀ row ∈ rows, ∃ key value enabled, row = headerRow key value enabled

def MetadataRows (rows : List Json) : Prop := ∀ row ∈ rows, ∃ k v, row = metadataRow k v

theorem HeaderRows.sanitize {rows : List Json} (headers : HeaderRows rows) : rows.map sanitizeHeaderRow = rows := by
  apply Lists.map_eq_self_iff.mpr
  intro row member
  obtain ⟨key, value, enabled, rfl⟩ := headers row member
  exact sanitize_headerRow key value enabled

theorem MetadataRows.sanitize {rows : List Json} (metadata : MetadataRows rows) :
    rows.map sanitizeHistoryMetadataRow = rows := by
  apply Lists.map_eq_self_iff.mpr
  intro row member
  obtain ⟨k, v, rfl⟩ := metadata row member
  exact sanitize_metadataRow k v

theorem headerRowsOf_rows (entry : Record) : HeaderRows (headerRowsOf entry) := by
  intro row member
  obtain ⟨raw, -, rfl⟩ := List.mem_map.mp member
  exact ⟨_, _, _, rfl⟩

theorem metadataRowsOf_rows (entry : Record) : MetadataRows (metadataRowsOf entry) := by
  intro row member
  obtain ⟨raw, -, rfl⟩ := List.mem_map.mp member
  exact ⟨_, _, rfl⟩

theorem mergedMetadata_rows {headers metadata : List Json} (headerRows : HeaderRows headers)
    (metadataRows : MetadataRows metadata) : MetadataRows (mergedMetadata headers metadata) := by
  intro row member
  rw [mergedMetadata] at member
  split at member
  · obtain ⟨header, known, rfl⟩ := List.mem_map.mp member
    obtain ⟨key, value, enabled, rfl⟩ := headerRows header known
    exact ⟨key, value, rfl⟩
  · exact metadataRows row member

theorem mergedHeaders_rows {headers metadata : List Json} (headerRows : HeaderRows headers)
    (metadataRows : MetadataRows metadata) : HeaderRows (mergedHeaders headers metadata) := by
  intro row member
  rw [mergedHeaders] at member
  split at member
  · obtain ⟨stored, known, rfl⟩ := List.mem_map.mp member
    obtain ⟨k, v, rfl⟩ := metadataRows stored known
    exact ⟨k, v, true, rfl⟩
  · exact headerRows row member

theorem merged_twice (headers metadata : List Json) :
    mergedMetadata (mergedHeaders headers (mergedMetadata headers metadata)) (mergedMetadata headers metadata) =
        mergedMetadata headers metadata ∧
      mergedHeaders (mergedHeaders headers (mergedMetadata headers metadata)) (mergedMetadata headers metadata) =
        mergedHeaders headers (mergedMetadata headers metadata) := by
  cases headers with
  | nil => cases metadata <;> simp [mergedMetadata, mergedHeaders]
  | cons header headers => cases metadata <;> simp [mergedMetadata, mergedHeaders]

/-- Entries that are texts, under keys that can be set. -/
def TextEntries (entries : Record) : Prop := ∀ entry ∈ entries, entry.1 ≠ "__proto__" ∧ ∃ text, entry.2 = .str text

theorem sanitizeStringMap_texts (value : Option Json) : TextEntries (sanitizeStringMap value) := by
  intro entry member
  obtain ⟨raw, known, rfl⟩ := List.mem_map.mp member
  exact ⟨(mem_settable.mp known).2, _, rfl⟩

theorem TextEntries.sanitize {entries : Record} (texts : TextEntries entries) :
    sanitizeStringMap (some (.obj entries)) = entries := by
  rw [sanitizeStringMap, Json.asObject, settable_eq_self fun entry member => (texts entry member).1]
  apply Lists.map_eq_self_iff.mpr
  rintro ⟨key, value⟩ member
  obtain ⟨text, rfl⟩ : ∃ text, value = .str text := (texts _ member).2
  show (key, Json.str (Json.str text).toText) = _
  rw [toText_str]

theorem mergedRequestFields_texts {fields : Record} (texts : TextEntries fields) (url : Option Json) :
    TextEntries (mergedRequestFields fields (truthyText url)) := by
  unfold mergedRequestFields
  split
  · rcases truthy_cases url with falsy | ⟨held, rfl, truthy⟩
    · rw [truthyText_falsy falsy]
      intro entry member
      exact texts entry (List.mem_filter.mp member).1
    · rw [truthyText_truthy truthy]
      intro entry member
      rcases List.mem_append.mp member with old | new
      · exact texts entry (List.mem_filter.mp old).1
      · obtain rfl := List.mem_singleton.mp new
        exact ⟨(by decide : ("url" : Text) ≠ "__proto__"), _, rfl⟩
  · exact texts

theorem mergedRequestFields_twice (fields : Record) (url : Option Json) :
    mergedRequestFields (mergedRequestFields fields (truthyText url)) (truthyText (truthyText url)) =
      mergedRequestFields fields (truthyText url) := by
  rcases truthy_cases (truthyText url) with falsy | ⟨held, same, truthy⟩
  · rw [truthyText_falsy falsy]
    simp [mergedRequestFields]
  · by_cases named : (fields.prop "url").any Json.truthy = true
    · simp [mergedRequestFields, named]
    · have put : mergedRequestFields fields (truthyText url) = fields.put "url" (some held) := by
        simp [mergedRequestFields, same, truthy, named]
      rw [put]
      simp [mergedRequestFields, Record.prop, truthy]

/-- The fields that are left out where they are empty, besides the name. -/
def historyTexts : List Text :=
  ["name", "publisher_id", "endpoint_type", "method", "url", "targetLabel", "statusText", "displayStatus",
    "displayStatusText"]

/-- No text of an entry reads as empty though it counts as true. -/
def Readable (entry : Json) : Prop := ∀ key ∈ historyTexts, ReadsFull (Record.prop (Json.asObject (some entry)) key)

theorem method_twice_iff {upper : Text → Text} (upper_twice : ∀ text, upper (upper text) = upper text)
    (upper_empty : ∀ text, upper text = [] ↔ text = []) (value : Option Json) :
    ((truthyText ((truthyText value).map fun method => .str (upper method.toText))).map
        fun method => Json.str (upper method.toText)) =
      ((truthyText value).map fun method => .str (upper method.toText)) ↔ ReadsFull value := by
  rcases truthy_cases value with falsy | ⟨held, rfl, truthy⟩
  · rw [truthyText_falsy falsy]
    exact iff_of_true rfl (readsFull_falsy falsy)
  · rw [truthyText_truthy truthy, readsFull_some truthy, Option.map_some, truthyText_str, toText_str]
    split
    · rename_i empty
      simp [(upper_empty held.toText).mp empty]
    · rename_i full
      rw [Option.map_some, toText_str, upper_twice]
      exact iff_of_true rfl fun empty => full ((upper_empty held.toText).mpr empty)

theorem historyFields_twice_iff (browser : Browser)
    (upper_twice : ∀ text, browser.toUpperCase (browser.toUpperCase text) = browser.toUpperCase text)
    (upper_empty : ∀ text, browser.toUpperCase text = [] ↔ text = []) (entry : Record) (fallbackName again : Text)
    (index index' : Nat) :
    historyFields browser (historyFields browser entry fallbackName index).toRecord again index' =
      historyFields browser entry fallbackName index ↔ ∀ key ∈ historyTexts, ReadsFull (entry.prop key) := by
  have headers := headerRowsOf_rows entry
  have metadata := mergedMetadata_rows headers (metadataRowsOf_rows entry)
  have merged := merged_twice (headerRowsOf entry) (metadataRowsOf entry)
  have requestFields := mergedRequestFields_texts (sanitizeStringMap_texts (entry.prop "request_fields")) (entry.prop "url")
  rw [historyFields_toRecord, historyFields, HistoryFields.mk.injEq]
  simp only [(mergedHeaders_rows headers metadata).sanitize, metadata.sanitize, merged.1, merged.2, requestFields.sanitize,
    mergedRequestFields_twice, (sanitizeStringMap_texts _).sanitize, truthyText_twice_iff,
    textOr_twice_iff (fallbackEntryName_full fallbackName index) (fallbackEntryName_full again index'),
    method_twice_iff upper_twice upper_empty, Option.filter_filter, Bool.and_self, historyTexts, List.forall_mem_cons]
  simp

theorem sanitizeHistoryEntry_twice_iff (browser : Browser)
    (upper_twice : ∀ text, browser.toUpperCase (browser.toUpperCase text) = browser.toUpperCase text)
    (upper_empty : ∀ text, browser.toUpperCase text = [] ↔ text = []) (value : Json) (fallbackName again : Text)
    (index index' : Nat) :
    sanitizeHistoryEntry browser (sanitizeHistoryEntry browser value fallbackName index) again index' =
      sanitizeHistoryEntry browser value fallbackName index ↔ Readable value := by
  rw [sanitizeHistoryEntry_eq, sanitizeHistoryEntry_eq, Json.obj.injEq, HistoryFields.toRecord_inj]
  exact historyFields_twice_iff browser upper_twice upper_empty _ fallbackName again index index'

/-! ### Stores -/

/-- The names that every object has from the start. -/
def inheritedNames : List Text :=
  ["constructor", "__defineGetter__", "__defineSetter__", "hasOwnProperty", "__lookupGetter__", "__lookupSetter__",
    "isPrototypeOf", "propertyIsEnumerable", "toString", "valueOf", "__proto__", "toLocaleString"]

/-- Reading a history. In one that is an array, an entry with an inherited name has no bucket to go to,
and an error is thrown. -/
def readHistory (browser : Browser) (stored : Option Json) : Option PublisherHistoryStore :=
  match stored with
  | some (.arr rows) =>
    let entries := rows.mapIdx fun index row => sanitizeHistoryEntry browser row [] index
    if entries.any fun entry => Json.textOr [] (entry.get? "name") ∈ inheritedNames then none
    else some (sanitizePublisherHistory browser stored)
  | _ => some (sanitizePublisherHistory browser stored)

/-- The entries of a history as they are stored. The list under `__proto__` is not read. -/
def storedEntries (stored : Option Json) : List Json :=
  match stored with
  | some (.arr rows) => rows
  | stored =>
    (settable (Json.asObject (Record.prop (Json.asObject stored) "publishers"))).flatMap fun bucket =>
      Json.items (some bucket.2)

def PublisherHistoryStore.entries (store : PublisherHistoryStore) : List Json := store.publishers.flatMap Prod.snd

/-- The store holds what the values are sanitized to, whatever names and positions they were given. -/
structure HoldsEntries (browser : Browser) (store : PublisherHistoryStore) (values : List Json) : Prop where
  named : ∀ bucket ∈ store.publishers, bucket.1 ≠ "__proto__"
  only : ∀ row ∈ store.entries, ∃ value ∈ values, ∃ name index, row = sanitizeHistoryEntry browser value name index
  all : ∀ value ∈ values, ∃ row ∈ store.entries, ∃ name index, row = sanitizeHistoryEntry browser value name index

section
variable {browser : Browser}

theorem mem_entries {store : PublisherHistoryStore} {row : Json} :
    row ∈ store.entries ↔ ∃ bucket ∈ store.publishers, row ∈ bucket.2 :=
  List.mem_flatMap

theorem readHistory_toJson (store : PublisherHistoryStore) :
    readHistory browser (some store.toJson) =
      some { store with
        publishers := (settable store.publishers).map fun bucket =>
          (bucket.1, bucket.2.mapIdx fun index row => sanitizeHistoryEntry browser row bucket.1 index) } := by
  have publishers : sanitizeHistoryPublishers browser
        (some (.obj (store.publishers.map fun bucket => (bucket.1, .arr bucket.2)))) =
      (settable store.publishers).map fun bucket =>
        (bucket.1, bucket.2.mapIdx fun index row => sanitizeHistoryEntry browser row bucket.1 index) := by
    rw [sanitizeHistoryPublishers, Json.asObject, settable, List.filter_map, List.filterMap_map, ← List.filterMap_eq_map']
    rfl
  rw [← publishers]
  rfl

theorem HoldsEntries.twice_iff {store : PublisherHistoryStore} {values : List Json}
    (upper_twice : ∀ text, browser.toUpperCase (browser.toUpperCase text) = browser.toUpperCase text)
    (upper_empty : ∀ text, browser.toUpperCase text = [] ↔ text = []) (holds : HoldsEntries browser store values) :
    readHistory browser (some store.toJson) = some store ↔ ∀ value ∈ values, Readable value := by
  have again := sanitizeHistoryEntry_twice_iff browser upper_twice upper_empty
  have same : readHistory browser (some store.toJson) = some store ↔
      ∀ bucket ∈ store.publishers, ∀ i row, bucket.2[i]? = some row →
        sanitizeHistoryEntry browser row bucket.1 i = row := by
    obtain ⟨version, updated_at, publishers⟩ := store
    rw [readHistory_toJson, settable_eq_self holds.named, Option.some.injEq, PublisherHistoryStore.mk.injEq,
      and_iff_right rfl, and_iff_right rfl, Lists.map_eq_self_iff]
    simp only [Prod.ext_iff, true_and, Lists.mapIdx_eq_self_iff]
  rw [same]
  constructor
  · intro stable value member
    obtain ⟨row, held, name, index, rfl⟩ := holds.all value member
    obtain ⟨bucket, known, inside⟩ := mem_entries.mp held
    obtain ⟨i, found⟩ := List.mem_iff_getElem?.mp inside
    exact (again value name bucket.1 index i).mp (stable bucket known i _ found)
  · intro readable bucket known i row found
    have held := mem_entries.mpr ⟨bucket, known, List.mem_of_getElem? found⟩
    obtain ⟨value, member, name, index, rfl⟩ := holds.only row held
    exact (again value name bucket.1 index i).mpr (readable value member)

/-- An entry joins the bucket of its name, and the others stay. -/
theorem mem_joined {publishers : List (Text × List Json)} (distinct : (publishers.map Prod.fst).Nodup) (name : Text)
    (entry row : Json) :
    (∃ bucket ∈ Assoc.insert publishers (name, (publishers.lookup name).getD [] ++ [entry]), row ∈ bucket.2) ↔
      (∃ bucket ∈ publishers, row ∈ bucket.2) ∨ row = entry := by
  constructor
  · rintro ⟨bucket, member, inside⟩
    rcases List.mem_append.mp member with old | new
    · exact .inl ⟨bucket, (List.mem_filter.mp old).1, inside⟩
    · obtain rfl := List.mem_singleton.mp new
      rcases List.mem_append.mp inside with before | last
      · cases found : publishers.lookup name with
        | none =>
          rw [found] at before
          cases before
        | some rows =>
          rw [found] at before
          exact .inl ⟨_, Assoc.mem_of_lookup found, before⟩
      · exact .inr (List.mem_singleton.mp last)
  · rintro (⟨bucket, member, inside⟩ | rfl)
    · by_cases own : bucket.1 = name
      · subst own
        refine ⟨_, List.mem_append_right _ (List.mem_singleton_self _), List.mem_append_left _ ?_⟩
        rw [Assoc.lookup_of_mem distinct member]
        exact inside
      · exact ⟨bucket, List.mem_append_left _ (List.mem_filter.mpr ⟨member, by simpa using own⟩), inside⟩
    · exact ⟨_, List.mem_append_right _ (List.mem_singleton_self _), List.mem_append_right _ (List.mem_singleton_self _)⟩

theorem mem_grouped {name : Json → Text} {row : Json} (entries : List Json) {publishers : List (Text × List Json)}
    (distinct : (publishers.map Prod.fst).Nodup) :
    (∃ bucket ∈ entries.foldl (fun publishers entry =>
        Assoc.insert publishers (name entry, (publishers.lookup (name entry)).getD [] ++ [entry])) publishers,
      row ∈ bucket.2) ↔ (∃ bucket ∈ publishers, row ∈ bucket.2) ∨ row ∈ entries := by
  induction entries generalizing publishers with
  | nil => simp
  | cons entry rest ih =>
    rw [List.foldl_cons, ih (Assoc.nodup_insert distinct), mem_joined distinct, List.mem_cons, or_assoc]

/-- The buckets have the names of the entries. -/
theorem named_grouped {name : Json → Text} {usual : Text → Prop} (entries : List Json) {publishers : List (Text × List Json)}
    (before : ∀ bucket ∈ publishers, usual bucket.1) (own : ∀ entry ∈ entries, usual (name entry)) :
    ∀ bucket ∈ entries.foldl (fun publishers entry =>
      Assoc.insert publishers (name entry, (publishers.lookup (name entry)).getD [] ++ [entry])) publishers,
      usual bucket.1 := by
  induction entries generalizing publishers with
  | nil => exact before
  | cons entry rest ih =>
    obtain ⟨first, later⟩ := List.forall_mem_cons.mp own
    refine ih (fun bucket member => ?_) later
    rcases List.mem_append.mp member with old | new
    · exact before bucket (List.mem_filter.mp old).1
    · obtain rfl := List.mem_singleton.mp new
      exact first

theorem holds_rows {rows : List Json} {store : PublisherHistoryStore} (named : ∀ bucket ∈ store.publishers, bucket.1 ≠ "__proto__")
    (entries : ∀ row, row ∈ store.entries ↔ row ∈ rows.mapIdx fun index row => sanitizeHistoryEntry browser row [] index) :
    HoldsEntries browser store rows := by
  refine ⟨named, ?_, ?_⟩
  · intro row held
    obtain ⟨index, inside, rfl⟩ := List.mem_mapIdx.mp ((entries row).mp held)
    exact ⟨_, List.getElem_mem inside, _, _, rfl⟩
  · intro value member
    obtain ⟨index, inside, rfl⟩ := List.mem_iff_getElem.mp member
    exact ⟨_, (entries _).mpr (List.mem_mapIdx.mpr ⟨index, inside, rfl⟩), _, _, rfl⟩

theorem holds_publishers {value : Option Json} {store : PublisherHistoryStore}
    (publishers : store.publishers = sanitizeHistoryPublishers browser value) :
    HoldsEntries browser store ((settable (Json.asObject value)).flatMap fun bucket => Json.items (some bucket.2)) := by
  refine ⟨fun bucket known => ?_, ?_, ?_⟩
  · rw [publishers] at known
    obtain ⟨⟨name, rows⟩, member, read⟩ := List.mem_filterMap.mp known
    cases rows with
    | arr rows =>
      obtain rfl := Option.some.inj read
      exact (mem_settable.mp member).2
    | _ => cases read
  · intro row held
    obtain ⟨bucket, known, inside⟩ := mem_entries.mp held
    rw [publishers] at known
    obtain ⟨⟨name, rows⟩, member, read⟩ := List.mem_filterMap.mp known
    cases rows with
    | arr rows =>
      obtain rfl := Option.some.inj read
      obtain ⟨index, within, rfl⟩ := List.mem_mapIdx.mp inside
      exact ⟨_, List.mem_flatMap.mpr ⟨_, member, List.getElem_mem within⟩, _, _, rfl⟩
    | _ => cases read
  · intro row member
    obtain ⟨⟨name, rows⟩, known, inside⟩ := List.mem_flatMap.mp member
    cases rows with
    | arr rows =>
      obtain ⟨index, within, rfl⟩ := List.mem_iff_getElem.mp inside
      have held : (name, rows.mapIdx fun index row => sanitizeHistoryEntry browser row name index) ∈ store.publishers := by
        rw [publishers]
        exact List.mem_filterMap.mpr ⟨_, known, rfl⟩
      exact ⟨_, mem_entries.mpr ⟨_, held, List.mem_mapIdx.mpr ⟨index, within, rfl⟩⟩, _, _, rfl⟩
    | _ => cases inside

theorem readHistory_holds {stored : Option Json} {store : PublisherHistoryStore}
    (read : readHistory browser stored = some store) : HoldsEntries browser store (storedEntries stored) := by
  unfold readHistory at read
  split at read
  · rename_i rows
    dsimp only at read
    split at read
    · cases read
    · next usual =>
      obtain rfl := Option.some.inj read
      have distinct : (([] : List (Text × List Json)).map Prod.fst).Nodup := List.nodup_nil
      show HoldsEntries browser _ rows
      refine holds_rows ?_ fun row => ?_
      · refine @named_grouped _ (fun name => name ≠ "__proto__") _ [] (fun _ none_ => absurd none_ List.not_mem_nil) ?_
        intro entry member inherited
        apply usual
        exact List.any_eq_true.mpr ⟨entry, member, decide_eq_true (by rw [inherited]; decide)⟩
      · rw [mem_entries, sanitizePublisherHistory, mem_grouped _ distinct]
        simp
  · rename_i unlisted
    obtain rfl := Option.some.inj read
    have publishers : (sanitizePublisherHistory browser stored).publishers =
        sanitizeHistoryPublishers browser (Record.prop (Json.asObject stored) "publishers") := by
      unfold sanitizePublisherHistory
      split
      · rename_i rows
        exact absurd rfl (unlisted rows)
      · rfl
    have entries : storedEntries stored =
        (settable (Json.asObject (Record.prop (Json.asObject stored) "publishers"))).flatMap fun bucket =>
          Json.items (some bucket.2) := by
      unfold storedEntries
      split
      · rename_i rows
        exact absurd rfl (unlisted rows)
      · rfl
    rw [entries]
    exact holds_publishers publishers

theorem readHistory_twice_iff
    (upper_twice : ∀ text, browser.toUpperCase (browser.toUpperCase text) = browser.toUpperCase text)
    (upper_empty : ∀ text, browser.toUpperCase text = [] ↔ text = []) (stored : Option Json) :
    ((readHistory browser stored).bind fun store => readHistory browser (some store.toJson)) = readHistory browser stored ↔
      readHistory browser stored = none ∨ ∀ entry ∈ storedEntries stored, Readable entry := by
  cases read : readHistory browser stored with
  | none => simp
  | some store =>
    rw [Option.bind_some, (readHistory_holds read).twice_iff upper_twice upper_empty]
    simp

end

/-! ### Entries that the panel builds -/

def PublisherHistoryStore.entryAt (store : PublisherHistoryStore) (bucket : Text) (index : Nat) : Option Json :=
  (store.publishers.lookup bucket).bind (·[index]?)

theorem readHistory_entryAt {browser : Browser} {store : PublisherHistoryStore} {bucket : Text} {index : Nat} {entry : Json}
    (stored : store.entryAt bucket index = some entry) :
    (readHistory browser (some store.toJson)).bind (·.entryAt bucket index) =
      if bucket = "__proto__" then none else some (sanitizeHistoryEntry browser entry bucket index) := by
  obtain ⟨rows, found, inside⟩ := Option.bind_eq_some_iff.mp stored
  have read := Assoc.lookup_mapWithKey
    (fun name rows => rows.mapIdx fun index row => sanitizeHistoryEntry browser row name index)
    (settable store.publishers) bucket
  rw [settable, Assoc.lookup_filter store.publishers (fun name => name != ("__proto__" : Text)), found] at read
  rw [readHistory_toJson, Option.bind_some, PublisherHistoryStore.entryAt]
  dsimp only
  rw [settable, read]
  by_cases hidden : bucket = "__proto__"
  · simp [hidden]
  · rw [if_pos (bne_iff_ne.mpr hidden), if_neg hidden, Option.map_some, Option.bind_some, List.getElem?_mapIdx, inside,
      Option.map_some]

section
variable {panel : Panel} {publisher : Record} {response : PublishResponse} {sent : List (Text × Text)}

theorem built_headers : (buildHistoryEntry panel publisher response sent).prop "headers" =
    some (.arr ((headersOfPublisher publisher).map historyHeader)) := by
  simp [buildHistoryEntry, Record.prop, lit, List.lookup_cons]

theorem built_metadata : (buildHistoryEntry panel publisher response sent).prop "metadata" =
    some (.arr (((headersOfPublisher publisher).filter isSentHeader).map historyMetadataRow)) := by
  simp [buildHistoryEntry, Record.prop, lit, List.lookup_cons]

theorem sentHeaders_rows (headers : HeaderRows (headersOfPublisher publisher)) :
    MetadataRows (((headersOfPublisher publisher).filter isSentHeader).map historyMetadataRow) := by
  intro row member
  obtain ⟨header, known, rfl⟩ := List.mem_map.mp member
  obtain ⟨key, value, enabled, rfl⟩ := headers header (List.mem_filter.mp known).1
  exact ⟨key, value, rfl⟩

/-- The metadata of an entry is read back as it was exactly when one of its headers is sent, or it has none. -/
theorem built_metadata_read (headers : HeaderRows (headersOfPublisher publisher)) (browser : Browser) (bucket : Text)
    (index : Nat) :
    (sanitizeHistoryEntry browser (.obj (buildHistoryEntry panel publisher response sent)) bucket index).get? "metadata" =
        (Json.obj (buildHistoryEntry panel publisher response sent)).get? "metadata" ↔
      headersOfPublisher publisher = [] ∨ ∃ row ∈ headersOfPublisher publisher, isSentHeader row = true := by
  have before : (Json.obj (buildHistoryEntry panel publisher response sent)).get? "metadata" = _ := built_metadata
  have headerRows : headerRowsOf (buildHistoryEntry panel publisher response sent) =
      ((headersOfPublisher publisher).map historyHeader).map sanitizeHeaderRow := by
    rw [headerRowsOf, built_headers, Json.items]
  have metadataRows : metadataRowsOf (buildHistoryEntry panel publisher response sent) =
      ((headersOfPublisher publisher).filter isSentHeader).map historyMetadataRow := by
    rw [metadataRowsOf, built_metadata, Json.items, (sentHeaders_rows headers).sanitize]
  have after : (sanitizeHistoryEntry browser (.obj (buildHistoryEntry panel publisher response sent)) bucket index).get?
      "metadata" = some (.arr (historyFields browser (buildHistoryEntry panel publisher response sent) bucket index).metadata) := by
    rw [sanitizeHistoryEntry_eq]
    simp [Json.get?, Json.asObject, HistoryFields.toRecord, lit, List.lookup_cons]
  have merged : (historyFields browser (buildHistoryEntry panel publisher response sent) bucket index).metadata =
      mergedMetadata (((headersOfPublisher publisher).map historyHeader).map sanitizeHeaderRow)
        (((headersOfPublisher publisher).filter isSentHeader).map historyMetadataRow) := by
    rw [← headerRows, ← metadataRows]
    rfl
  rw [after, before, merged, Option.some.injEq, Json.arr.injEq, mergedMetadata]
  split
  · rename_i none_
    have unsent : (headersOfPublisher publisher).filter isSentHeader = [] := by simpa using none_
    rw [unsent, List.map_nil, List.map_eq_nil_iff, List.map_eq_nil_iff, List.map_eq_nil_iff]
    rw [List.filter_eq_nil_iff] at unsent
    refine (or_iff_left ?_).symm
    rintro ⟨row, member, isSent⟩
    exact unsent row member isSent
  · rename_i some_
    obtain ⟨row, member⟩ := List.exists_mem_of_ne_nil ((headersOfPublisher publisher).filter isSentHeader) (by simpa using some_)
    exact iff_of_true rfl (.inr ⟨row, List.mem_filter.mp member⟩)

/-- The metadata of an entry that the panel built is read back exactly when its list is and one of its headers is sent, or
it has none. A history that is sanitized again stays the same exactly when its texts can be read, or it is not read. -/
theorem history_read_back_iff (panel : Panel)
    (upper_twice : ∀ text, panel.toUpperCase (panel.toUpperCase text) = panel.toUpperCase text)
    (upper_empty : ∀ text, panel.toUpperCase text = [] ↔ text = []) :
    (∀ publisher response sent store bucket index, HeaderRows (headersOfPublisher publisher) →
      PublisherHistoryStore.entryAt store bucket index = some (.obj (buildHistoryEntry panel publisher response sent)) →
      (((readHistory panel.toBrowser (some store.toJson)).bind (·.entryAt bucket index)).bind (Json.get? "metadata") =
          (Json.obj (buildHistoryEntry panel publisher response sent)).get? "metadata" ↔
        bucket ≠ "__proto__" ∧
          (headersOfPublisher publisher = [] ∨ ∃ row ∈ headersOfPublisher publisher, isSentHeader row = true))) ∧
      ∀ stored,
        ((readHistory panel.toBrowser stored).bind fun store => readHistory panel.toBrowser (some store.toJson)) =
            readHistory panel.toBrowser stored ↔
          readHistory panel.toBrowser stored = none ∨ ∀ entry ∈ storedEntries stored, Readable entry := by
  constructor
  · intro publisher response sent store bucket index headers stored
    rw [readHistory_entryAt stored]
    split
    · next hidden =>
      have before : (Json.obj (buildHistoryEntry panel publisher response sent)).get? "metadata" = _ := built_metadata
      rw [before]
      exact iff_of_false (fun same => by cases same) fun both => both.1 hidden
    · next shown =>
      rw [Option.bind_some, built_metadata_read headers panel.toBrowser bucket index, and_iff_right shown]
  · exact readHistory_twice_iff upper_twice upper_empty

def plainPanel : Panel where
  toBrowser := { MessageView.plainBrowser with toUpperCase := toAsciiUppercase }
  requestBarFields kind := if kind = ("http" : Text) then [{ inputId := .url, field := "url" }] else []
  parseUrl _ := none

theorem history_read_back_iff_plain :
    (∀ publisher response sent store bucket index, HeaderRows (headersOfPublisher publisher) →
      PublisherHistoryStore.entryAt store bucket index = some (.obj (buildHistoryEntry plainPanel publisher response sent)) →
      (((readHistory plainPanel.toBrowser (some store.toJson)).bind (·.entryAt bucket index)).bind (Json.get? "metadata") =
          (Json.obj (buildHistoryEntry plainPanel publisher response sent)).get? "metadata" ↔
        bucket ≠ "__proto__" ∧
          (headersOfPublisher publisher = [] ∨ ∃ row ∈ headersOfPublisher publisher, isSentHeader row = true))) ∧
      ∀ stored,
        ((readHistory plainPanel.toBrowser stored).bind fun store => readHistory plainPanel.toBrowser (some store.toJson)) =
            readHistory plainPanel.toBrowser stored ↔
          readHistory plainPanel.toBrowser stored = none ∨ ∀ entry ∈ storedEntries stored, Readable entry :=
  history_read_back_iff plainPanel toAsciiUppercase_idempotent fun _ => List.map_eq_nil_iff

def disabledHeader : Record := [("id", .str "p1"), ("headers", .arr [headerRow "authorization" "Bearer token" false])]

def accepted : PublishResponse where
  status := 200
  statusText := "OK"
  duration := 5
  responseData := .null
  now := 10

/-- The only header is disabled, and it is metadata once the entry was read. -/
theorem disabledHeader_read_as_metadata :
    ¬∀ publisher response sent store bucket index, HeaderRows (headersOfPublisher publisher) →
      PublisherHistoryStore.entryAt store bucket index = some (.obj (buildHistoryEntry plainPanel publisher response sent)) →
      ((readHistory plainPanel.toBrowser (some store.toJson)).bind (·.entryAt bucket index)).bind (Json.get? "metadata") =
        (Json.obj (buildHistoryEntry plainPanel publisher response sent)).get? "metadata" := by
  intro kept
  have rows : HeaderRows (headersOfPublisher disabledHeader) := by
    intro row member
    obtain rfl := List.mem_singleton.mp member
    exact ⟨_, _, _, rfl⟩
  have stored : PublisherHistoryStore.entryAt
      { publishers := [("p1", [.obj (buildHistoryEntry plainPanel disabledHeader accepted [])])] } "p1" 0 =
        some (.obj (buildHistoryEntry plainPanel disabledHeader accepted [])) := rfl
  have same := kept disabledHeader accepted [] _ "p1" 0 rows stored
  rw [readHistory_entryAt stored, if_neg (by decide), Option.bind_some, built_metadata_read rows] at same
  rcases same with none_ | ⟨row, member, isSent⟩
  · cases none_
  · obtain rfl := List.mem_singleton.mp member
    cases isSent

end

end MqBridge.Workspace
