import MqBridgeApp.Workspace.Entities
import MqBridgeApp.Lib.Properties
import MqBridgeApp.Lib.Steps

/-!
# Messages in browser storage

The view of the publishers keeps the payloads and headers that were edited and the history of what was
sent in the browser's storage. An import encrypts the history that it writes when messages are
encrypted. The view itself does not look at the storage security.
-/

namespace MqBridge.Workspace
open Text

structure StorageSecurityInfo where
  messagesEncrypted : Bool
  messageKeyHex : Option Text := none
  kid : Option Text := none

/-- What the mode of the configuration says where the server said nothing. -/
def fallbackStorageSecurity (mode : Text) : StorageSecurityInfo where
  messagesEncrypted := mode ∈ (["durable", "sensitive", "env_temporary_messages", "temporary_messages"] : List Text)

def resolveStorageSecurity (runtimeInfo : Option StorageSecurityInfo) (mode : Text) : StorageSecurityInfo :=
  runtimeInfo.getD (fallbackStorageSecurity mode)

def hasEncryptedMessages (info : StorageSecurityInfo) : Bool :=
  info.messagesEncrypted && info.messageKeyHex.any fun key => !key.isEmpty

def sanitizeConfigSecurity (config : Record) : Text :=
  match (config.prop "config_security").bind (Json.get? "mode") with
  | some (.str mode) =>
    if mode ∈ (["unencrypted", "balanced", "env_temporary_messages", "temporary_messages", "sensitive", "durable"] :
      List Text) then mode else "balanced"
  | _ => "balanced"

def isSensitiveConfig (config : Record) : Bool :=
  sanitizeConfigSecurity config = "sensitive" ∨ sanitizeConfigSecurity config = "durable"

/-- What the view relies on besides `Forms`: ids that are not blank, `toUpperCase`, and
`crypto.subtle.encrypt` under a key in hexadecimal, which is refused where it is not one. -/
structure Browser extends Forms where
  createLocalEntityId_full : ∀ input, jsTrim (createLocalEntityId input) ≠ []
  toUpperCase : Text → Text
  encrypt : Text → Text → Text → Json → Option Text

def envelope (kid nonce ciphertext : Text) : Json :=
  .obj [("v", .num (.ofNat 1)), ("alg", .str "AES-256-GCM"), ("kid", .str kid), ("nonce", .str nonce),
    ("ciphertext", .str ciphertext)]

def kidOf (security : StorageSecurityInfo) : Text :=
  (security.kid.filter fun kid => !kid.isEmpty).getD "ephemeral-process"

/-! ### The history of a publisher -/

structure PublisherHistoryStore where
  version : JsonNumber := .ofNat 1
  updated_at : JsonNumber := .ofNat 0
  publishers : List (Text × List Json) := []

def PublisherHistoryStore.toJson (store : PublisherHistoryStore) : Json :=
  .obj [("version", .num store.version), ("updated_at", .num store.updated_at),
    ("publishers", .obj (store.publishers.map fun bucket => (bucket.1, .arr bucket.2)))]

def sanitizeHeaderRow (headerRow : Json) : Json :=
  .obj [("key", .str (nullishText (headerRow.get? "key"))), ("value", .str (nullishText (headerRow.get? "value"))),
    ("enabled", .bool (headerRow.get? "enabled" != some (.bool false)))]

def sanitizeHistoryMetadataRow (row : Json) : Json :=
  .obj [("k", .str (nullishText ((Json.present (row.get? "k")).or (row.get? "key")))),
    ("v", .str (nullishText ((Json.present (row.get? "v")).or (row.get? "value"))))]

def sanitizeStringMap (value : Option Json) : Record :=
  (settable (Json.asObject value)).map fun property => (property.1, .str (nullishText (some property.2)))

/-- `value ? String(value) : undefined` -/
def truthyText (value : Option Json) : Option Json :=
  (value.filter Json.truthy).map fun value => .str value.toText

/-- A number, or the one that stands in for it. -/
def numberOr (fallback : JsonNumber) : Option Json → JsonNumber
  | some (.num n) => n
  | _ => fallback

section
variable (browser : Browser)

def sanitizeHistoryEntry (value : Json) (fallbackName : Text) (index : Nat) : Json :=
  let entry : Record := Json.asObject (some value)
  let headers := (Json.items (entry.prop "headers")).map sanitizeHeaderRow
  let metadata := (Json.items (entry.prop "metadata")).map sanitizeHistoryMetadataRow
  let mergedMetadata :=
    if metadata.isEmpty then
      headers.map fun header => .obj (Record.put (Record.put [] "k" (header.get? "key")) "v" (header.get? "value"))
    else metadata
  let mergedHeaders :=
    if headers.isEmpty then
      mergedMetadata.map fun row =>
        .obj (Record.assign (Record.put (Record.put [] "key" (row.get? "k")) "value" (row.get? "v")) "enabled" (.bool true))
    else headers
  let requestFields := sanitizeStringMap (entry.prop "request_fields")
  let url := truthyText (entry.prop "url")
  let requestFields :=
    if url.any Json.truthy && !(requestFields.prop "url").any Json.truthy then requestFields.put "url" url else requestFields
  let method := (truthyText (entry.prop "method")).map fun method => .str (browser.toUpperCase method.toText)
  let status := numberOr (.ofNat 0) (entry.prop "status")
  let statusInfo : Record :=
    match entry.prop "status_info" with
    | some (.obj info) => info
    | _ =>
      Record.put [("code", .num status),
        ("label", ((entry.prop "displayStatus").filter Json.truthy).getD (.num status)),
        ("text", (((entry.prop "displayStatusText").filter Json.truthy).or
          ((entry.prop "statusText").filter Json.truthy)).getD (.str []))] "ok" (entry.prop "ok")
  let name := Json.textOr (if fallbackName.isEmpty then "History entry " ++ (Json.num (.ofNat (index + 1))).toText
    else fallbackName) (entry.prop "name")
  let result : Record := [("name", .str name), ("payload", .str (Json.textOr [] (entry.prop "payload"))),
    ("headers", .arr mergedHeaders), ("metadata", .arr mergedMetadata), ("request_fields", .obj requestFields),
    ("requestMetadata", .obj (sanitizeStringMap (entry.prop "requestMetadata"))), ("status", .num status),
    ("status_info", .obj statusInfo), ("duration", .num (numberOr (.ofNat 0) (entry.prop "duration"))),
    ("time", .num (numberOr (.ofNat index) (entry.prop "time"))),
    ("pinned", .bool (entry.prop "pinned" == some (.bool true)))]
  let result := result.put "publisher_id" (truthyText (entry.prop "publisher_id"))
  let result := result.put "endpoint_type" (truthyText (entry.prop "endpoint_type"))
  let result := (result.put "method" method).put "url" url
  let result := result.put "targetLabel" (truthyText (entry.prop "targetLabel"))
  let result := result.put "responseData" (entry.prop "responseData")
  let result := result.put "ok" ((entry.prop "ok").filter fun ok => ok matches .bool _)
  let result := result.put "statusText" (truthyText (entry.prop "statusText"))
  let result := result.put "displayStatus" (truthyText (entry.prop "displayStatus"))
  .obj (result.put "displayStatusText" (truthyText (entry.prop "displayStatusText")))

def sanitizeHistoryPublishers (value : Option Json) : List (Text × List Json) :=
  (settable (Json.asObject value)).filterMap fun bucket =>
    match bucket.2 with
    | .arr rows => some (bucket.1, rows.mapIdx fun index row => sanitizeHistoryEntry browser row bucket.1 index)
    | _ => none

def sanitizePublisherHistory : Option Json → PublisherHistoryStore
  | some (.arr rows) =>
    let entries := rows.mapIdx fun index row => sanitizeHistoryEntry browser row [] index
    { publishers := entries.foldl (fun publishers entry =>
        let name := Json.textOr [] (entry.get? "name")
        Assoc.insert publishers (name, (publishers.lookup name).getD [] ++ [entry])) [] }
  | value =>
    let entry : Record := Json.asObject value
    { version := numberOr (.ofNat 1) (entry.prop "version")
      updated_at := numberOr (.ofNat 0) (entry.prop "updated_at")
      publishers := sanitizeHistoryPublishers browser (entry.prop "publishers") }

end

def hasPublisherHistoryEntries (store : PublisherHistoryStore) : Bool :=
  store.publishers.any fun bucket => !bucket.2.isEmpty

/-! ### The view -/

def publisherStateKey : Text := "mqb_publisher_state"

def publisherHistoryKey : Text := "mqb_publisher_history"

/-- A write to the storage: what is set, or nothing when the key is removed, and whether messages were
encrypted then. -/
structure StorageWrite where
  key : Text
  value : Option Json
  encrypted : Bool

structure MessageView where
  /-- What the server said, if it did, and the mode of the configuration. -/
  runtimeInfo : Option StorageSecurityInfo := none
  mode : Text := "balanced"
  publishers : List Record := []
  selectedIndex : Nat := 0
  nextHeaderRowId : Nat := 1
  localPublisherState : Record := []
  historyStore : PublisherHistoryStore := {}
  /-- What was read from the storage at the start. The object with the states is shared with the view. -/
  cachedState : Option Record := none
  cachedHistory : Option Json := none
  /-- What `JSON.parse` makes of the texts under the keys, where it does not fail. -/
  storage : List (Text × Option Json) := []
  writes : List StorageWrite := []

inductive MessageAction where
  | init (publishers : List Record) (history : Option Json) (selectedIndex : Nat)
  | select (index : Nat)
  | editPayload (value : Text)
  | editHeaders (rows : List Record)
  /-- Sends, and gets the entry for the history unless the request fails. -/
  | send (entry : Option Json) (now : JsonNumber)
  | showHistory (historyIndex : Nat)
  | resend (historyIndex : Nat) (entry : Option Json) (now : JsonNumber)
  | clearHistory
  /-- Deletes the publisher and saves the list, which is read back unless the save fails. -/
  | delete (saved : Option (List Record))
  /-- Saves an imported configuration, as the server gives it back. -/
  | importConfig (nextConfig : Record) (nonce : Text)

def publisherStorageKeysFor (publisher : Record) : List Text :=
  ([jsTrim (Json.textOr [] (publisher.prop "id")), jsTrim (Json.textOr [] (publisher.prop "name"))].filter
    fun key => !key.isEmpty).eraseDups

def historyBucketKeyFor (publisher : Record) : Text :=
  Json.textOr (Json.textOr [] (publisher.prop "name")) (publisher.prop "id")

namespace MessageView

section
variable (view : MessageView)

def inForce : StorageSecurityInfo := resolveStorageSecurity view.runtimeInfo view.mode

def setItem (key : Text) (value : Json) : MessageView :=
  { view with
    storage := Assoc.insert view.storage (key, some value)
    writes := view.writes ++ [{ key, value := some value, encrypted := view.inForce.messagesEncrypted }] }

def removeStoredJson (key : Text) : MessageView :=
  { view with
    storage := Assoc.erase view.storage key
    writes := view.writes ++ [{ key, value := none, encrypted := view.inForce.messagesEncrypted }] }

def persistLocalState : MessageView := view.setItem publisherStateKey (.obj view.localPublisherState)

def persistHistory : MessageView := view.setItem publisherHistoryKey view.historyStore.toJson

/-- The position of the current publisher: the first one stands in when none is selected. -/
def currentIndex : Nat := if view.selectedIndex < view.publishers.length then view.selectedIndex else 0

def currentPublisher : Option Record := view.publishers[view.currentIndex]?

def setCurrent (publisher : Record) : MessageView :=
  { view with publishers := view.publishers.set view.currentIndex publisher }

def withLocalState (localPublisherState : Record) : MessageView :=
  { view with localPublisherState, cachedState := view.cachedState.map fun _ => localPublisherState }

def readLocalPublisherState (publisher : Record) : Option Json :=
  (publisherStorageKeysFor publisher).findSome? fun key =>
    (view.localPublisherState.prop key).filter fun entry => entry matches .obj _ | .arr _

/-- The state of a publisher with what is given of it, and with what was known for the rest. -/
def nextLocalState (publisher : Record) (payload headers : Option Json) : Record :=
  let existing := view.readLocalPublisherState publisher
  [("payload", ((payload.or (Json.present (existing.bind (Json.get? "payload")))).or
      (Json.present (publisher.prop "payload"))).getD (.str "{}")),
    ("headers", (headers.or (Json.present (existing.bind (Json.get? "headers")))).getD (.arr []))]

def setLocalPublisherState (publisher : Record) (payload headers : Option Json) : MessageView :=
  let nextValue := view.nextLocalState publisher payload headers
  let writes := (publisherStorageKeysFor publisher).map fun key => (key, Json.obj nextValue)
  (view.withLocalState (Assoc.insertAll view.localPublisherState writes)).persistLocalState

def currentHistoryEntries (publisher : Record) : List Json :=
  ((publisherStorageKeysFor publisher).findSome? fun key => view.historyStore.publishers.lookup key).getD []

/-- The states as they were preloaded, or as they are stored. -/
def loadLocalState : MessageView :=
  match view.cachedState with
  | some preloaded => view.withLocalState preloaded
  | none => view.withLocalState (Json.asObject (view.storage.lookup publisherStateKey).join)

section
variable (browser : Browser)

/-- The history as it was preloaded, or as it is stored, where there is one with entries. -/
def recalledHistory : Option PublisherHistoryStore :=
  let sanitized := fun value : Json => sanitizePublisherHistory browser (some value)
  let preloaded := (view.cachedHistory.filter Json.truthy).map sanitized
  let stored := (view.storage.lookup publisherHistoryKey).join.map sanitized
  (preloaded.filter hasPublisherHistoryEntries).or (stored.filter hasPublisherHistoryEntries)

def hydrateHistory (history : Option Json) : MessageView :=
  match view.recalledHistory browser with
  | some historyStore => { view with historyStore }
  | none => { view with historyStore := sanitizePublisherHistory browser history }.persistHistory

def initPublishers (publishers : List Record) (history : Option Json) (selectedIndex : Nat) : MessageView :=
  let view := ({ view with nextHeaderRowId := 1 }.loadLocalState).hydrateHistory browser history
  { view with
    publishers := publishers.map (normalizePublisher browser.toForms)
    selectedIndex := min selectedIndex (publishers.length - 1) }

def updatePublisherPayload (publisher : Record) (value : Text) : MessageView :=
  let publisher := publisher.assign "payload" (.str value)
  (view.setCurrent publisher).setLocalPublisherState publisher (some (.str value)) none

def syncMetadataRowsToPublisher (publisher : Record) (rows : List Record) : MessageView :=
  let publisher := publisher.assign "headers" (.arr (rows.map fun row => .obj (row.put "id" none)))
  (view.setCurrent publisher).setLocalPublisherState publisher none (some (.arr (rows.map .obj)))

def sendPublisherAction (publisher : Record) (entry : Option Json) (now : JsonNumber) : MessageView :=
  match entry with
  | some entry =>
    let historyKey := historyBucketKeyFor publisher
    let bucket := entry :: (view.historyStore.publishers.lookup historyKey).getD []
    let publishers := Assoc.insert view.historyStore.publishers (historyKey, bucket)
    { view with historyStore := { view.historyStore with publishers, updated_at := now } }.persistHistory
  | none => view

def clearActivePublisherHistory (publisher : Record) : MessageView :=
  { view with
    historyStore :=
      { view.historyStore with
        publishers := Assoc.erase view.historyStore.publishers (historyBucketKeyFor publisher) } }.persistHistory

/-- The header rows of an entry, with ids from the next one on. -/
def headersOf (entry : Json) : List Record :=
  (Json.items (entry.get? "metadata")).mapIdx fun index row =>
    Record.put (Record.put [("id", .num (.ofNat (view.nextHeaderRowId + index))), ("enabled", .bool true)]
      "key" (row.get? "k")) "value" (row.get? "v")

def showPublisherHistoryEntry (publisher : Record) (entry : Json) : MessageView :=
  let publisher := publisher.put "payload" (entry.get? "payload")
  let headers := view.headersOf entry
  let view := { view.setCurrent publisher with nextHeaderRowId := view.nextHeaderRowId + headers.length }
  view.setLocalPublisherState publisher (Json.present (entry.get? "payload")) (some (.arr (headers.map .obj)))

def deleteCurrentPublisherAction (publisher : Record) (saved : Option (List Record)) : MessageView :=
  let keys := publisherStorageKeysFor publisher
  let view := { view with publishers := view.publishers.eraseIdx view.selectedIndex }
  let view := view.withLocalState (keys.foldl Assoc.erase view.localPublisherState)
  let view :=
    { view with
      historyStore :=
        { view.historyStore with publishers := keys.foldl Assoc.erase view.historyStore.publishers } }
  let view := view.persistLocalState.persistHistory
  let view :=
    match saved with
    | some saved => { view with publishers := saved.map (normalizePublisher browser.toForms) }
    | none => view
  { view with selectedIndex := min view.selectedIndex (view.publishers.length - 1) }

/-- Sets a value as an envelope where messages are encrypted and there is a key. -/
def setStoredJson (key : Text) (value : Json) (security : StorageSecurityInfo) (nonce : Text) : MessageView :=
  if hasEncryptedMessages security then
    match browser.encrypt (security.messageKeyHex.getD []) nonce ("mq-bridge-app:localStorage:" ++ key) value with
    | some ciphertext => view.setItem key (envelope (kidOf security) nonce ciphertext)
    | none => view
  else view.setItem key value

def saveImportedConfig (nextConfig : Record) (nonce : Text) : MessageView :=
  let view := { view with mode := sanitizeConfigSecurity nextConfig }
  let history := (sanitizePublisherHistory browser (nextConfig.prop "history")).toJson
  if hasEncryptedMessages view.inForce then view.setStoredJson browser publisherHistoryKey history view.inForce nonce
  else if view.inForce.messagesEncrypted then view.removeStoredJson publisherHistoryKey
  else if !isSensitiveConfig nextConfig then
    view.setStoredJson browser publisherHistoryKey history view.inForce nonce
  else view.removeStoredJson publisherHistoryKey

/-- What is done to the current publisher, if there is one. -/
def onCurrent (act : Record → MessageView) : MessageView := (view.currentPublisher.map act).getD view

/-- What is done to the current publisher and an entry of its history, if there are both. -/
def onEntry (historyIndex : Nat) (act : Record → Json → MessageView) : MessageView :=
  view.onCurrent fun publisher =>
    ((view.currentHistoryEntries publisher)[historyIndex]?.map fun entry => act publisher entry).getD view

def step : MessageAction → Option MessageView
  | .init publishers history selectedIndex => some (view.initPublishers browser publishers history selectedIndex)
  | .select index => some { view with selectedIndex := min index (view.publishers.length - 1) }
  | .editPayload value => some (view.onCurrent fun publisher => view.updatePublisherPayload publisher value)
  | .editHeaders rows => some (view.onCurrent fun publisher => view.syncMetadataRowsToPublisher publisher rows)
  | .send entry now => some (view.onCurrent fun publisher => view.sendPublisherAction publisher entry now)
  | .showHistory historyIndex => some (view.onEntry historyIndex view.showPublisherHistoryEntry)
  | .resend historyIndex sent now =>
    some (view.onEntry historyIndex fun publisher entry =>
      let view := view.showPublisherHistoryEntry publisher entry
      view.onCurrent fun publisher => view.sendPublisherAction publisher sent now)
  | .clearHistory => some (view.onCurrent view.clearActivePublisherHistory)
  | .delete saved => some (view.onCurrent fun publisher => view.deleteCurrentPublisherAction browser publisher saved)
  | .importConfig nextConfig nonce => some (view.saveImportedConfig browser nextConfig nonce)

end

end

/-! ### What is written -/

def IsEnvelope (value : Json) : Prop := ∃ kid nonce ciphertext, value = envelope kid nonce ciphertext

/-- What was set while messages were encrypted is an envelope. -/
def Sealed (view : MessageView) : Prop :=
  ∀ write ∈ view.writes, write.encrypted = true → ∀ value ∈ write.value, IsEnvelope value

/-- While messages are encrypted, nothing is edited, sent, shown again, cleared or deleted, and the view starts
only with a history to recall. -/
def Quiet (browser : Browser) (view : MessageView) (action : MessageAction) : Prop :=
  view.inForce.messagesEncrypted = true →
    match action with
    | .init .. => (view.recalledHistory browser).isSome
    | .select _ | .importConfig .. => True
    | .editPayload _ | .editHeaders _ | .clearHistory | .delete _ => view.currentPublisher = none
    | .send entry _ => view.currentPublisher = none ∨ entry = none
    | .showHistory historyIndex | .resend historyIndex _ _ =>
      ∀ publisher ∈ view.currentPublisher, (view.currentHistoryEntries publisher)[historyIndex]? = none

def Keyed (view : MessageView) : Prop := ∀ publisher ∈ view.publishers, publisherStorageKeysFor publisher ≠ []

section
variable {browser : Browser} {view : MessageView} {publisher : Record}

theorem envelope_lookup {key : Text} {entries : Record} {value : Json} (isEnvelope : IsEnvelope (.obj entries))
    (held : entries.lookup key = some value) : (∃ n, value = .num n) ∨ ∃ text, value = .str text := by
  obtain ⟨kid, nonce, ciphertext, same⟩ := isEnvelope
  obtain rfl := Json.obj.inj same
  have member := Assoc.mem_of_lookup held
  simp only [List.mem_cons, Prod.mk.injEq, List.not_mem_nil, or_false] at member
  rcases member with ⟨-, rfl⟩ | ⟨-, rfl⟩ | ⟨-, rfl⟩ | ⟨-, rfl⟩ | ⟨-, rfl⟩
  · exact .inl ⟨_, rfl⟩
  all_goals exact .inr ⟨_, rfl⟩

theorem not_envelope (key : Text) {entries inner : Record} (held : entries.lookup key = some (.obj inner)) :
    ¬ IsEnvelope (.obj entries) := by
  intro isEnvelope
  rcases envelope_lookup isEnvelope held with ⟨n, same⟩ | ⟨text, same⟩ <;> cases same

theorem history_not_envelope (store : PublisherHistoryStore) : ¬ IsEnvelope store.toJson :=
  not_envelope "publishers" rfl

theorem keys_normalize (input : Record) :
    publisherStorageKeysFor (normalizePublisher browser.toForms input) ≠ [] := by
  have full : jsTrim (browser.entityId input) ≠ [] := by
    simp only [Forms.entityId]
    split
    · exact browser.createLocalEntityId_full input
    · rename_i given
      rw [jsTrim_idempotent]
      simpa using given
  apply List.ne_nil_of_mem (a := jsTrim (browser.entityId input))
  unfold publisherStorageKeysFor
  rw [List.mem_eraseDups, List.mem_filter]
  constructor
  · simp [Record.prop]
  · simpa using full

theorem keys_congr {other : Record} (id : other.prop "id" = publisher.prop "id")
    (name : other.prop "name" = publisher.prop "name") :
    publisherStorageKeysFor other = publisherStorageKeysFor publisher := by
  unfold publisherStorageKeysFor
  rw [id, name]

theorem keys_put (value : Option Json) {key : Text} (id : key ≠ "id") (name : key ≠ "name") :
    publisherStorageKeysFor (publisher.put key value) = publisherStorageKeysFor publisher := by
  apply keys_congr <;> rw [Record.prop, Record.lookup_put, if_neg]
  · simpa using id.symm
  · simpa using name.symm

theorem keys_assign {key : Text} (value : Json) (id : key ≠ "id") (name : key ≠ "name") :
    publisherStorageKeysFor (publisher.assign key value) = publisherStorageKeysFor publisher :=
  keys_put (some value) id name

theorem sealed_setItem {key : Text} {value : Json} :
    (view.setItem key value).Sealed ↔
      view.Sealed ∧ (view.inForce.messagesEncrypted = true → IsEnvelope value) := by
  unfold Sealed setItem
  simp only [List.mem_append, List.mem_singleton]
  constructor
  · intro all
    refine ⟨fun write member => all write (.inl member), fun encrypted => ?_⟩
    exact all _ (.inr rfl) encrypted value rfl
  · rintro ⟨before, sealed⟩ write (member | rfl) encrypted other held
    · exact before write member encrypted other held
    · obtain rfl := Option.some.inj held
      exact sealed encrypted

theorem sealed_removeStoredJson {key : Text} : (view.removeStoredJson key).Sealed ↔ view.Sealed := by
  unfold Sealed removeStoredJson
  simp only [List.mem_append, List.mem_singleton]
  constructor
  · intro all write member
    exact all write (.inl member)
  · rintro before write (member | rfl) encrypted other held
    · exact before write member encrypted other held
    · cases held

theorem sealed_plain {key : Text} {value : Json} (plain : ¬ IsEnvelope value) :
    (view.setItem key value).Sealed ↔ view.Sealed ∧ view.inForce.messagesEncrypted = false := by
  rw [sealed_setItem, ← Bool.not_eq_true]
  exact and_congr_right fun _ => imp_congr_right fun _ => iff_false_intro plain

theorem sealed_setLocal {payload headers : Option Json} (keyed : publisherStorageKeysFor publisher ≠ []) :
    (view.setLocalPublisherState publisher payload headers).Sealed ↔
      view.Sealed ∧ view.inForce.messagesEncrypted = false := by
  obtain ⟨key, member⟩ := List.exists_mem_of_ne_nil _ keyed
  have held := Assoc.lookup_insertAll_const view.localPublisherState
    (Json.obj (view.nextLocalState publisher payload headers)) member
  exact sealed_plain (not_envelope key held)

theorem sealed_persistHistory : view.persistHistory.Sealed ↔ view.Sealed ∧ view.inForce.messagesEncrypted = false :=
  sealed_plain (history_not_envelope _)

theorem sealed_hydrateHistory (browser : Browser) (view : MessageView) (history : Option Json) :
    (view.hydrateHistory browser history).Sealed ↔
      view.Sealed ∧ (view.inForce.messagesEncrypted = true → (view.recalledHistory browser).isSome) := by
  unfold hydrateHistory
  cases recalled : view.recalledHistory browser with
  | some historyStore => simp [Sealed]
  | none =>
    simp only [Option.isSome_none, Bool.false_eq_true, imp_false, Bool.not_eq_true]
    exact sealed_persistHistory

theorem loadLocalState_eq (view : MessageView) : ∃ states, view.loadLocalState = view.withLocalState states := by
  unfold loadLocalState
  cases view.cachedState with
  | some preloaded => exact ⟨preloaded, rfl⟩
  | none => exact ⟨_, rfl⟩

theorem sealed_initPublishers {publishers : List Record} {history : Option Json} {selectedIndex : Nat} :
    (view.initPublishers browser publishers history selectedIndex).Sealed ↔
      view.Sealed ∧ (view.inForce.messagesEncrypted = true → (view.recalledHistory browser).isSome) := by
  obtain ⟨states, loaded⟩ := loadLocalState_eq { view with nextHeaderRowId := 1 }
  have hydrated := sealed_hydrateHistory browser { view with nextHeaderRowId := 1 }.loadLocalState history
  rw [loaded] at hydrated
  unfold initPublishers
  rw [loaded]
  exact hydrated

theorem sealed_saveImportedConfig {nextConfig : Record} {nonce : Text} :
    (view.saveImportedConfig browser nextConfig nonce).Sealed ↔ view.Sealed := by
  simp only [saveImportedConfig]
  split
  · rename_i able
    simp only [setStoredJson, able, if_true]
    split
    · exact sealed_setItem.trans (and_iff_left fun _ => ⟨_, _, _, rfl⟩)
    · exact Iff.rfl
  · rename_i unable
    split
    · exact sealed_removeStoredJson
    · rename_i open_
      split
      · simp only [setStoredJson, unable]
        exact sealed_setItem.trans (and_iff_left fun encrypted => absurd encrypted open_)
      · exact sealed_removeStoredJson

/-! ### Publishers have keys -/

theorem Keyed.current (keyed : view.Keyed) (current : view.currentPublisher = some publisher) :
    publisherStorageKeysFor publisher ≠ [] :=
  keyed publisher (List.mem_of_getElem? current)

theorem Keyed.setCurrent (keyed : view.Keyed) (own : publisherStorageKeysFor publisher ≠ []) :
    (view.setCurrent publisher).Keyed := by
  intro other member
  rcases List.mem_or_eq_of_mem_set member with old | rfl
  · exact keyed other old
  · exact own

theorem keyed_normalized (stored : List Record) :
    ∀ publisher ∈ stored.map (normalizePublisher browser.toForms), publisherStorageKeysFor publisher ≠ [] := by
  intro publisher member
  obtain ⟨input, -, rfl⟩ := List.mem_map.mp member
  exact keys_normalize input

theorem Keyed.show (keyed : view.Keyed) (own : publisherStorageKeysFor publisher ≠ []) (entry : Json) :
    (view.showPublisherHistoryEntry publisher entry).Keyed := by
  apply keyed.setCurrent
  rw [keys_put _ (by decide) (by decide)]
  exact own

theorem Keyed.send (keyed : view.Keyed) (publisher : Record) (entry : Option Json) (now : JsonNumber) :
    (view.sendPublisherAction publisher entry now).Keyed := by
  cases entry <;> exact keyed

theorem Keyed.onCurrent {act : Record → MessageView} (keyed : view.Keyed)
    (acted : ∀ publisher, publisherStorageKeysFor publisher ≠ [] → (act publisher).Keyed) :
    (view.onCurrent act).Keyed := by
  unfold MessageView.onCurrent
  cases current : view.currentPublisher with
  | none => exact keyed
  | some publisher => exact acted publisher (keyed.current current)

theorem Keyed.onEntry {historyIndex : Nat} {act : Record → Json → MessageView} (keyed : view.Keyed)
    (acted : ∀ publisher entry, publisherStorageKeysFor publisher ≠ [] → (act publisher entry).Keyed) :
    (view.onEntry historyIndex act).Keyed := by
  apply keyed.onCurrent
  intro publisher own
  cases (view.currentHistoryEntries publisher)[historyIndex]? with
  | none => exact keyed
  | some entry => exact acted publisher entry own

theorem Keyed.import (keyed : view.Keyed) (nextConfig : Record) (nonce : Text) :
    (view.saveImportedConfig browser nextConfig nonce).Keyed := by
  have kept : (view.saveImportedConfig browser nextConfig nonce).publishers = view.publishers := by
    simp only [saveImportedConfig, setStoredJson]
    repeat' split
    all_goals rfl
  unfold Keyed
  rw [kept]
  exact keyed

theorem Keyed.step {action : MessageAction} {next : MessageView} (keyed : view.Keyed)
    (stepped : view.step browser action = some next) : next.Keyed := by
  cases action with obtain rfl := Option.some.inj stepped
  | init publishers history selectedIndex => exact keyed_normalized publishers
  | select index => exact keyed
  | editPayload value =>
    apply keyed.onCurrent
    intro publisher own
    apply keyed.setCurrent
    rw [keys_assign _ (by decide) (by decide)]
    exact own
  | editHeaders rows =>
    apply keyed.onCurrent
    intro publisher own
    apply keyed.setCurrent
    rw [keys_assign _ (by decide) (by decide)]
    exact own
  | send entry now => exact keyed.onCurrent fun publisher _ => keyed.send publisher entry now
  | showHistory historyIndex => exact keyed.onEntry fun publisher entry own => keyed.show own entry
  | resend historyIndex sent now =>
    apply keyed.onEntry
    intro publisher entry own
    have shown := keyed.show own entry
    exact shown.onCurrent fun publisher _ => shown.send publisher sent now
  | clearHistory => exact keyed.onCurrent fun publisher _ => keyed
  | delete saved =>
    apply keyed.onCurrent
    intro publisher own
    cases saved with
    | none => exact fun other member => keyed other (List.mem_of_mem_eraseIdx member)
    | some saved => exact keyed_normalized saved
  | importConfig nextConfig nonce => exact keyed.import nextConfig nonce

/-! ### Runs -/

theorem Keyed.sealed_onCurrent {act : Record → MessageView} (keyed : view.Keyed)
    (acted : ∀ publisher, publisherStorageKeysFor publisher ≠ [] →
      ((act publisher).Sealed ↔ view.Sealed ∧ view.inForce.messagesEncrypted = false)) :
    (view.onCurrent act).Sealed ↔
      view.Sealed ∧ (view.inForce.messagesEncrypted = true → view.currentPublisher = none) := by
  unfold MessageView.onCurrent
  cases current : view.currentPublisher with
  | none => simp
  | some publisher => simpa using acted publisher (keyed.current current)

theorem Keyed.sealed_onEntry {historyIndex : Nat} {act : Record → Json → MessageView} (keyed : view.Keyed)
    (acted : ∀ publisher entry, publisherStorageKeysFor publisher ≠ [] →
      ((act publisher entry).Sealed ↔ view.Sealed ∧ view.inForce.messagesEncrypted = false)) :
    (view.onEntry historyIndex act).Sealed ↔
      view.Sealed ∧ (view.inForce.messagesEncrypted = true →
        ∀ publisher ∈ view.currentPublisher, (view.currentHistoryEntries publisher)[historyIndex]? = none) := by
  unfold MessageView.onEntry MessageView.onCurrent
  cases current : view.currentPublisher with
  | none => simp
  | some publisher =>
    cases found : (view.currentHistoryEntries publisher)[historyIndex]? with
    | none => simp only [Option.map_some, Option.getD_some, Option.mem_def, Option.some.injEq, forall_eq', found,
        Option.map_none, Option.getD_none, imp_true_iff, and_true]
    | some entry =>
      simp only [Option.map_some, Option.getD_some, Option.mem_def, Option.some.injEq, forall_eq', found, reduceCtorEq,
        imp_false, Bool.not_eq_true]
      exact acted publisher entry (keyed.current current)

theorem sealed_send (entry : Option Json) (now : JsonNumber) :
    (view.sendPublisherAction publisher entry now).Sealed ↔
      view.Sealed ∧ (view.inForce.messagesEncrypted = true → entry = none) := by
  cases entry with
  | none => simp [sendPublisherAction]
  | some entry =>
    simp only [reduceCtorEq, imp_false, Bool.not_eq_true]
    exact sealed_persistHistory

theorem sealed_show (own : publisherStorageKeysFor publisher ≠ []) (entry : Json) :
    (view.showPublisherHistoryEntry publisher entry).Sealed ↔
      view.Sealed ∧ view.inForce.messagesEncrypted = false := by
  apply sealed_setLocal
  rw [keys_put _ (by decide) (by decide)]
  exact own

theorem open_and {encrypted : Bool} {needed : Prop} :
    encrypted = false ∧ (encrypted = true → needed) ↔ encrypted = false := by
  cases encrypted <;> simp

theorem sealed_delete (saved : Option (List Record)) :
    (view.deleteCurrentPublisherAction browser publisher saved).Sealed ↔
      view.Sealed ∧ view.inForce.messagesEncrypted = false := by
  have both : ∀ other : MessageView, other.persistLocalState.persistHistory.Sealed ↔
      other.Sealed ∧ other.inForce.messagesEncrypted = false := by
    intro other
    rw [sealed_persistHistory, persistLocalState, sealed_setItem, and_assoc]
    exact and_congr_right fun _ => and_comm.trans open_and
  cases saved <;> exact both _

/-- A step keeps the seal exactly when it is quiet. -/
theorem sealed_step {action : MessageAction} {next : MessageView} (keyed : view.Keyed)
    (stepped : view.step browser action = some next) :
    next.Sealed ↔ view.Sealed ∧ Quiet browser view action := by
  cases action with obtain rfl := Option.some.inj stepped
  | init publishers history selectedIndex => exact sealed_initPublishers
  | select index => exact (and_iff_left fun _ => trivial).symm
  | editPayload value =>
    apply keyed.sealed_onCurrent
    intro publisher own
    apply sealed_setLocal
    rw [keys_assign _ (by decide) (by decide)]
    exact own
  | editHeaders rows =>
    apply keyed.sealed_onCurrent
    intro publisher own
    apply sealed_setLocal
    rw [keys_assign _ (by decide) (by decide)]
    exact own
  | send entry now =>
    unfold MessageView.onCurrent Quiet
    cases current : view.currentPublisher with
    | none => simp
    | some publisher => simpa using sealed_send entry now
  | showHistory historyIndex => exact keyed.sealed_onEntry fun publisher entry own => sealed_show own entry
  | resend historyIndex sent now =>
    apply keyed.sealed_onEntry
    intro publisher entry own
    have shown : (view.showPublisherHistoryEntry publisher entry).Sealed ↔ _ := sealed_show own entry
    simp only [MessageView.onCurrent]
    cases (view.showPublisherHistoryEntry publisher entry).currentPublisher with
    | none => exact shown
    | some other =>
      rw [Option.map_some, Option.getD_some, sealed_send, shown, and_assoc]
      exact and_congr_right fun _ => open_and
  | clearHistory => exact keyed.sealed_onCurrent fun publisher _ => sealed_persistHistory
  | delete saved => exact keyed.sealed_onCurrent fun publisher _ => sealed_delete saved
  | importConfig nextConfig nonce =>
    exact sealed_saveImportedConfig.trans (and_iff_left fun _ => trivial).symm

end

def plainBrowser : Browser where
  toForms := plainForms
  createLocalEntityId_full _ := (by decide : jsTrim "entity_1" ≠ [])
  toUpperCase := id
  encrypt _ _ _ _ := some "c2VhbGVk"

def sentOnce : Json :=
  .obj [("publishers", .obj [("p1", .arr [.obj [("name", .str "audit"), ("payload", .str "{}")]])])]

def keyedSession : MessageView where
  runtimeInfo := some { messagesEncrypted := true, messageKeyHex := some "00ff" }
  cachedHistory := some sentOnce

def auditPublisher : Record := [("id", .str "p1"), ("name", .str "audit"), ("endpoint", .obj [])]

end MessageView

end MqBridge.Workspace
