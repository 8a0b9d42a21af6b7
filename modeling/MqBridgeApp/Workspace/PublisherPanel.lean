import MqBridgeApp.Workspace.Drafts
import MqBridgeApp.Workspace.PublisherRequest

/-!
# The panel of a publisher

The panel shows one publisher at a time: its payload, its rows and the fields of its request. What is
edited goes to the publisher, to the draft in the browser's storage, or to both, and the panel is rendered
from the two again. A request that is sent goes on while the publisher is edited, and its response becomes
an entry of the history.
-/

namespace MqBridge.Workspace
open Text

structure InFlight where
  /-- The position of the publisher, until another object takes its place in the list. -/
  place : Option Nat
  publisher : Record
  sentPublisher : Record
  sentRows : List MetadataRow

structure PublisherPanel extends MessageView where
  requestPayload : Text := []
  metadataRows : List MetadataRow := []
  formDrafts : List (Nat × Record) := []
  inFlight : List InFlight := []
  /-- The entries so far, with the requests they were built for. -/
  recorded : List (PublishRequest × Record) := []
  posted : List (List Record) := []

inductive RowEdit where
  | add
  | key (index : Nat) (value : Text)
  | value (index : Nat) (value : Text)
  | toggle (index : Nat) (enabled : Bool)
  | remove (index : Nat)

inductive PanelAction where
  | load (publishers : List Record) (history : Option Json) (selectedIndex : Nat)
  | select (index : Nat)
  | editPayload (value : Text)
  | editMethod (value : Text)
  | editRequestField (inputId : RequestInput) (value : Text)
  | editRows (edit : RowEdit)
  | editForm (updated : Record)
  | showHistory (historyIndex : Nat)
  /-- Saves with what the name field of the form holds, if it is there. -/
  | save (nameInput : Option Text)
  /-- The list was saved and may have been read back. -/
  | saved (index : Nat) (list : Option (List Record))
  | send
  | respond (position : Nat) (response : PublishResponse)
  | fail (position : Nat)

def RowEdit.apply (edit : RowEdit) (nextHeaderRowId : Nat) (rows : List MetadataRow) : List MetadataRow :=
  match edit with
  | .add => rows ++ [{ id := nextHeaderRowId, key := [], value := [], enabled := true }]
  | .key index text => rows.modify index fun row => { row with key := text }
  | .value index text => rows.modify index fun row => { row with value := text }
  | .toggle index enabled => rows.modify index fun row => { row with enabled }
  | .remove index => rows.eraseIdx index

def MetadataRow.header (row : MetadataRow) : Json := .obj (row.toRecord.put "id" none)

/-- A publisher with rows for its headers, of which an `http` endpoint gets the ones that are sent. -/
def withCustomHeaders (publisher : Record) (rows : List MetadataRow) : Record :=
  if endpointTypeOf publisher = ("http" : Text) then
    setEndpointConfig publisher "custom_headers" (customHeadersOf (enabledRows rows))
  else publisher

namespace PublisherPanel

section
variable (state : PublisherPanel)

def shownPayload (publisher : Record) : Text :=
  Json.textOr (Json.textOr "{}" (publisher.prop "payload"))
    ((state.readLocalPublisherState publisher).bind (Json.get? "payload"))

def renderSelectedPublisher : PublisherPanel :=
  match state.currentPublisher with
  | some publisher =>
    let rows := buildMetadataRows (state.readLocalPublisherState publisher) state.nextHeaderRowId publisher
    { state with
      selectedIndex := state.currentIndex
      requestPayload := state.shownPayload publisher
      metadataRows := rows.1
      nextHeaderRowId := rows.2 }
  | none => state

theorem renderSelectedPublisher_eq :
    ∃ selectedIndex requestPayload metadataRows nextHeaderRowId, state.renderSelectedPublisher =
      { state with selectedIndex, requestPayload, metadataRows, nextHeaderRowId } := by
  unfold renderSelectedPublisher
  split
  · exact ⟨_, _, _, _, rfl⟩
  · exact ⟨state.selectedIndex, state.requestPayload, state.metadataRows, state.nextHeaderRowId, rfl⟩

def publisherOf (request : InFlight) : Record := (request.place.bind (state.publishers[·]?)).getD request.publisher

/-- Other objects take the places of publishers, and requests under way keep the ones they have. -/
def detached (places : Nat → Bool) : List InFlight :=
  state.inFlight.map fun request =>
    if request.place.any places then { request with place := none, publisher := state.publisherOf request } else request

/-- What is done to the current publisher, if there is one, and how often the panel is rendered then. -/
def onPublisher (act : Record → PublisherPanel × Nat) : PublisherPanel × Nat :=
  (state.currentPublisher.map act).getD (state, 0)

variable (panel : Panel)

def editRows (edit : RowEdit) : PublisherPanel :=
  let metadataRows := edit.apply state.nextHeaderRowId state.metadataRows
  let nextHeaderRowId := state.nextHeaderRowId + (if edit matches .add then 1 else 0)
  let view := { state.toMessageView with nextHeaderRowId }
  let view := view.onCurrent fun publisher =>
    view.syncMetadataRowsToPublisher (withCustomHeaders publisher metadataRows) (metadataRows.map MetadataRow.toRecord)
  { state with toMessageView := view, metadataRows }

/-- The name field of the form makes a draft of what it holds. -/
def flushPendingFormDraft (publisher : Record) (nameInput : Option Text) : List (Nat × Record) :=
  match nameInput with
  | some name =>
    let existingDraft := (state.formDrafts.lookup state.selectedIndex).getD publisher
    Assoc.insert state.formDrafts (state.selectedIndex, existingDraft.assign "name" (.str name))
  | none => state.formDrafts

def saveCurrentPublisherAction (publisher : Record) (nameInput : Option Text) : PublisherPanel :=
  let formDrafts := state.flushPendingFormDraft publisher nameInput
  match formDrafts.lookup state.selectedIndex with
  | some draft =>
    let rows := Json.arr (state.metadataRows.map MetadataRow.header)
    let next := EntityKind.withDraft panel.toForms .publisher rows publisher draft
    let publishers := state.publishers.set state.selectedIndex next
    { state with
      publishers
      formDrafts
      inFlight := state.detached fun place => place = state.selectedIndex
      posted := state.posted ++ [publishers] }
  | none => { state with formDrafts, posted := state.posted ++ [state.publishers] }

def replaced (view : MessageView) : PublisherPanel :=
  { state with toMessageView := view, inFlight := state.detached fun _ => true }

def sendPublisherAction (publisher : Record) : PublisherPanel :=
  let request : InFlight :=
    { place := some state.currentIndex, publisher, sentPublisher := publisher, sentRows := state.metadataRows }
  { state with inFlight := state.inFlight ++ [request] }

/-- The entry is built from what the publisher is by now and from the request that was built. -/
def recordResponse (request : InFlight) (position : Nat) (response : PublishResponse) : PublisherPanel :=
  let publisher := state.publisherOf request
  let details := buildPublishRequestDetails panel request.sentPublisher request.sentRows
  let entry := buildHistoryEntry panel publisher response details.historyMetadata
  let view := state.toMessageView.sendPublisherAction publisher (some (.obj entry)) (.ofNat response.now)
  { state with
    toMessageView := view
    inFlight := state.inFlight.eraseIdx position
    recorded := state.recorded ++ [(details.request, entry)] }

/-- An action before the panel is rendered, and how often it is. -/
def act : PanelAction → PublisherPanel × Nat
  | .load publishers history selectedIndex =>
    let view := state.toMessageView.initPublishers panel.toBrowser publishers history selectedIndex
    ({ state.replaced view with formDrafts := [] }, 2)
  | .select index => ({ state with selectedIndex := min index (state.publishers.length - 1) }, 2)
  | .editPayload value =>
    state.onPublisher fun publisher =>
      ({ state with
        toMessageView := state.toMessageView.updatePublisherPayload publisher value
        requestPayload := value }, 0)
  | .editMethod value =>
    state.onPublisher fun publisher =>
      ({ state with
        toMessageView := state.toMessageView.setCurrent (setEndpointConfig publisher "method" (.str value)) }, 0)
  | .editRequestField inputId value =>
    state.onPublisher fun publisher =>
      let edited := updateRequestField panel publisher inputId value
      let known := (panel.requestBarFields (endpointTypeOf publisher)).any fun field => field.inputId = inputId
      ({ state with toMessageView := state.toMessageView.setCurrent edited }, if known then 1 else 0)
  | .editRows edit => (state.editRows edit, 0)
  | .editForm updated =>
    let formDrafts := Assoc.insert state.formDrafts (state.selectedIndex, updated)
    let state := { state with formDrafts }
    state.onPublisher fun publisher =>
      let edited := EntityKind.applyForm panel.toForms .publisher publisher updated
      ({ state with toMessageView := state.toMessageView.setCurrent edited }, 1)
  | .showHistory historyIndex =>
    state.onPublisher fun publisher =>
      match (state.currentHistoryEntries publisher)[historyIndex]? with
      | some entry =>
        let edited := applyHistoryRequestFieldsToPublisher panel publisher entry
        ({ state with toMessageView := state.toMessageView.showPublisherHistoryEntry edited entry }, 1)
      | none => (state, 0)
  | .save nameInput => state.onPublisher fun publisher => (state.saveCurrentPublisherAction panel publisher nameInput, 0)
  | .saved index list =>
    let state :=
      match list with
      | some list =>
        state.replaced { state.toMessageView with publishers := list.map (normalizePublisher panel.toForms) }
      | none => state
    ({ state with selectedIndex := min index (state.publishers.length - 1) }, 2)
  | .send => state.onPublisher fun publisher => (state.sendPublisherAction publisher, 0)
  | .respond position response =>
    match state.inFlight[position]? with
    | some request => (state.recordResponse panel request position response, 1)
    | none => (state, 0)
  | .fail position => ({ state with inFlight := state.inFlight.eraseIdx position }, 0)

def step (action : PanelAction) : Option PublisherPanel :=
  let acted := state.act panel action
  some (renderSelectedPublisher^[acted.2] acted.1)

end

end PublisherPanel

end MqBridge.Workspace
