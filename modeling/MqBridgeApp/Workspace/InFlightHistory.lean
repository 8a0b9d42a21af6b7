import MqBridgeApp.Workspace.HistoryReadBack
import MqBridgeApp.Workspace.PublisherPanel

/-!
# What the history says of a request

The body of a request is built when it is sent, from the publisher and from the rows of the panel. The
entry of the history is built when the response arrives, from what the publisher is by then.
-/

namespace MqBridge.Workspace
open Text

/-! ### What a body and an entry say -/

def PublishRequest.publisher (request : PublishRequest) : Record := Record.put [] "endpoint" request.endpoint

/-- The method of a body: an `http` request has it in its metadata. -/
def PublishRequest.method (request : PublishRequest) : Text :=
  if endpointTypeOf request.publisher = ("http" : Text) then (request.metadata.lookup ("http_method" : Text)).getD []
  else Json.textOr [] ((endpointConfigOf request.publisher).prop "method")

def httpKeys : List Text := ["http_method", "http_path", "http_query"]

def barMetadata (entry : Record) (key : Text) : Option Text :=
  if key ∈ httpKeys then
    ((Json.asObject (entry.prop "requestMetadata")).lookup key).map fun value => nullishText (some value)
  else none

def entryHeaders (entry : Record) : List (Text × Text) :=
  (Json.items (entry.prop "metadata")).map fun row => (nullishText (row.get? "k"), nullishText (row.get? "v"))

/-- What an entry says about a request is what the body of the request says. -/
structure Describes (panel : Panel) (request : PublishRequest) (entry : Record) : Prop where
  payload : entry.prop "payload" = some (.str request.payload)
  metadata : ∀ key, (barMetadata entry key).or ((entryHeaders entry).reverse.lookup key) = request.metadata.lookup key
  method : entry.prop "method" = some (.str request.method)
  url : entry.prop "url" = some (.str (requestUrlOf panel request.publisher))

/-- The headers of a publisher that are enabled, with the keys they have. -/
def enabledHeaders (publisher : Record) : List (Text × Text) :=
  ((headersOfPublisher publisher).filter isSentHeader).map fun row =>
    (nullishText (row.get? "key"), nullishText (row.get? "value"))

/-- The method that is sent: one that is blank is left to a header. -/
def sentMethod (publisher : Record) (rows : List MetadataRow) : Text :=
  let method := (endpointConfigOf publisher).prop "method"
  if endpointTypeOf publisher = ("http" : Text) then
    orText (jsTrim (Json.textOr "POST" method)) (((enabledRows rows).reverse.lookup ("http_method" : Text)).getD [])
  else Json.textOr [] method

/-- The publisher still has the payload and the URL it was sent with, its own headers give what the rows of
the panel gave, and its method is the one that was sent. -/
structure AsSent (panel : Panel) (request : InFlight) (publisher : Record) : Prop where
  payload : Json.textOr [] (publisher.prop "payload") = Json.textOr [] (request.sentPublisher.prop "payload")
  headers : ∀ key, (httpMetadata panel request.sentPublisher).lookup key = none →
    (enabledHeaders publisher).reverse.lookup key = (enabledRows request.sentRows).reverse.lookup key
  method : Json.textOr [] ((endpointConfigOf publisher).prop "method") =
    sentMethod request.sentPublisher request.sentRows
  url : requestUrlOf panel publisher = requestUrlOf panel request.sentPublisher

/-- The headers of a publisher give what the rows of the panel give, and its method is the one that is sent. -/
structure SendsOwn (panel : Panel) (publisher : Record) (rows : List MetadataRow) : Prop where
  headers : ∀ key, (httpMetadata panel publisher).lookup key = none →
    (enabledHeaders publisher).reverse.lookup key = (enabledRows rows).reverse.lookup key
  method : Json.textOr [] ((endpointConfigOf publisher).prop "method") = sentMethod publisher rows

/-- An edit leaves the payload, the URL and the method of a publisher alone, and its enabled headers but those that
the bar adds to a request. -/
structure Leaves (panel : Panel) (request : InFlight) (publisher edited : Record) : Prop where
  payload : Json.textOr [] (edited.prop "payload") = Json.textOr [] (publisher.prop "payload")
  headers : ∀ key, (httpMetadata panel request.sentPublisher).lookup key = none →
    (enabledHeaders edited).reverse.lookup key = (enabledHeaders publisher).reverse.lookup key
  method : Json.textOr [] ((endpointConfigOf edited).prop "method") =
    Json.textOr [] ((endpointConfigOf publisher).prop "method")
  url : requestUrlOf panel edited = requestUrlOf panel publisher

section
variable {panel : Panel} {publisher : Record} {response : PublishResponse} {request : InFlight}

theorem endpointOf_body (publisher : Record) (rows : List MetadataRow) :
    endpointOf (buildPublishRequestDetails panel publisher rows).request.publisher = endpointOf publisher := by
  simp [endpointOf, PublishRequest.publisher, buildPublishRequestDetails, Record.prop]

theorem requestUrlOf_congr {other : Record} (same : endpointOf publisher = endpointOf other) :
    requestUrlOf panel publisher = requestUrlOf panel other := by
  unfold requestUrlOf requestFieldMap requestFieldsOf requestBarValue currentRequestBarValues endpointConfigOf endpointTypeOf
  rw [same]

theorem httpMetadata_keys (publisher : Record) : ((httpMetadata panel publisher).map Prod.fst).Nodup := by
  unfold httpMetadata
  split
  · exact (List.filter_sublist.map Prod.fst).nodup (by simp [lit])
  · exact List.nodup_nil

theorem httpMetadata_other {key : Text} (other : key ∉ httpKeys) : (httpMetadata panel publisher).lookup key = none := by
  rw [Assoc.lookup_eq_none]
  intro value member
  unfold httpMetadata at member
  split at member
  · have named := List.mem_map_of_mem (f := Prod.fst) (List.mem_filter.mp member).1
    exact other named
  · cases member

theorem requestMetadataOf_other {key : Text} (http : key ∈ httpKeys) (fields : List (RequestBarField × Text)) :
    (requestMetadataOf fields).lookup key = none := by
  rw [Assoc.lookup_eq_none]
  intro value member
  have apart : ∀ name : Text, key ≠ (("request_bar." : Text) ++ name) := by
    intro name
    simp only [httpKeys, List.mem_cons, List.not_mem_nil, or_false] at http
    rcases http with rfl | rfl | rfl <;> simp [lit]
  rcases Assoc.mem_insertAll member with old | new
  · cases old
  · obtain ⟨field, -, written⟩ := List.mem_flatMap.mp new
    rcases List.mem_pair.mp written with same | same
    · exact apart _ (Prod.mk.inj same).1
    · exact apart _ (Prod.mk.inj same).1

theorem historyMetadata_lookup (publisher : Record) (rows : List MetadataRow) {key : Text} (http : key ∈ httpKeys) :
    (buildPublishRequestDetails panel publisher rows).historyMetadata.lookup key = (httpMetadata panel publisher).lookup key := by
  show (Assoc.insertAll _ _).lookup key = _
  rw [Assoc.lookup_insertAll, requestMetadataOf_other http, Option.or_none, Assoc.lookup_reverse (httpMetadata_keys publisher)]

theorem barMetadata_built (sent : Record) (rows : List MetadataRow) (key : Text) :
    barMetadata (buildHistoryEntry panel publisher response
        (buildPublishRequestDetails panel sent rows).historyMetadata) key = (httpMetadata panel sent).lookup key := by
  unfold barMetadata
  split
  · rename_i http
    have held : (buildHistoryEntry panel publisher response
          (buildPublishRequestDetails panel sent rows).historyMetadata).prop "requestMetadata" =
        some (textObject (Assoc.insertAll (requestMetadataOf (requestFieldsOf panel publisher id))
          (buildPublishRequestDetails panel sent rows).historyMetadata)) := by
      simp [buildHistoryEntry, Record.prop, lit, List.lookup_cons]
    have distinct : ((buildPublishRequestDetails panel sent rows).historyMetadata.map Prod.fst).Nodup := by
      apply Assoc.nodup_insertAll
      exact Assoc.nodup_insertAll List.nodup_nil
    rw [held, textObject, Json.asObject, Assoc.lookup_map, Assoc.lookup_insertAll, requestMetadataOf_other http,
      Option.or_none, Assoc.lookup_reverse distinct, historyMetadata_lookup _ _ http, Option.map_map]
    cases (httpMetadata panel sent).lookup key with
    | none => rfl
    | some value => exact congrArg some (toText_str value)
  · rename_i other
    exact (httpMetadata_other other).symm

theorem entryHeaders_built {sent : List (Text × Text)} :
    entryHeaders (buildHistoryEntry panel publisher response sent) = enabledHeaders publisher := by
  rw [entryHeaders, built_metadata, Json.items, List.map_map, enabledHeaders]
  apply List.map_congr_left
  intro row _
  simp [historyMetadataRow, Json.get?, lit]

theorem request_metadata (sent : Record) (rows : List MetadataRow) (key : Text) :
    (buildPublishRequestDetails panel sent rows).request.metadata.lookup key =
      ((httpMetadata panel sent).lookup key).or ((enabledRows rows).reverse.lookup key) := by
  show (Assoc.insertAll _ _).lookup key = _
  rw [Assoc.lookup_insertAll, Assoc.lookup_insertAll, List.lookup_nil, Option.or_none,
    Assoc.lookup_reverse (httpMetadata_keys sent)]

theorem lookup_first_full {key first : Text} {rest : List (Text × Text)} (others : ∀ entry ∈ rest, entry.1 ≠ key) :
    (((key, first) :: rest).filter fun entry => !entry.2.isEmpty).lookup key = if first = [] then none else some first := by
  have absent : (rest.filter fun entry => !entry.2.isEmpty).lookup key = none := by
    rw [Assoc.lookup_eq_none]
    exact fun value member => others _ (List.mem_filter.mp member).1 rfl
  rw [List.filter_cons]
  cases first with
  | nil => exact absent
  | cons c text =>
    show List.lookup key ((key, c :: text) :: _) = _
    rw [List.lookup_cons, beq_self_eq_true, if_neg (by simp)]

theorem request_method (sent : Record) (rows : List MetadataRow) :
    (buildPublishRequestDetails panel sent rows).request.method = sentMethod sent rows := by
  have endpoint : endpointOf (buildPublishRequestDetails panel sent rows).request.publisher = endpointOf sent :=
    endpointOf_body sent rows
  have kind : endpointTypeOf (buildPublishRequestDetails panel sent rows).request.publisher = endpointTypeOf sent :=
    congrArg getEndpointType endpoint
  unfold PublishRequest.method sentMethod
  rw [kind]
  split
  · rename_i http
    rw [request_metadata, httpMetadata, if_pos http]
    dsimp only
    rw [lookup_first_full (by simp [lit]), orText]
    cases jsTrim (Json.textOr "POST" ((endpointConfigOf sent).prop "method")) <;> rfl
  · unfold endpointConfigOf
    rw [kind, endpoint]

/-! ### Entries and the requests they are built for -/

def entryFor (panel : Panel) (request : InFlight) (publisher : Record) (response : PublishResponse) : Record :=
  buildHistoryEntry panel publisher response
    (buildPublishRequestDetails panel request.sentPublisher request.sentRows).historyMetadata

theorem describes_iff (panel : Panel) (request : InFlight) (publisher : Record) (response : PublishResponse) :
    Describes panel (buildPublishRequestDetails panel request.sentPublisher request.sentRows).request
      (entryFor panel request publisher response) ↔ AsSent panel request publisher := by
  have payload : (entryFor panel request publisher response).prop "payload" =
      some (.str (Json.textOr [] (publisher.prop "payload"))) := by
    simp [entryFor, buildHistoryEntry, Record.prop, lit, List.lookup_cons]
  have method : (entryFor panel request publisher response).prop "method" =
      some (.str (Json.textOr [] ((endpointConfigOf publisher).prop "method"))) := by
    simp [entryFor, buildHistoryEntry, Record.prop, lit, List.lookup_cons]
  have url : (entryFor panel request publisher response).prop "url" = some (.str (requestUrlOf panel publisher)) := by
    simp [entryFor, buildHistoryEntry, Record.prop, lit, List.lookup_cons]
  have sentUrl : requestUrlOf panel
        (buildPublishRequestDetails panel request.sentPublisher request.sentRows).request.publisher =
      requestUrlOf panel request.sentPublisher :=
    requestUrlOf_congr (endpointOf_body request.sentPublisher request.sentRows)
  have metadata : ∀ key,
      ((barMetadata (entryFor panel request publisher response) key).or
          ((entryHeaders (entryFor panel request publisher response)).reverse.lookup key) =
        (buildPublishRequestDetails panel request.sentPublisher request.sentRows).request.metadata.lookup key ↔
      ((httpMetadata panel request.sentPublisher).lookup key = none →
        (enabledHeaders publisher).reverse.lookup key = (enabledRows request.sentRows).reverse.lookup key)) := by
    intro key
    rw [entryFor, barMetadata_built, entryHeaders_built, request_metadata]
    cases (httpMetadata panel request.sentPublisher).lookup key <;> simp
  constructor
  · intro described
    exact
      { payload := Json.str.inj (Option.some.inj (payload.symm.trans described.payload))
        headers := fun key => (metadata key).mp (described.metadata key)
        method := by simpa [method, request_method] using described.method
        url := by simpa [url, sentUrl] using described.url }
  · intro asSent
    exact
      { payload := by
          rw [payload, asSent.payload]
          rfl
        metadata := fun key => (metadata key).mpr (asSent.headers key)
        method := by rw [method, asSent.method, request_method]
        url := by rw [url, asSent.url, sentUrl] }

theorem AsSent.congr {before : InFlight} (sent : request.sentPublisher = before.sentPublisher)
    (rows : request.sentRows = before.sentRows) (asSent : AsSent panel before publisher) : AsSent panel request publisher := by
  obtain ⟨payload, headers, method, url⟩ := asSent
  exact ⟨by rw [sent, payload], by rw [sent, rows]; exact headers, by rw [sent, rows, method], by rw [sent, url]⟩

theorem asSent_untouched (panel : Panel) (request : InFlight) :
    AsSent panel request request.sentPublisher ↔ SendsOwn panel request.sentPublisher request.sentRows :=
  ⟨fun asSent => ⟨asSent.headers, asSent.method⟩, fun own => ⟨rfl, own.headers, own.method, rfl⟩⟩

/-- An edit of a publisher that is as it was sent keeps it so exactly when it leaves what was sent alone. -/
theorem AsSent.edited_iff {edited : Record} (asSent : AsSent panel request publisher) :
    AsSent panel request edited ↔ Leaves panel request publisher edited := by
  constructor
  · intro still
    exact
      { payload := still.payload.trans asSent.payload.symm
        headers := fun key other => (still.headers key other).trans (asSent.headers key other).symm
        method := still.method.trans asSent.method.symm
        url := still.url.trans asSent.url.symm }
  · intro leaves
    exact
      { payload := leaves.payload.trans asSent.payload
        headers := fun key other => (leaves.headers key other).trans (asSent.headers key other)
        method := leaves.method.trans asSent.method
        url := leaves.url.trans asSent.url }

/-- An edit of the payload leaves what was sent alone exactly when it gives the payload that is there. -/
theorem leaves_payload_iff (value : Text) : Leaves panel request publisher (publisher.assign "payload" (.str value)) ↔
    value = Json.textOr [] (publisher.prop "payload") := by
  have given : (publisher.assign "payload" (.str value)).prop "payload" = some (.str value) :=
    (Record.lookup_assign ..).trans (if_pos rfl)
  have other : ∀ name, name ≠ ("payload" : Text) →
      (publisher.assign "payload" (.str value)).prop name = publisher.prop name :=
    fun name apart => (Record.lookup_assign ..).trans (if_neg (by simpa using apart))
  have endpoint : endpointOf (publisher.assign "payload" (.str value)) = endpointOf publisher :=
    congrArg Json.asObject (other _ (by decide))
  constructor
  · intro leaves
    have same := leaves.payload
    rwa [given, Json.textOr_str] at same
  · intro same
    exact
      { payload := by rw [given, Json.textOr_str, same]
        headers := fun key _ => by
          rw [enabledHeaders, headersOfPublisher, other _ (by decide), enabledHeaders, headersOfPublisher]
        method := by rw [endpointConfigOf, endpointTypeOf, endpoint, endpointConfigOf, endpointTypeOf]
        url := requestUrlOf_congr endpoint }

end

namespace PublisherPanel

/-- The entries so far describe the requests they were built for, and so would the entry of each request under way
if its response arrived now. -/
structure EntriesDescribe (panel : Panel) (state : PublisherPanel) : Prop where
  recorded : ∀ recorded ∈ state.recorded, Describes panel recorded.1 recorded.2
  coming : ∀ request ∈ state.inFlight, ∀ response,
    Describes panel (buildPublishRequestDetails panel request.sentPublisher request.sentRows).request
      (entryFor panel request (state.publisherOf request) response)

section
variable (panel : Panel) (state : PublisherPanel)

def edited (publisher : Record) : PanelAction → Option Record
  | .editPayload value => some (publisher.assign "payload" (.str value))
  | .editMethod value => some (setEndpointConfig publisher "method" (.str value))
  | .editRequestField inputId value => some (updateRequestField panel publisher inputId value)
  | .editRows edit =>
    let rows := edit.apply state.nextHeaderRowId state.metadataRows
    some ((withCustomHeaders publisher rows).assign "headers" (.arr (rows.map MetadataRow.header)))
  | .editForm updated => some (EntityKind.applyForm panel.toForms .publisher publisher updated)
  | .showHistory historyIndex =>
    (state.currentHistoryEntries publisher)[historyIndex]?.map fun entry =>
      (applyHistoryRequestFieldsToPublisher panel publisher entry).put "payload" (entry.get? "payload")
  | _ => none

/-- A publisher that is sent sends what it has, and an edit of it leaves what was sent alone as long as the request
is under way. -/
def LeavesSent (action : PanelAction) : Prop :=
  ∀ publisher ∈ state.currentPublisher,
    (∀ changed ∈ state.edited panel publisher action, ∀ request ∈ state.inFlight,
      request.place = some state.currentIndex → Leaves panel request publisher changed) ∧
    (action = .send → SendsOwn panel publisher state.metadataRows)

end

section
variable {panel : Panel} {state : PublisherPanel}

theorem entriesDescribe_iff : state.EntriesDescribe panel ↔
    (∀ recorded ∈ state.recorded, Describes panel recorded.1 recorded.2) ∧
      ∀ request ∈ state.inFlight, AsSent panel request (state.publisherOf request) := by
  constructor
  · intro describe
    exact ⟨describe.recorded, fun request member =>
      (describes_iff panel request _ accepted).mp (describe.coming request member accepted)⟩
  · intro ⟨recorded, asSent⟩
    exact ⟨recorded, fun request member response => (describes_iff panel request _ response).mpr (asSent request member)⟩

theorem entriesDescribe_render (state : PublisherPanel) :
    state.renderSelectedPublisher.EntriesDescribe panel ↔ state.EntriesDescribe panel := by
  obtain ⟨_, _, _, _, rendered⟩ := state.renderSelectedPublisher_eq
  rw [rendered]
  exact ⟨fun describe => ⟨describe.recorded, describe.coming⟩, fun describe => ⟨describe.recorded, describe.coming⟩⟩

theorem entriesDescribe_renders (state : PublisherPanel) (times : Nat) :
    (renderSelectedPublisher^[times] state).EntriesDescribe panel ↔ state.EntriesDescribe panel := by
  induction times generalizing state with
  | zero => rfl
  | succ times ih => rw [Function.iterate_succ_apply, ih, entriesDescribe_render]

theorem recorded_onPublisher {act : Record → PublisherPanel × Nat}
    (kept : ∀ publisher, (act publisher).1.recorded = state.recorded) : (state.onPublisher act).1.recorded = state.recorded := by
  unfold onPublisher
  cases state.currentPublisher with
  | none => rfl
  | some publisher => exact kept publisher

/-- What an action adds to the entries: a response adds one, and nothing else does. -/
theorem recorded_act (action : PanelAction) :
    (∃ position response request, action = .respond position response ∧ state.inFlight[position]? = some request ∧
      (state.act panel action).1.recorded = state.recorded ++
        [((buildPublishRequestDetails panel request.sentPublisher request.sentRows).request,
          entryFor panel request (state.publisherOf request) response)]) ∨
    ((∀ position response, action = .respond position response → state.inFlight[position]? = none) ∧
      (state.act panel action).1.recorded = state.recorded) := by
  cases action with
  | respond position response =>
    cases found : state.inFlight[position]? with
    | some request =>
      refine .inl ⟨position, response, request, rfl, found, ?_⟩
      rw [act, found]
      rfl
    | none =>
      refine .inr ⟨?_, ?_⟩
      · intro other response' same
        obtain ⟨rfl, -⟩ := PanelAction.respond.inj same
        exact found
      · rw [act, found]
  | load publishers history selectedIndex => exact .inr ⟨fun _ _ same => (by cases same), rfl⟩
  | select index => exact .inr ⟨fun _ _ same => (by cases same), rfl⟩
  | editRows edit => exact .inr ⟨fun _ _ same => (by cases same), rfl⟩
  | fail position => exact .inr ⟨fun _ _ same => (by cases same), rfl⟩
  | saved index list => cases list <;> exact .inr ⟨fun _ _ same => (by cases same), rfl⟩
  | editForm updated => exact .inr ⟨fun _ _ same => (by cases same), recorded_onPublisher fun publisher => rfl⟩
  | editPayload value => exact .inr ⟨fun _ _ same => (by cases same), recorded_onPublisher fun publisher => rfl⟩
  | editMethod value => exact .inr ⟨fun _ _ same => (by cases same), recorded_onPublisher fun publisher => rfl⟩
  | editRequestField inputId value => exact .inr ⟨fun _ _ same => (by cases same), recorded_onPublisher fun publisher => rfl⟩
  | send => exact .inr ⟨fun _ _ same => (by cases same), recorded_onPublisher fun publisher => rfl⟩
  | showHistory historyIndex =>
    refine .inr ⟨fun _ _ same => (by cases same), recorded_onPublisher fun publisher => ?_⟩
    dsimp only
    split <;> rfl
  | save nameInput =>
    refine .inr ⟨fun _ _ same => (by cases same), recorded_onPublisher fun publisher => ?_⟩
    unfold saveCurrentPublisherAction
    dsimp only
    split <;> rfl

/-- The requests under way are ones of before, and their publishers are as they were. -/
def Still (state next : PublisherPanel) : Prop :=
  ∀ request ∈ next.inFlight, ∃ before ∈ state.inFlight, next.publisherOf request = state.publisherOf before ∧
    request.sentPublisher = before.sentPublisher ∧ request.sentRows = before.sentRows

theorem Still.of_same {next : PublisherPanel} (publishers : next.publishers = state.publishers)
    (inFlight : ∀ request ∈ next.inFlight, request ∈ state.inFlight) : state.Still next := by
  intro request member
  refine ⟨request, inFlight request member, ?_, rfl, rfl⟩
  unfold publisherOf
  rw [publishers]

/-- Requests that keep the objects they have keep their publishers, whatever takes the places. -/
theorem Still.of_detached {next : PublisherPanel} {places : Nat → Bool} (inFlight : next.inFlight = state.detached places)
    (outside : ∀ place, places place = false → next.publishers[place]? = state.publishers[place]?) : state.Still next := by
  intro request member
  rw [inFlight, detached] at member
  obtain ⟨before, held, rfl⟩ := List.mem_map.mp member
  refine ⟨before, held, ?_⟩
  split
  · exact ⟨rfl, rfl, rfl⟩
  · rename_i stays
    refine ⟨?_, rfl, rfl⟩
    unfold publisherOf
    cases place : before.place with
    | none => rfl
    | some index =>
      have kept : places index = false := by simpa [place] using stays
      rw [Option.bind_some, Option.bind_some, outside index kept]

/-- What an action does to the requests under way: it edits the publisher that is selected, sends it, or leaves
the requests and their publishers alone. -/
inductive Acts (panel : Panel) (state : PublisherPanel) (action : PanelAction) (next : PublisherPanel) : Prop where
  | edits (publisher changed : Record) (current : state.currentPublisher = some publisher)
    (edited : state.edited panel publisher action = some changed) (unsent : action ≠ .send)
    (publishers : next.publishers = state.publishers.set state.currentIndex changed)
    (inFlight : next.inFlight = state.inFlight)
  | sends (publisher : Record) (current : state.currentPublisher = some publisher) (sent : action = .send)
    (publishers : next.publishers = state.publishers)
    (inFlight : next.inFlight = state.inFlight ++
      [{ place := some state.currentIndex, publisher, sentPublisher := publisher, sentRows := state.metadataRows }])
  | leaves (unedited : ∀ publisher ∈ state.currentPublisher, state.edited panel publisher action = none ∧ action ≠ .send)
    (still : state.Still next)

theorem acts_edit {action : PanelAction} {rest : PublisherPanel} {act : Record → PublisherPanel × Nat}
    {edit : Record → Record} (acted : state.act panel action = rest.onPublisher act)
    (edited : ∀ publisher, state.edited panel publisher action = some (edit publisher)) (unsent : action ≠ .send)
    (publishers : ∀ publisher, (act publisher).1.publishers = state.publishers.set state.currentIndex (edit publisher))
    (inFlight : ∀ publisher, (act publisher).1.inFlight = state.inFlight)
    (same : rest.toMessageView = state.toMessageView) (under : rest.inFlight = state.inFlight) :
    Acts panel state action (state.act panel action).1 := by
  have current : rest.currentPublisher = state.currentPublisher := by rw [same]
  rw [acted, onPublisher, current]
  cases current : state.currentPublisher with
  | none =>
    refine .leaves (fun publisher held => by cases current.symm.trans held) ?_
    exact .of_same (congrArg MessageView.publishers same) fun request member => under ▸ member
  | some publisher =>
    exact .edits publisher _ current (edited publisher) unsent (publishers publisher) (inFlight publisher)

theorem sync_publishers (view : MessageView) (edit : Record → Record) (rows : List Record) :
    (view.onCurrent fun publisher => view.syncMetadataRowsToPublisher (edit publisher) rows).publishers =
      (view.currentPublisher.map fun publisher => view.publishers.set view.currentIndex
        ((edit publisher).assign "headers" (.arr (rows.map fun row => .obj (row.put "id" none))))).getD view.publishers := by
  unfold MessageView.onCurrent
  cases view.currentPublisher <;> rfl

theorem editRows_publishers (edit : RowEdit) :
    (state.editRows edit).publishers = (state.currentPublisher.map fun publisher =>
      state.publishers.set state.currentIndex
        ((withCustomHeaders publisher (edit.apply state.nextHeaderRowId state.metadataRows)).assign "headers"
          (.arr ((edit.apply state.nextHeaderRowId state.metadataRows).map MetadataRow.header)))).getD state.publishers := by
  refine (sync_publishers _ _ _).trans ?_
  simp only [List.map_map]
  rfl

theorem act_acts (action : PanelAction) : Acts panel state action (state.act panel action).1 := by
  have same : state.Still state := .of_same rfl fun _ member => member
  have replaced : ∀ {next : PublisherPanel}, next.inFlight = (state.detached fun _ => true) → state.Still next :=
    fun inFlight => .of_detached inFlight fun _ kept => by cases kept
  cases action with
  | load publishers history selectedIndex => exact .leaves (fun _ _ => ⟨rfl, by simp⟩) (replaced rfl)
  | select index => exact .leaves (fun _ _ => ⟨rfl, by simp⟩) (.of_same rfl fun _ member => member)
  | saved index list =>
    cases list with
    | none => exact .leaves (fun _ _ => ⟨rfl, by simp⟩) (.of_same rfl fun _ member => member)
    | some list => exact .leaves (fun _ _ => ⟨rfl, by simp⟩) (replaced rfl)
  | fail position =>
    exact .leaves (fun _ _ => ⟨rfl, by simp⟩) (.of_same rfl fun _ member => List.mem_of_mem_eraseIdx member)
  | respond position response =>
    refine .leaves (fun _ _ => ⟨rfl, by simp⟩) ?_
    rw [act]
    split
    · exact .of_same rfl fun _ member => List.mem_of_mem_eraseIdx member
    · exact same
  | save nameInput =>
    refine .leaves (fun _ _ => ⟨rfl, by simp⟩) ?_
    rw [act, onPublisher]
    cases state.currentPublisher with
    | none => exact same
    | some publisher =>
      show state.Still (state.saveCurrentPublisherAction panel publisher nameInput)
      unfold saveCurrentPublisherAction
      dsimp only
      split
      · refine .of_detached rfl fun place apart => List.getElem?_set_ne (Ne.symm ?_)
        simpa using apart
      · exact .of_same rfl fun _ member => member
  | send =>
    rw [act, onPublisher]
    cases current : state.currentPublisher with
    | none => exact .leaves (fun _ held => by cases current.symm.trans held) same
    | some publisher => exact .sends publisher current rfl rfl rfl
  | editPayload value => exact acts_edit rfl (fun _ => rfl) (by simp) (fun _ => rfl) (fun _ => rfl) rfl rfl
  | editMethod value => exact acts_edit rfl (fun _ => rfl) (by simp) (fun _ => rfl) (fun _ => rfl) rfl rfl
  | editRequestField inputId value => exact acts_edit rfl (fun _ => rfl) (by simp) (fun _ => rfl) (fun _ => rfl) rfl rfl
  | editForm updated => exact acts_edit rfl (fun _ => rfl) (by simp) (fun _ => rfl) (fun _ => rfl) rfl rfl
  | editRows edit =>
    have published := @editRows_publishers state edit
    cases current : state.currentPublisher with
    | none =>
      rw [current] at published
      exact .leaves (fun _ held => by cases current.symm.trans held) (.of_same published fun _ member => member)
    | some publisher =>
      rw [current] at published
      exact .edits publisher _ current rfl (by simp) published rfl
  | showHistory historyIndex =>
    rw [act, onPublisher]
    cases current : state.currentPublisher with
    | none => exact .leaves (fun _ held => by cases current.symm.trans held) same
    | some publisher =>
      dsimp only [Option.map_some, Option.getD_some]
      cases found : (state.currentHistoryEntries publisher)[historyIndex]? with
      | none =>
        refine .leaves (fun other held => ?_) same
        obtain rfl := Option.some.inj (current.symm.trans held)
        exact ⟨by rw [edited, found]; rfl, by simp⟩
      | some entry => exact .edits publisher _ current (by rw [edited, found]; rfl) (by simp) rfl rfl

/-- An edit of the selected publisher reaches the requests that were sent from its place. -/
theorem publisherOf_edited {next : PublisherPanel} {publisher changed : Record}
    (current : state.currentPublisher = some publisher)
    (publishers : next.publishers = state.publishers.set state.currentIndex changed) (request : InFlight) :
    next.publisherOf request = if request.place = some state.currentIndex then changed else state.publisherOf request := by
  have inside : state.currentIndex < state.publishers.length := (List.getElem?_eq_some_iff.mp current).1
  unfold publisherOf
  rw [publishers]
  cases request.place with
  | none => rfl
  | some index =>
    rw [Option.bind_some, Option.bind_some]
    split
    · rename_i here
      obtain rfl := Option.some.inj here
      rw [List.getElem?_set_self inside, Option.getD_some]
    · rename_i elsewhere
      rw [List.getElem?_set_ne fun same => elsewhere (congrArg some same.symm)]

/-- Where the requests under way would have entries that describe them, an action keeps it so exactly when what is
sent is what the publisher has and the edits leave it alone. -/
theorem describe_act_iff {action : PanelAction} (describe : state.EntriesDescribe panel) :
    (state.act panel action).1.EntriesDescribe panel ↔ state.LeavesSent panel action := by
  obtain ⟨recorded, asSent⟩ := entriesDescribe_iff.mp describe
  have grown : ∀ entry ∈ (state.act panel action).1.recorded, Describes panel entry.1 entry.2 := by
    intro entry member
    rcases @recorded_act panel state action with ⟨position, response, request, -, found, grown⟩ | ⟨-, same⟩
    · rw [grown, List.mem_append, List.mem_singleton] at member
      rcases member with before | rfl
      · exact recorded entry before
      · exact describe.coming request (List.mem_of_getElem? found) response
    · rw [same] at member
      exact recorded entry member
  rw [entriesDescribe_iff, and_iff_right grown]
  unfold LeavesSent
  cases @act_acts panel state action with
  | edits publisher changed current edited unsent publishers inFlight =>
    have there : ∀ request, request.place = some state.currentIndex → state.publisherOf request = publisher := by
      intro request place
      unfold publisherOf
      rw [place, Option.bind_some, show state.publishers[state.currentIndex]? = _ from current, Option.getD_some]
    simp only [inFlight, publisherOf_edited current publishers, current, edited, Option.mem_some_iff, forall_eq', unsent,
      false_implies, and_true]
    refine forall₂_congr fun request member => ?_
    split
    · rename_i place
      have before := asSent request member
      rw [there request place] at before
      rw [before.edited_iff, forall_prop_of_true place]
    · rename_i elsewhere
      exact iff_of_true (asSent request member) fun place => absurd place elsewhere
  | sends publisher current sent publishers inFlight =>
    have there : state.publishers[state.currentIndex]? = some publisher := current
    have before : ∀ request, (state.act panel action).1.publisherOf request = state.publisherOf request := by
      intro request
      unfold publisherOf
      rw [publishers]
    subst sent
    simp only [inFlight, before, List.forall_mem_append, List.forall_mem_singleton, current, Option.mem_some_iff, forall_eq',
      forall_const]
    have unedited : ∀ changed ∈ state.edited panel publisher .send, ∀ request ∈ state.inFlight,
        request.place = some state.currentIndex → Leaves panel request publisher changed :=
      fun changed held => absurd held (Option.not_mem_none changed)
    have own : state.publisherOf ⟨some state.currentIndex, publisher, publisher, state.metadataRows⟩ = publisher := by
      unfold publisherOf
      rw [Option.bind_some, there, Option.getD_some]
    rw [and_iff_right asSent, and_iff_right unedited, own]
    exact asSent_untouched panel ⟨some state.currentIndex, publisher, publisher, state.metadataRows⟩
  | leaves unedited still =>
    refine iff_of_true ?_ ?_
    · intro request member
      obtain ⟨before, held, now, sent, rows⟩ := still request member
      rw [now]
      exact (asSent before held).congr sent rows
    · intro publisher current
      obtain ⟨none_, unsent⟩ := unedited publisher current
      rw [none_]
      exact ⟨fun changed held => absurd held (Option.not_mem_none changed), fun sent => absurd sent unsent⟩

/-- In every state of a run the entries describe their requests, whenever the responses arrive, exactly when each
publisher that is sent sends what it has and no edit changes it while the request is under way. -/
theorem recorded_as_sent_iff (panel : Panel) (start : PublisherPanel) (actions : List PanelAction)
    (unrecorded : start.recorded = []) (idle : start.inFlight = []) :
    Steps.Always (step · panel ·) (EntriesDescribe panel) start actions ↔
      Steps.Careful (step · panel ·) (LeavesSent panel) start actions := by
  apply Steps.always_iff
  · intro state action next describe taken
    obtain rfl := Option.some.inj taken
    rw [entriesDescribe_renders, describe_act_iff describe]
  · intro state action stuck
    cases stuck
  · constructor
    · rw [unrecorded]
      exact fun _ member => absurd member List.not_mem_nil
    · rw [idle]
      exact fun _ member => absurd member List.not_mem_nil

end

/-- The payload is edited while the request is under way. -/
def editInFlight : List PanelAction :=
  [.load [MessageView.auditPublisher] none 0, .editPayload "first", .send, .editPayload "second", .respond 0 accepted]

theorem recorded_as_sent_iff_edited :
    Steps.Always (step · plainPanel ·) (EntriesDescribe plainPanel) {} editInFlight ↔
      Steps.Careful (step · plainPanel ·) (LeavesSent plainPanel) {} editInFlight :=
  recorded_as_sent_iff plainPanel {} editInFlight rfl rfl

/-- The entry has the payload that was typed after the request was sent. -/
theorem edited_payload_recorded :
    ¬∀ (start after : PublisherPanel) (actions : List PanelAction), start.recorded = [] → start.inFlight = [] →
      Steps.play (step · plainPanel ·) start actions = some after →
        ∀ recorded ∈ after.recorded, Describes plainPanel recorded.1 recorded.2 := by
  intro described
  have all := described {} _ editInFlight rfl rfl rfl
  have payload := (all _ (List.mem_of_getElem? (i := 0) rfl)).payload
  revert payload
  decide +kernel

end PublisherPanel

end MqBridge.Workspace
