import MqBridgeApp.Workspace.InFlightHistory

/-!
# What the panel shows and what is sent

The panel shows the payload of the draft in the browser's storage before the one of the publisher, and
sends the one of the publisher. The rows that it shows are the rows that it sends.
-/

namespace MqBridge.Workspace
open Text

/-- The value of the last enabled row under a key, without the blanks around it. -/
def shownHeader (rows : List MetadataRow) (key : Text) : Option Text :=
  if key = [] then none else (rows.reverse.find? fun row => row.enabled && jsTrim row.key == key).map MetadataRow.value

def MessageView.draftPayload (view : MessageView) (publisher : Record) : Option Json :=
  (view.readLocalPublisherState publisher).bind (Json.get? "payload")

/-- A draft with a payload has the one of the publisher, and one of the two has a payload. -/
structure OnePayload (drafted own : Option Json) : Prop where
  same : ∀ payload ∈ drafted, payload.truthy = true → payload.toText = Json.textOr [] own
  full : drafted.any Json.truthy = true ∨ own.any Json.truthy = true

namespace PublisherPanel

/-- For the selected publisher, the panel shows the payload that is sent, and the enabled rows that it shows
are the metadata that is sent besides what the bar adds. -/
def ShowsSent (panel : Panel) (state : PublisherPanel) : Prop :=
  ∀ publisher ∈ state.currentPublisher,
    let request := (buildPublishRequestDetails panel publisher state.metadataRows).request
    state.requestPayload = request.payload ∧
      ∀ key, request.metadata.lookup key =
        ((httpMetadata panel publisher).lookup key).or (shownHeader state.metadataRows key)

section
variable (panel : Panel) (state : PublisherPanel)

def payloadsOf (publisher : Record) : Option Json × Option Json :=
  (state.draftPayload publisher, publisher.prop "payload")

/-- The payloads that an action is going to show, where it renders the panel: the one in the draft of a publisher and
the one of the publisher. -/
def comingPayloads : PanelAction → Option (Option Json × Option Json)
  | .load publishers _ selectedIndex =>
    (publishers[min selectedIndex (publishers.length - 1)]?).map fun given =>
      let publisher := normalizePublisher panel.toForms given
      (state.loadLocalState.draftPayload publisher, publisher.prop "payload")
  | .select index => (state.publishers[min index (state.publishers.length - 1)]?).map state.payloadsOf
  | .saved index none => (state.publishers[min index (state.publishers.length - 1)]?).map state.payloadsOf
  | .saved index (some list) =>
    (list[min index (list.length - 1)]?).map fun given => state.payloadsOf (normalizePublisher panel.toForms given)
  | .editRequestField inputId _ =>
    (state.currentPublisher.filter fun publisher =>
      (panel.requestBarFields (endpointTypeOf publisher)).any fun field => field.inputId = inputId).map state.payloadsOf
  | .editForm updated =>
    state.currentPublisher.map fun publisher =>
      state.payloadsOf (EntityKind.applyForm panel.toForms .publisher publisher updated)
  | .showHistory historyIndex =>
    -- the payload of the entry becomes the one of the draft, unless it has none
    state.currentPublisher.bind fun publisher =>
      (state.currentHistoryEntries publisher)[historyIndex]?.map fun entry =>
        let drafted := (Json.present (entry.get? "payload")).or (Json.present (state.draftPayload publisher))
        (if (publisherStorageKeysFor publisher).isEmpty then none else some (drafted.getD (.str "{}")), entry.get? "payload")
  | .respond position _ => (state.inFlight[position]?).bind fun _ => state.currentPublisher.map state.payloadsOf
  | _ => none

/-- The publisher that an action is going to show has no draft with another payload, and has a payload. -/
def ShowsOwn (action : PanelAction) : Prop :=
  ∀ payloads ∈ state.comingPayloads panel action, OnePayload payloads.1 payloads.2

end

section
variable {panel : Panel} {state : PublisherPanel}

theorem enabledRows_lookup (rows : List MetadataRow) (key : Text) :
    (enabledRows rows).reverse.lookup key = shownHeader rows key := by
  unfold enabledRows shownHeader
  rw [← List.map_reverse, ← List.filter_reverse, Assoc.lookup_pairs, List.find?_filter]
  split
  · rename_i empty
    subst empty
    rw [List.find?_eq_none.mpr, Option.map_none]
    intro row _
    cases jsTrim row.key <;> simp
  · rename_i full
    congr 2
    funext row
    by_cases same : jsTrim row.key = key
    · simp [same, full]
    · simp [same]

/-! ### What a rendering shows -/

theorem showsSent_iff : state.ShowsSent panel ↔
    ∀ publisher ∈ state.currentPublisher, state.requestPayload = Json.textOr [] (publisher.prop "payload") := by
  refine forall₂_congr fun publisher _ => and_iff_left fun key => ?_
  rw [request_metadata, enabledRows_lookup]

theorem falsy_of_filter {value : Option Json} (falsy : value.filter Json.truthy = none) : ¬value.any Json.truthy = true := by
  intro truthy
  cases value with
  | none => cases truthy
  | some value =>
    have full : value.truthy = true := truthy
    rw [Option.filter_some, if_pos full] at falsy
    cases falsy

theorem shownPayload_iff (publisher : Record) :
    state.shownPayload publisher = Json.textOr [] (publisher.prop "payload") ↔
      OnePayload (state.draftPayload publisher) (publisher.prop "payload") := by
  show Json.textOr _ (state.draftPayload publisher) = _ ↔ _
  generalize state.draftPayload publisher = drafted
  generalize publisher.prop "payload" = own
  rcases truthy_cases drafted with falsy | ⟨payload, rfl, truthy⟩
  · have vacuous : ∀ payload ∈ drafted, payload.truthy = true → payload.toText = Json.textOr [] own := by
      intro payload given truthy
      rw [given, Option.filter_some, if_pos truthy] at falsy
      cases falsy
    rw [textOr_falsy falsy]
    rcases truthy_cases own with missing | ⟨held, rfl, full⟩
    · rw [textOr_falsy missing, textOr_falsy missing]
      refine iff_of_false (by simp [lit]) fun one => ?_
      rcases one.full with full | full
      · exact falsy_of_filter falsy full
      · exact falsy_of_filter missing full
    · rw [Json.textOr, Json.textOr, if_pos full, if_pos full]
      exact iff_of_true rfl ⟨vacuous, .inr full⟩
  · rw [Json.textOr, if_pos truthy]
    constructor
    · intro same
      refine ⟨fun other given _ => ?_, .inl truthy⟩
      obtain rfl := Option.some.inj given
      exact same
    · exact fun one => one.same payload rfl truthy

theorem currentPublisher_render (state : PublisherPanel) :
    state.renderSelectedPublisher.currentPublisher = state.currentPublisher := by
  unfold renderSelectedPublisher
  split
  · rename_i publisher current
    have inside : state.currentIndex < state.publishers.length := (List.getElem?_eq_some_iff.mp current).1
    show state.publishers[if state.currentIndex < state.publishers.length then state.currentIndex else 0]? = _
    rw [if_pos inside]
    rfl
  · rfl

theorem draftPayload_render (state : PublisherPanel) (publisher : Record) :
    state.renderSelectedPublisher.draftPayload publisher = state.draftPayload publisher := by
  obtain ⟨_, _, _, _, rendered⟩ := state.renderSelectedPublisher_eq
  rw [rendered]
  rfl

theorem requestPayload_render {publisher : Record} (current : state.currentPublisher = some publisher) :
    state.renderSelectedPublisher.requestPayload = state.shownPayload publisher := by
  rw [renderSelectedPublisher, current]

theorem showsSent_render : state.renderSelectedPublisher.ShowsSent panel ↔
    ∀ publisher ∈ state.currentPublisher, OnePayload (state.draftPayload publisher) (publisher.prop "payload") := by
  rw [showsSent_iff, currentPublisher_render]
  refine forall₂_congr fun publisher current => ?_
  rw [requestPayload_render current, shownPayload_iff]

theorem showsSent_renders (times : Nat) : (renderSelectedPublisher^[times + 1] state).ShowsSent panel ↔
    ∀ publisher ∈ state.currentPublisher, OnePayload (state.draftPayload publisher) (publisher.prop "payload") := by
  induction times generalizing state with
  | zero => exact showsSent_render
  | succ times ih =>
    rw [Function.iterate_succ_apply, ih, currentPublisher_render]
    simp only [draftPayload_render]

theorem setEndpointConfig_prop {name : Text} (apart : name ≠ "endpoint") (publisher : Record) (key : Text) (value : Json) :
    (setEndpointConfig publisher key value).prop name = publisher.prop name := by
  show (Record.assign _ _ _).lookup _ = _
  rw [Record.lookup_assign, if_neg (by simpa using apart)]

theorem applyHttpUrl_prop {name : Text} (apart : name ≠ "endpoint") (publisher : Record) (value : Text) :
    (applyHttpUrlToEndpoint panel publisher value).prop name = publisher.prop name := by
  unfold applyHttpUrlToEndpoint
  split <;> rw [setEndpointConfig_prop apart, setEndpointConfig_prop apart]

theorem updateRequestField_prop {name : Text} (apart : name ≠ "endpoint") (publisher : Record) (inputId : RequestInput)
    (value : Text) : (updateRequestField panel publisher inputId value).prop name = publisher.prop name := by
  unfold updateRequestField
  split
  · split
    · exact applyHttpUrl_prop apart publisher value
    · exact setEndpointConfig_prop apart publisher _ _
  · rfl

theorem foldl_prop {α : Type} {name : Text} {step : Record → α → Record}
    (kept : ∀ publisher a, (step publisher a).prop name = publisher.prop name) (publisher : Record) (items : List α) :
    (items.foldl step publisher).prop name = publisher.prop name := by
  induction items generalizing publisher with
  | nil => rfl
  | cons item rest ih => rw [List.foldl_cons, ih, kept]

theorem prop_ite {name : Text} {c : Prop} [Decidable c] {a b : Record} {value : Option Json} (first : a.prop name = value)
    (second : b.prop name = value) : (if c then a else b).prop name = value := by
  split <;> assumption

theorem httpEdits_prop {name : Text} (apart : name ≠ "endpoint") (publisher : Record) {c₁ c₂ c₃ : Prop} [Decidable c₁]
    [Decidable c₂] [Decidable c₃] {method path : Json} {value : Text} :
    Record.prop (if c₂ then
        applyHttpUrlToEndpoint panel (if c₁ then publisher else setEndpointConfig publisher "method" method) value
      else if c₃ then
        setEndpointConfig (if c₁ then publisher else setEndpointConfig publisher "method" method) "path" path
      else if c₁ then publisher else setEndpointConfig publisher "method" method) name = publisher.prop name := by
  have kept : Record.prop (if c₁ then publisher else setEndpointConfig publisher "method" method) name =
      publisher.prop name := prop_ite rfl (setEndpointConfig_prop apart _ _ _)
  exact prop_ite ((applyHttpUrl_prop apart _ _).trans kept) (prop_ite ((setEndpointConfig_prop apart _ _ _).trans kept) kept)

theorem applyHistoryRequestFields_prop {name : Text} (apart : name ≠ "endpoint") (publisher : Record) (entry : Json) :
    (applyHistoryRequestFieldsToPublisher panel publisher entry).prop name = publisher.prop name := by
  unfold applyHistoryRequestFieldsToPublisher
  dsimp only
  split
  · split
    · exact httpEdits_prop apart publisher
    · exact (setEndpointConfig_prop apart _ _ _).trans (httpEdits_prop apart publisher)
  · apply foldl_prop
    intro publisher field
    split
    · rfl
    · exact setEndpointConfig_prop apart publisher _ _

theorem keys_congr {publisher other : Record} (id : publisher.prop "id" = other.prop "id")
    (name : publisher.prop "name" = other.prop "name") :
    publisherStorageKeysFor publisher = publisherStorageKeysFor other := by
  unfold publisherStorageKeysFor
  rw [id, name]

theorem draftPayload_congr {view other : MessageView} {publisher same : Record}
    (drafts : view.localPublisherState = other.localPublisherState)
    (keys : publisherStorageKeysFor publisher = publisherStorageKeysFor same) :
    view.draftPayload publisher = other.draftPayload same := by
  unfold MessageView.draftPayload MessageView.readLocalPublisherState
  rw [drafts, keys]

theorem current_at (view : MessageView) (publishers : List Record) (index : Nat) :
    ({ view with publishers, selectedIndex := min index (publishers.length - 1) } : MessageView).currentPublisher =
      publishers[min index (publishers.length - 1)]? := by
  unfold MessageView.currentPublisher MessageView.currentIndex
  dsimp only
  cases publishers with
  | nil => rfl
  | cons first rest =>
    rw [if_pos]
    simp only [List.length_cons, Nat.add_sub_cancel]
    omega

/-- A draft that was just written is what is read back. -/
theorem readLocal_written (view : MessageView) (publisher : Record) (payload headers : Option Json) :
    (view.setLocalPublisherState publisher payload headers).readLocalPublisherState publisher =
      if (publisherStorageKeysFor publisher).isEmpty then none
      else some (.obj (view.nextLocalState publisher payload headers)) := by
  have state : (view.setLocalPublisherState publisher payload headers).localPublisherState =
      Assoc.insertAll view.localPublisherState ((publisherStorageKeysFor publisher).map fun key =>
        (key, Json.obj (view.nextLocalState publisher payload headers))) := rfl
  unfold MessageView.readLocalPublisherState
  rw [state]
  generalize view.nextLocalState publisher payload headers = next
  cases publisherStorageKeysFor publisher with
  | nil => rfl
  | cons key rest =>
    have written : Record.prop (Assoc.insertAll view.localPublisherState ((key :: rest).map fun other =>
        (other, Json.obj next))) key = some (.obj next) := Assoc.lookup_insertAll_const _ _ List.mem_cons_self
    rw [List.findSome?_cons, written]
    rfl

theorem draftPayload_written (view : MessageView) (publisher : Record) (payload headers : Option Json) :
    (view.setLocalPublisherState publisher payload headers).draftPayload publisher =
      if (publisherStorageKeysFor publisher).isEmpty then none
      else some (((payload.or (Json.present (view.draftPayload publisher))).or
        (Json.present (publisher.prop "payload"))).getD (.str "{}")) := by
  rw [MessageView.draftPayload, readLocal_written]
  split <;> rfl

theorem setCurrent_current (view : MessageView) (publisher : Record) :
    (view.setCurrent publisher).currentPublisher = view.currentPublisher.map fun _ => publisher := by
  unfold MessageView.setCurrent MessageView.currentPublisher MessageView.currentIndex
  simp only [List.length_set]
  rw [List.getElem?_set_self']
  rfl

theorem onPublisher_some {act : Record → PublisherPanel × Nat} {publisher : Record}
    (current : state.currentPublisher = some publisher) : state.onPublisher act = act publisher := by
  rw [onPublisher, current]
  rfl

theorem onPublisher_none {act : Record → PublisherPanel × Nat} (current : state.currentPublisher = none) :
    state.onPublisher act = (state, 0) := by
  rw [onPublisher, current]
  rfl

theorem onPublisher_still {act : Record → PublisherPanel × Nat} (each : ∀ publisher, (act publisher).2 = 0) :
    (state.onPublisher act).2 = 0 := by
  cases current : state.currentPublisher with
  | none => rw [onPublisher_none current]
  | some publisher => rw [onPublisher_some current, each]

theorem payloadsOf_edited {next : PublisherPanel} {publisher edited : Record}
    (current : state.currentPublisher = some publisher)
    (now : next.currentPublisher = (state.toMessageView.setCurrent edited).currentPublisher) :
    next.currentPublisher.map next.payloadsOf = some (next.payloadsOf edited) := by
  rw [now, setCurrent_current, show state.toMessageView.currentPublisher = _ from current]
  rfl

theorem initPublishers_drafts (view : MessageView) (browser : Browser) (publishers : List Record) (history : Option Json)
    (selectedIndex : Nat) : (view.initPublishers browser publishers history selectedIndex).localPublisherState =
      view.loadLocalState.localPublisherState := by
  have loaded : (({ view with nextHeaderRowId := 1 } : MessageView).loadLocalState).localPublisherState =
      view.loadLocalState.localPublisherState := by
    unfold MessageView.loadLocalState
    dsimp only
    cases view.cachedState <;> rfl
  rw [← loaded]
  unfold MessageView.initPublishers MessageView.hydrateHistory
  dsimp only
  split <;> rfl

theorem coming_load (publishers : List Record) (history : Option Json) (selectedIndex : Nat) :
    let loaded := state.replaced (state.toMessageView.initPublishers panel.toBrowser publishers history selectedIndex)
    state.comingPayloads panel (.load publishers history selectedIndex) = loaded.currentPublisher.map loaded.payloadsOf := by
  intro loaded
  have shown := current_at ((({ state.toMessageView with nextHeaderRowId := 1 } : MessageView).loadLocalState).hydrateHistory
    panel.toBrowser history) (publishers.map (normalizePublisher panel.toForms)) selectedIndex
  rw [List.length_map, List.getElem?_map] at shown
  have current : loaded.currentPublisher = _ := shown
  rw [current, Option.map_map]
  have drafts := initPublishers_drafts state.toMessageView panel.toBrowser publishers history selectedIndex
  refine Option.map_congr fun given _ => ?_
  rw [Function.comp_apply]
  generalize normalizePublisher panel.toForms given = publisher
  exact congrArg (·, publisher.prop "payload") (draftPayload_congr drafts rfl).symm

theorem coming_saved (index : Nat) (list : List Record) :
    state.comingPayloads panel (.saved index (some list)) =
      ({ state.replaced { state.toMessageView with publishers := list.map (normalizePublisher panel.toForms) } with
        selectedIndex := min index (list.length - 1) } : PublisherPanel).currentPublisher.map state.payloadsOf := by
  have shown := current_at state.toMessageView (list.map (normalizePublisher panel.toForms)) index
  rw [List.length_map, List.getElem?_map] at shown
  have current : ({ state.replaced { state.toMessageView with publishers := list.map (normalizePublisher panel.toForms) } with
      selectedIndex := min index (list.length - 1) } : PublisherPanel).currentPublisher = _ := shown
  rw [current, Option.map_map]
  rfl

/-- The payloads of the current publisher, if the panel is rendered. -/
def renderedPayloads : PublisherPanel × Nat → Option (Option Json × Option Json)
  | (_, 0) => none
  | (state, _ + 1) => state.currentPublisher.map state.payloadsOf

theorem coming_editRequestField (inputId : RequestInput) (value : Text) :
    state.comingPayloads panel (.editRequestField inputId value) =
      renderedPayloads (state.act panel (.editRequestField inputId value)) := by
  unfold comingPayloads act
  dsimp only
  cases current : state.currentPublisher with
  | none => rw [onPublisher_none current]; rfl
  | some publisher =>
    rw [onPublisher_some current, Option.filter_some]
    cases (panel.requestBarFields (endpointTypeOf publisher)).any fun field => field.inputId = inputId with
    | false => rfl
    | true =>
      have kept : ∀ name, name ≠ ("endpoint" : Text) →
          (updateRequestField panel publisher inputId value).prop name = publisher.prop name :=
        fun name apart => updateRequestField_prop apart publisher inputId value
      rw [if_pos rfl, if_pos rfl, renderedPayloads, payloadsOf_edited current rfl]
      refine congrArg some (Prod.ext ?_ (kept _ (by decide)).symm)
      exact draftPayload_congr rfl (keys_congr (kept _ (by decide)) (kept _ (by decide))).symm

theorem coming_editForm (updated : Record) :
    state.comingPayloads panel (.editForm updated) = renderedPayloads (state.act panel (.editForm updated)) := by
  unfold comingPayloads act
  dsimp only
  cases current : state.currentPublisher with
  | none =>
    have drafted : ({ state with formDrafts := Assoc.insert state.formDrafts (state.selectedIndex, updated) } :
        PublisherPanel).currentPublisher = none := current
    rw [onPublisher_none drafted]
    rfl
  | some publisher =>
    have drafted : ({ state with formDrafts := Assoc.insert state.formDrafts (state.selectedIndex, updated) } :
        PublisherPanel).currentPublisher = some publisher := current
    rw [onPublisher_some drafted, renderedPayloads, payloadsOf_edited current rfl]
    rfl

theorem shownEntry_draft (view : MessageView) {publisher edited : Record} (entry : Json)
    (keys : publisherStorageKeysFor edited = publisherStorageKeysFor publisher) :
    (view.showPublisherHistoryEntry edited entry).draftPayload (edited.put "payload" (entry.get? "payload")) =
      if (publisherStorageKeysFor publisher).isEmpty then none
      else some (((Json.present (entry.get? "payload")).or (Json.present (view.draftPayload publisher))).getD (.str "{}")) := by
  have kept : publisherStorageKeysFor (edited.put "payload" (entry.get? "payload")) = publisherStorageKeysFor publisher := by
    rw [← keys]
    apply keys_congr
    · exact (Record.lookup_put ..).trans (if_neg (by decide))
    · exact (Record.lookup_put ..).trans (if_neg (by decide))
  have own : Record.prop (edited.put "payload" (entry.get? "payload")) "payload" = entry.get? "payload" :=
    (Record.lookup_put ..).trans (if_pos rfl)
  unfold MessageView.showPublisherHistoryEntry
  dsimp only
  have before : ({ view.setCurrent (edited.put "payload" (entry.get? "payload")) with
      nextHeaderRowId := view.nextHeaderRowId + (view.headersOf entry).length } : MessageView).draftPayload
        (edited.put "payload" (entry.get? "payload")) = view.draftPayload publisher := draftPayload_congr rfl kept
  rw [draftPayload_written, kept, own, before]
  cases Json.present (entry.get? "payload") <;> cases Json.present (view.draftPayload publisher) <;> rfl

theorem coming_showHistory (historyIndex : Nat) :
    state.comingPayloads panel (.showHistory historyIndex) =
      renderedPayloads (state.act panel (.showHistory historyIndex)) := by
  unfold comingPayloads act
  dsimp only
  cases current : state.currentPublisher with
  | none => rw [onPublisher_none current]; rfl
  | some publisher =>
    rw [onPublisher_some current, Option.bind_some]
    cases (state.currentHistoryEntries publisher)[historyIndex]? with
    | none => rfl
    | some entry =>
      dsimp only
      have kept : ∀ name, name ≠ ("endpoint" : Text) →
          (applyHistoryRequestFieldsToPublisher panel publisher entry).prop name = publisher.prop name :=
        fun name apart => applyHistoryRequestFields_prop apart publisher entry
      rw [renderedPayloads, payloadsOf_edited current rfl]
      refine congrArg some (Prod.ext ?_ ?_)
      · exact (shownEntry_draft state.toMessageView entry (keys_congr (kept _ (by decide)) (kept _ (by decide)))).symm
      · exact ((Record.lookup_put ..).trans (if_pos rfl)).symm

/-- The payloads that are going to be shown are those of the current publisher once the panel is rendered. -/
theorem comingPayloads_eq (action : PanelAction) :
    state.comingPayloads panel action = renderedPayloads (state.act panel action) := by
  have still : ∀ {acted : PublisherPanel × Nat}, acted.2 = 0 → none = renderedPayloads acted := by
    rintro ⟨after, times⟩ rfl
    rfl
  cases action with
  | load publishers history selectedIndex => exact coming_load publishers history selectedIndex
  | select index =>
    have current := current_at state.toMessageView state.publishers index
    exact congrArg (Option.map state.payloadsOf) current.symm
  | saved index list =>
    cases list with
    | none =>
      have current := current_at state.toMessageView state.publishers index
      exact congrArg (Option.map state.payloadsOf) current.symm
    | some list =>
      have length : (list.map (normalizePublisher panel.toForms)).length = list.length := List.length_map _
      rw [coming_saved, ← length]
      rfl
  | editRequestField inputId value => exact coming_editRequestField inputId value
  | editForm updated => exact coming_editForm updated
  | showHistory historyIndex => exact coming_showHistory historyIndex
  | respond position response =>
    unfold comingPayloads act
    dsimp only
    cases state.inFlight[position]? <;> rfl
  | editRows edit => rfl
  | fail position => rfl
  | editPayload value => exact still (onPublisher_still fun _ => rfl)
  | editMethod value => exact still (onPublisher_still fun _ => rfl)
  | save nameInput => exact still (onPublisher_still fun _ => rfl)
  | send => exact still (onPublisher_still fun _ => rfl)

/-! ### Actions that do not render -/

theorem ShowsSent.kept {next : PublisherPanel} (shows_ : state.ShowsSent panel)
    (shown : next.requestPayload = state.requestPayload)
    (payload : ∀ publisher ∈ next.currentPublisher, ∃ before ∈ state.currentPublisher,
      Json.textOr [] (publisher.prop "payload") = Json.textOr [] (before.prop "payload")) : next.ShowsSent panel := by
  rw [showsSent_iff] at shows_ ⊢
  intro publisher current
  obtain ⟨before, own, same⟩ := payload publisher current
  rw [shown, same]
  exact shows_ before own

theorem withDraft_payload {forms : Forms} {rows : Json} {entity draft : Record} :
    (EntityKind.withDraft forms .publisher rows entity draft).prop "payload" = entity.prop "payload" := by
  show ((Record.put _ _ _).assign _ _).lookup _ = _
  rw [Record.lookup_assign, if_neg (by decide), Record.lookup_put, if_pos (by decide)]

theorem withCustomHeaders_payload (publisher : Record) (rows : List MetadataRow) :
    (withCustomHeaders publisher rows).prop "payload" = publisher.prop "payload" := by
  unfold withCustomHeaders
  split
  · exact setEndpointConfig_prop (by decide) publisher _ _
  · rfl

theorem ShowsSent.edited {next : PublisherPanel} {view : MessageView} {publisher edited : Record}
    (shows_ : state.ShowsSent panel) (current : state.currentPublisher = some publisher)
    (shown : next.requestPayload = state.requestPayload)
    (now : next.currentPublisher = (view.setCurrent edited).currentPublisher)
    (before : view.currentPublisher = state.currentPublisher)
    (payload : edited.prop "payload" = publisher.prop "payload") : next.ShowsSent panel := by
  apply shows_.kept shown
  intro other held
  rw [now, setCurrent_current, before, current] at held
  obtain rfl := Option.some.inj held
  exact ⟨publisher, current, by rw [payload]⟩

theorem saved_current {publisher : Record} (next : Record) (current : state.currentPublisher = some publisher) :
    ({ state.toMessageView with publishers := state.publishers.set state.selectedIndex next } : MessageView).currentPublisher =
        some next ∨
      ({ state.toMessageView with publishers := state.publishers.set state.selectedIndex next } : MessageView).currentPublisher =
        some publisher := by
  by_cases inside : state.selectedIndex < state.publishers.length
  · left
    unfold MessageView.currentPublisher MessageView.currentIndex
    simp only [List.length_set]
    rw [if_pos inside, List.getElem?_set_self inside]
  · right
    rw [List.set_eq_of_length_le (Nat.le_of_not_lt inside)]
    exact current

theorem ShowsSent.save {publisher : Record} (shows_ : state.ShowsSent panel)
    (current : state.currentPublisher = some publisher) (nameInput : Option Text) :
    (state.saveCurrentPublisherAction panel publisher nameInput).ShowsSent panel := by
  unfold saveCurrentPublisherAction
  dsimp only
  split
  · rename_i draft _
    refine shows_.kept rfl fun other held => ?_
    rcases saved_current (EntityKind.withDraft panel.toForms .publisher
      (.arr (state.metadataRows.map MetadataRow.header)) publisher draft) current with now | now
    · obtain rfl := Option.some.inj (now.symm.trans held)
      exact ⟨publisher, current, by rw [withDraft_payload]⟩
    · obtain rfl := Option.some.inj (now.symm.trans held)
      exact ⟨_, current, rfl⟩
  · exact shows_.kept rfl fun other held => ⟨other, held, rfl⟩

theorem sync_current (view : MessageView) (edit : Record → Record) (rows : List Record) :
    (view.onCurrent fun publisher => view.syncMetadataRowsToPublisher (edit publisher) rows).currentPublisher =
      view.currentPublisher.map fun publisher =>
        (edit publisher).assign "headers" (.arr (rows.map fun row => .obj (row.put "id" none))) := by
  unfold MessageView.onCurrent
  cases current : view.currentPublisher with
  | none => exact current
  | some publisher =>
    refine (setCurrent_current view _).trans ?_
    rw [current]
    rfl

theorem ShowsSent.editRows (shows_ : state.ShowsSent panel) (edit : RowEdit) : (state.editRows edit).ShowsSent panel := by
  refine shows_.kept rfl fun other held => ?_
  have edited := (sync_current _ _ _).symm.trans held
  obtain ⟨publisher, current, rfl⟩ := Option.map_eq_some_iff.mp edited
  refine ⟨publisher, current, congrArg (Json.textOr []) ?_⟩
  show (Record.assign _ _ _).lookup _ = _
  rw [Record.lookup_assign, if_neg (by decide)]
  exact withCustomHeaders_payload publisher _

theorem onPublisher_shows {act : Record → PublisherPanel × Nat} (still : (state.onPublisher act).2 = 0)
    (shows_ : state.ShowsSent panel)
    (each : ∀ publisher, state.currentPublisher = some publisher → (act publisher).2 = 0 →
      (act publisher).1.ShowsSent panel) : (state.onPublisher act).1.ShowsSent panel := by
  unfold onPublisher at still ⊢
  cases current : state.currentPublisher with
  | none => exact shows_
  | some publisher =>
    rw [current] at still
    exact each publisher current still

/-- What does not render the panel leaves it showing what is sent. -/
theorem ShowsSent.act {action : PanelAction} (shows_ : state.ShowsSent panel) (still : (state.act panel action).2 = 0) :
    (state.act panel action).1.ShowsSent panel := by
  cases action with
  | load publishers history selectedIndex => cases still
  | select index => cases still
  | saved index list => cases still
  | editRows edit => exact shows_.editRows edit
  | fail position => exact shows_.kept rfl fun other held => ⟨other, held, rfl⟩
  | editPayload value =>
    apply onPublisher_shows still shows_
    intro publisher current _
    rw [showsSent_iff]
    intro other held
    have edited : ((state.toMessageView.setCurrent (publisher.assign "payload" (.str value))).currentPublisher) = some other :=
      held
    rw [setCurrent_current, current] at edited
    obtain rfl := Option.some.inj edited
    show value = Json.textOr [] ((Record.assign _ _ _).lookup _)
    rw [Record.lookup_assign, if_pos (by decide), Json.textOr_str]
  | editMethod value =>
    apply onPublisher_shows still shows_
    intro publisher current _
    exact shows_.edited current rfl rfl rfl (setEndpointConfig_prop (by decide) publisher _ _)
  | editRequestField inputId value =>
    apply onPublisher_shows still shows_
    intro publisher current _
    exact shows_.edited current rfl rfl rfl (updateRequestField_prop (by decide) publisher inputId value)
  | editForm updated =>
    have drafted : ShowsSent panel
        { state with formDrafts := Assoc.insert state.formDrafts (state.selectedIndex, updated) } :=
      shows_.kept rfl fun other held => ⟨other, held, rfl⟩
    apply onPublisher_shows still drafted
    intro publisher _ rendered
    cases rendered
  | showHistory historyIndex =>
    apply onPublisher_shows still shows_
    intro publisher current unrendered
    dsimp only at unrendered ⊢
    split at unrendered
    · cases unrendered
    · exact shows_
  | save nameInput =>
    apply onPublisher_shows still shows_
    intro publisher current _
    exact shows_.save current nameInput
  | send =>
    apply onPublisher_shows still shows_
    intro publisher current _
    exact shows_.kept rfl fun other held => ⟨other, held, rfl⟩
  | respond position response =>
    rw [PublisherPanel.act] at still ⊢
    split at still
    · cases still
    · exact shows_

/-- In every state of a session, the panel shows what is sent exactly when each time it is rendered the publisher
and its draft have one payload. -/
theorem shows_sent_iff (panel : Panel) (start : PublisherPanel) (actions : List PanelAction)
    (unloaded : start.publishers = []) :
    Steps.Always (step · panel ·) (ShowsSent panel) start actions ↔
      Steps.Careful (step · panel ·) (ShowsOwn panel) start actions := by
  apply Steps.always_iff
  · intro state action next shows_ taken
    obtain rfl := Option.some.inj taken
    unfold ShowsOwn
    rw [comingPayloads_eq]
    have unrendered := @ShowsSent.act panel state action shows_
    generalize state.act panel action = acted at unrendered ⊢
    obtain ⟨after, _ | times⟩ := acted
    · exact iff_of_true (unrendered rfl) fun payloads coming => absurd coming (Option.not_mem_none payloads)
    · rw [showsSent_renders]
      constructor
      · intro own payloads coming
        obtain ⟨publisher, current, rfl⟩ := Option.map_eq_some_iff.mp coming
        exact own publisher current
      · intro own publisher current
        exact own _ (Option.map_eq_some_iff.mpr ⟨publisher, current, rfl⟩)
  · intro state action stuck
    cases stuck
  · intro publisher current
    have none_ : start.currentPublisher = none := by
      unfold MessageView.currentPublisher
      rw [unloaded, List.getElem?_nil]
    rw [none_] at current
    cases current

end

/-- A payload is edited, and the page is loaded again without saving. -/
def reloadUnsaved : List PanelAction :=
  [.load [MessageView.auditPublisher] none 0, .editPayload "edited", .load [MessageView.auditPublisher] none 0]

theorem shows_sent_iff_reload :
    Steps.Always (step · plainPanel ·) (ShowsSent plainPanel) {} reloadUnsaved ↔
      Steps.Careful (step · plainPanel ·) (ShowsOwn plainPanel) {} reloadUnsaved :=
  shows_sent_iff plainPanel {} reloadUnsaved rfl

/-- The draft is shown, and the payload of the configuration is sent. -/
theorem reload_shows_draft :
    ¬∀ (start : PublisherPanel) (actions : List PanelAction), start.publishers = [] →
      Steps.Always (step · plainPanel ·) (ShowsSent plainPanel) start actions := by
  intro all
  have reloaded := (all {} reloadUnsaved rfl).2.2.2
  have shown := (reloaded _ rfl).1
  revert shown
  decide +kernel

end PublisherPanel

end MqBridge.Workspace
