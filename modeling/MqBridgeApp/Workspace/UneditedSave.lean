import MqBridgeApp.Workspace.ShownRequest

/-!
# Saving without an edit

A publisher is saved from the draft that the name field of its form makes, and its headers from the rows of
the panel. Without a draft in the storage the rows come from an `http` endpoint only.
-/

namespace MqBridge.Workspace
open Text

section
variable {forms : Forms} {publisher other : Record}

theorem normalizePublisher_lookup (forms : Forms) (input : Record) (key : Text) :
    (normalizePublisher forms input).lookup key =
      if key = ("headers" : Text) then some (.arr ((Json.items (input.prop "headers")).map normalizeHeaderRow))
      else if key = ("payload" : Text) then some (.str (Json.textOr "{}" (input.prop "payload")))
      else if key = ("endpoint" : Text) then some (forms.normalizeEndpoint (input.prop "endpoint"))
      else if key = ("comment" : Text) then some (.str (Json.textOr [] (input.prop "comment")))
      else if key = ("name" : Text) then some (.str (Json.textOr [] (input.prop "name")))
      else if key = ("id" : Text) then some (.str (forms.entityId input))
      else input.lookup key := by
  simp [normalizePublisher]

theorem entityId_same (same : Record.Same publisher other)
    (identified : jsTrim (Json.textOr [] (publisher.prop "id")) ≠ []) : forms.entityId publisher = forms.entityId other := by
  unfold Forms.entityId
  have id : other.prop "id" = publisher.prop "id" := (same _).symm
  rw [id, if_neg (by simpa using identified), if_neg (by simpa using identified)]

theorem normalizePublisher_same (same : Record.Same publisher other)
    (identified : jsTrim (Json.textOr [] (publisher.prop "id")) ≠ []) :
    Record.Same (normalizePublisher forms publisher) (normalizePublisher forms other) := by
  intro key
  have props : ∀ name, publisher.prop name = other.prop name := same
  rw [normalizePublisher_lookup, normalizePublisher_lookup, entityId_same same identified, same key]
  simp only [props]

theorem identified_of_normal {browser : Browser} (normal : Record.Same (normalizePublisher browser.toForms publisher) publisher) :
    jsTrim (Json.textOr [] (publisher.prop "id")) ≠ [] := by
  intro blank
  have id : some (Json.str (browser.entityId publisher)) = publisher.prop "id" :=
    (normalizePublisher_id browser.toForms publisher).symm.trans (normal _)
  have created : browser.entityId publisher = browser.createLocalEntityId publisher := by
    rw [Forms.entityId, if_pos (by simpa using blank)]
  rw [← id, Json.textOr_str, created] at blank
  exact browser.createLocalEntityId_full publisher blank

end

/-- The headers of an `http` endpoint as rows, and no rows for another one. -/
def endpointHeaders (publisher : Record) : List Json :=
  if endpointTypeOf publisher = ("http" : Text) then
    (((endpointConfigOf publisher).prop "custom_headers").elim [] objectEntries).map fun header =>
      headerRow header.1 header.2.toText true
  else []

theorem normalizeHeaderRows_headers (seen : List Nat) (rows : List MetadataRow) :
    (normalizeHeaderRowsFrom seen rows).map MetadataRow.header = rows.map MetadataRow.header := by
  induction rows generalizing seen with
  | nil => rfl
  | cons row rest ih =>
    rw [normalizeHeaderRowsFrom, List.map_cons, List.map_cons, ih]
    rfl

theorem buildMetadataRows_headers (nextHeaderRowId : Nat) (publisher : Record) :
    (buildMetadataRows none nextHeaderRowId publisher).1.map MetadataRow.header = endpointHeaders publisher := by
  show (normalizeHeaderRowsFrom [] _).map MetadataRow.header = _
  rw [normalizeHeaderRows_headers]
  unfold endpointHeaders
  split
  · apply List.ext_getElem?
    intro i
    rw [List.getElem?_map, List.getElem?_mapIdx, List.getElem?_map, Option.map_map]
    rfl
  · rfl

/-! ### The state when a publisher is saved -/

namespace PublisherPanel

def EmptyStorage (state : PublisherPanel) : Prop := state.storage = [] ∧ state.cachedState.getD [] = []

/-- The publishers are the ones that were loaded, and neither a draft nor an edit of a form is held. -/
structure Opened (forms : Forms) (stored : List Record) (state : PublisherPanel) : Prop where
  publishers : state.publishers = stored.map (normalizePublisher forms)
  drafts : state.localPublisherState = []
  formDrafts : state.formDrafts = []

section
variable {panel : Panel} {state : PublisherPanel} {stored : List Record}

theorem Opened.render {forms : Forms} (opened : Opened forms stored state) :
    Opened forms stored state.renderSelectedPublisher := by
  obtain ⟨_, _, _, _, rendered⟩ := state.renderSelectedPublisher_eq
  rw [rendered]
  exact ⟨opened.publishers, opened.drafts, opened.formDrafts⟩

theorem posted_render (state : PublisherPanel) : state.renderSelectedPublisher.posted = state.posted := by
  obtain ⟨_, _, _, _, rendered⟩ := state.renderSelectedPublisher_eq
  rw [rendered]

theorem selectedIndex_render (inside : state.selectedIndex < state.publishers.length) :
    state.renderSelectedPublisher.selectedIndex = state.selectedIndex := by
  unfold renderSelectedPublisher
  split
  · exact if_pos inside
  · rfl

theorem hydrateHistory_drafts (browser : Browser) (view : MessageView) (history : Option Json) :
    (view.hydrateHistory browser history).localPublisherState = view.localPublisherState := by
  unfold MessageView.hydrateHistory
  split <;> rfl

theorem EmptyStorage.loadLocalState (empty : state.EmptyStorage) (nextHeaderRowId : Nat) :
    ({ state.toMessageView with nextHeaderRowId } : MessageView).loadLocalState.localPublisherState = [] := by
  unfold MessageView.loadLocalState
  obtain ⟨storage, preloaded⟩ := empty
  cases cached : state.cachedState with
  | some states =>
    rw [cached] at preloaded
    exact preloaded
  | none =>
    show Json.asObject (state.storage.lookup publisherStateKey).join = []
    rw [storage]
    rfl

theorem Opened.load (empty : state.EmptyStorage) (stored : List Record) (history : Option Json) (selectedIndex : Nat) :
    Opened panel.toForms stored (state.act panel (.load stored history selectedIndex)).1 where
  publishers := rfl
  drafts := (hydrateHistory_drafts panel.toBrowser _ history).trans (empty.loadLocalState 1)
  formDrafts := rfl

theorem Opened.current {forms : Forms} (opened : Opened forms stored state)
    (inside : state.selectedIndex < state.publishers.length) :
    state.currentPublisher = (stored[state.selectedIndex]?).map (normalizePublisher forms) := by
  unfold MessageView.currentPublisher MessageView.currentIndex
  rw [if_pos inside, opened.publishers, List.getElem?_map]

theorem Opened.rows {forms : Forms} (opened : Opened forms stored state) {publisher : Record}
    (current : state.currentPublisher = some publisher) :
    state.renderSelectedPublisher.metadataRows.map MetadataRow.header = endpointHeaders publisher := by
  have undrafted : state.readLocalPublisherState publisher = none := by
    unfold MessageView.readLocalPublisherState
    rw [opened.drafts]
    simp
  rw [renderSelectedPublisher, current]
  dsimp only
  rw [undrafted]
  exact buildMetadataRows_headers _ _

/-- What is saved in the place of a publisher, when the name field holds its name. -/
theorem savedDraft_same {panel : Panel} {publisher : Record} {name : Text} {rows : List Json}
    (normal : Record.Same (normalizePublisher panel.toForms publisher) publisher)
    (named : publisher.prop "name" = some (.str name)) :
    Record.Same (EntityKind.withDraft panel.toForms .publisher (.arr rows) (normalizePublisher panel.toForms publisher)
        ((normalizePublisher panel.toForms publisher).assign "name" (.str name))) publisher ↔
      publisher.prop "headers" = some (.arr rows) := by
  have drafted : Record.Same ((normalizePublisher panel.toForms publisher).spread
      ((normalizePublisher panel.toForms publisher).assign "name" (.str name))) publisher := by
    intro key
    rw [Record.lookup_spread, Record.lookup_assign, normal key]
    split
    · rename_i own
      rw [eq_of_beq own]
      exact named.symm
    · exact Option.or_self
  have id : jsTrim (Json.textOr [] (Record.prop ((normalizePublisher panel.toForms publisher).spread
      ((normalizePublisher panel.toForms publisher).assign "name" (.str name))) "id")) ≠ [] := by
    have same : Record.prop _ "id" = publisher.prop "id" := drafted _
    rw [same]
    exact identified_of_normal normal
  have again : Record.Same (normalizePublisher panel.toForms _) (normalizePublisher panel.toForms _) :=
    normalizePublisher_same drafted id
  have saved : ∀ key, (EntityKind.withDraft panel.toForms .publisher (.arr rows)
        (normalizePublisher panel.toForms publisher)
        ((normalizePublisher panel.toForms publisher).assign "name" (.str name))).lookup key =
      if key == ("headers" : Text) then some (.arr rows) else publisher.lookup key := by
    intro key
    show ((Record.put _ _ _).assign _ _).lookup _ = _
    rw [Record.lookup_assign, Record.lookup_put, again key, normal key]
    congr 1
    split
    · rename_i own
      rw [eq_of_beq own]
      exact normal _
    · rfl
  constructor
  · intro same
    have headers := same ("headers" : Text)
    rw [saved, if_pos (beq_self_eq_true _)] at headers
    exact headers.symm
  · intro headers key
    rw [saved]
    split
    · rename_i own
      rw [eq_of_beq own]
      exact headers.symm
    · rfl

/-! ### Opening and saving -/

/-- Opens the view, selects a publisher and saves it. -/
def openAndSave (stored : List Record) (history : Option Json) (first index : Nat) (nameInput : Option Text) :
    List PanelAction :=
  [.load stored history first, .select index, .save nameInput]

theorem Opened.select (opened : Opened panel.toForms stored state) (index : Nat) :
    Opened panel.toForms stored { state with selectedIndex := index } :=
  ⟨opened.publishers, opened.drafts, opened.formDrafts⟩

/-- A state in which a publisher was selected and rendered, and what is posted when it is saved. -/
theorem Opened.save {publisher : Record} {nameInput : Option Text} {posted : List Record}
    (opened : Opened panel.toForms stored state) (inside : state.selectedIndex < state.publishers.length)
    (normal : ∀ publisher ∈ stored, Record.Same (normalizePublisher panel.toForms publisher) publisher)
    (there : stored[state.selectedIndex]? = some publisher)
    (rows : state.metadataRows.map MetadataRow.header = endpointHeaders publisher)
    (named : ∀ name ∈ nameInput, publisher.prop "name" = some (.str name))
    (saved : (state.act panel (.save nameInput)).1.posted = state.posted ++ [posted]) :
    List.Forall₂ Record.Same posted stored ↔
      nameInput = none ∨ publisher.prop "headers" = some (.arr (endpointHeaders publisher)) := by
  have current := opened.current inside
  rw [there, Option.map_some] at current
  have all : List.Forall₂ Record.Same state.publishers stored := by
    rw [opened.publishers, List.forall₂_map_left_iff]
    exact List.forall₂_same.mpr normal
  have act : (state.act panel (.save nameInput)).1 =
      state.saveCurrentPublisherAction panel (normalizePublisher panel.toForms publisher) nameInput := by
    rw [PublisherPanel.act, onPublisher, current]
    rfl
  rw [act] at saved
  cases nameInput with
  | none =>
    have posts : posted = state.publishers := by
      simp only [saveCurrentPublisherAction, flushPendingFormDraft, opened.formDrafts, List.lookup_nil] at saved
      exact (List.singleton_inj.mp (List.append_cancel_left saved)).symm
    rw [posts]
    exact iff_of_true all (.inl rfl)
  | some name =>
    have posts : posted = state.publishers.set state.selectedIndex
        (EntityKind.withDraft panel.toForms .publisher (.arr (endpointHeaders publisher))
          (normalizePublisher panel.toForms publisher)
          ((normalizePublisher panel.toForms publisher).assign "name" (.str name))) := by
      simp only [saveCurrentPublisherAction, flushPendingFormDraft, opened.formDrafts, List.lookup_nil, Option.getD_none,
        Assoc.lookup_insert_self, rows] at saved
      exact (List.singleton_inj.mp (List.append_cancel_left saved)).symm
    rw [posts, Lists.forall₂_set_iff all, there]
    simp only [Option.mem_def, Option.some.injEq, forall_eq', reduceCtorEq, false_or]
    exact savedDraft_same (normal publisher (List.mem_of_getElem? there)) (named name rfl)

theorem endpointHeaders_congr {publisher other : Record} (same : publisher.prop "endpoint" = other.prop "endpoint") :
    endpointHeaders publisher = endpointHeaders other := by
  unfold endpointHeaders endpointConfigOf endpointTypeOf endpointOf
  rw [same]

theorem Opened.shown {publisher : Record} (opened : Opened panel.toForms stored state)
    (inside : state.selectedIndex < state.publishers.length)
    (normal : Record.Same (normalizePublisher panel.toForms publisher) publisher)
    (there : stored[state.selectedIndex]? = some publisher) :
    state.renderSelectedPublisher.renderSelectedPublisher.metadataRows.map MetadataRow.header = endpointHeaders publisher := by
  have current := opened.current inside
  rw [there, Option.map_some, ← currentPublisher_render] at current
  rw [opened.render.rows current]
  exact endpointHeaders_congr (normal _)

theorem save_unrendered (state : PublisherPanel) (nameInput : Option Text) : (state.act panel (.save nameInput)).2 = 0 := by
  rw [PublisherPanel.act, onPublisher]
  cases state.currentPublisher <;> rfl

/-- The state in which a publisher is saved after the list was opened. -/
theorem exists_selected (panel : Panel) (start : PublisherPanel) (stored : List Record) (history : Option Json)
    (first index : Nat) (empty : start.EmptyStorage) :
    ∃ selected : PublisherPanel, Opened panel.toForms stored selected ∧
      selected.selectedIndex = min index (stored.length - 1) ∧ selected.posted = start.posted ∧
      ∀ nameInput, Steps.play (step · panel ·) start (openAndSave stored history first index nameInput) =
        some (selected.renderSelectedPublisher.renderSelectedPublisher.act panel (.save nameInput)).1 := by
  let listed := (start.act panel (.load stored history first)).1.renderSelectedPublisher.renderSelectedPublisher
  have opened : Opened panel.toForms stored listed := (Opened.load empty stored history first).render.render
  refine ⟨{ listed with selectedIndex := min index (listed.publishers.length - 1) }, opened.select _, ?_, ?_, ?_⟩
  · show min index (listed.publishers.length - 1) = min index (stored.length - 1)
    rw [opened.publishers, List.length_map]
  · show listed.posted = start.posted
    rw [posted_render, posted_render]
    rfl
  · intro nameInput
    show some (renderSelectedPublisher^[(PublisherPanel.act _ panel (.save nameInput)).2] _) = _
    rw [save_unrendered]
    rfl

/-- Where the list was opened and nothing was edited, saving posts the list that is stored exactly when the headers of
the publisher are the ones of its endpoint. -/
theorem unedited_save_iff (panel : Panel) (start after : PublisherPanel) (stored posted : List Record)
    (history : Option Json) (first index : Nat) (nameInput : Option Text) (empty : start.EmptyStorage)
    (normal : ∀ publisher ∈ stored, Record.Same (normalizePublisher panel.toForms publisher) publisher)
    (named : ∀ publisher ∈ stored[min index (stored.length - 1)]?, ∀ name ∈ nameInput,
      publisher.prop "name" = some (.str name))
    (played : Steps.play (step · panel ·) start (openAndSave stored history first index nameInput) = some after)
    (saved : after.posted = start.posted ++ [posted]) :
    List.Forall₂ Record.Same posted stored ↔
      nameInput = none ∨ ∀ publisher ∈ stored[min index (stored.length - 1)]?,
        publisher.prop "headers" = some (.arr (endpointHeaders publisher)) := by
  obtain ⟨selected, opened, place, unposted, plays⟩ := exists_selected panel start stored history first index empty
  obtain rfl := Option.some.inj ((plays nameInput).symm.trans played)
  have shown := opened.render.render
  have kept : selected.renderSelectedPublisher.renderSelectedPublisher.posted = start.posted := by
    rw [posted_render, posted_render, unposted]
  cases there : stored[min index (stored.length - 1)]? with
  | none =>
    -- Nothing can be selected, and so nothing is saved.
    have none_stored : stored = [] := by
      rw [List.getElem?_eq_none_iff] at there
      exact List.eq_nil_of_length_eq_zero (by omega)
    have unselected : selected.renderSelectedPublisher.renderSelectedPublisher.currentPublisher = none := by
      unfold MessageView.currentPublisher
      rw [shown.publishers, none_stored]
      rfl
    rw [PublisherPanel.act, onPublisher, unselected] at saved
    exact absurd (kept.symm.trans saved) (by simp)
  | some publisher =>
    have inside : selected.selectedIndex < selected.publishers.length := by
      rw [opened.publishers, List.length_map, place]
      exact (List.getElem?_eq_some_iff.mp there).1
    have own := normal publisher (List.mem_of_getElem? there)
    have stays : selected.renderSelectedPublisher.renderSelectedPublisher.selectedIndex = selected.selectedIndex := by
      rw [selectedIndex_render, selectedIndex_render inside]
      rw [selectedIndex_render inside, opened.render.publishers, ← opened.publishers]
      exact inside
    rw [there] at named
    simp only [Option.mem_def, Option.some.injEq, forall_eq'] at named ⊢
    rw [← place] at there
    have rows := opened.shown inside own there
    refine shown.save ?_ normal ?_ rows named (saved.trans (by rw [kept]))
    · rw [stays, shown.publishers, ← opened.publishers]
      exact inside
    · rw [stays]
      exact there

end

/-- A publisher in normal form without an `http` endpoint, whose only header is disabled. -/
def memoryPublisher : Record :=
  [("id", .str "p1"), ("name", .str "audit"), ("comment", .str []), ("endpoint", .obj [("memory", .obj [])]),
    ("payload", .str "{}"), ("headers", .arr [headerRow "authorization" "Bearer token" false])]

theorem memoryPublisher_normal :
    ∀ publisher ∈ [memoryPublisher], Record.Same (normalizePublisher plainPanel.toForms publisher) publisher := by
  intro publisher member
  obtain rfl := List.mem_singleton.mp member
  have fixed : normalizePublisher plainPanel.toForms memoryPublisher = memoryPublisher := by decide +kernel
  intro key
  rw [fixed]

theorem memoryPublisher_posted :
    PublisherPanel.posted ((Steps.play (step · plainPanel ·) {}
      (openAndSave [memoryPublisher] none 0 0 (some "audit"))).getD {}) =
        [[memoryPublisher.assign "headers" (.arr [])]] := by
  decide +kernel

theorem unedited_save_iff_memory :
    ∃ after, Steps.play (step · plainPanel ·) {} (openAndSave [memoryPublisher] none 0 0 (some "audit")) = some after ∧
      after.posted = [[memoryPublisher.assign "headers" (.arr [])]] ∧
      (List.Forall₂ Record.Same [memoryPublisher.assign "headers" (.arr [])] [memoryPublisher] ↔
        some (lit "audit") = none ∨ ∀ publisher ∈ [memoryPublisher][min 0 ([memoryPublisher].length - 1)]?,
          publisher.prop "headers" = some (.arr (endpointHeaders publisher))) :=
  ⟨_, rfl, memoryPublisher_posted,
    unedited_save_iff plainPanel {} _ [memoryPublisher] _ none 0 0 (some "audit") ⟨rfl, rfl⟩ memoryPublisher_normal
      (by rintro publisher ⟨⟩ name ⟨⟩; rfl) rfl memoryPublisher_posted⟩

/-- The name is saved as it was, and the header is lost. -/
theorem memoryPublisher_header_lost :
    ¬∀ (start after : PublisherPanel) (stored posted : List Record) (history : Option Json) (first index : Nat)
      (nameInput : Option Text), start.EmptyStorage →
      (∀ publisher ∈ stored, Record.Same (normalizePublisher plainPanel.toForms publisher) publisher) →
      (∀ publisher ∈ stored[min index (stored.length - 1)]?, ∀ name ∈ nameInput,
        publisher.prop "name" = some (.str name)) →
      Steps.play (step · plainPanel ·) start (openAndSave stored history first index nameInput) = some after →
      after.posted = start.posted ++ [posted] → List.Forall₂ Record.Same posted stored := by
  intro kept
  have same := kept {} _ [memoryPublisher] _ none 0 0 (some "audit") ⟨rfl, rfl⟩ memoryPublisher_normal
    (by rintro publisher ⟨⟩ name ⟨⟩; rfl) rfl memoryPublisher_posted
  have headers := (List.forall₂_cons.mp same).1 ("headers" : Text)
  revert headers
  decide

end PublisherPanel

end MqBridge.Workspace
