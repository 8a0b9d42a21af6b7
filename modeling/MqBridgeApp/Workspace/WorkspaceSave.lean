import MqBridgeApp.Workspace.DirtyState
import MqBridgeApp.Workspace.PresetMigration
import MqBridgeApp.Workspace.SectionSave

/-!
# Saving the workspace

A save posts the configuration, fetches what the server made of it, puts that in the place of the
configuration the views edit, lets the views start over and then takes what they hold for saved. The
forms stay open all the while.
-/

namespace MqBridge.Workspace
open Text Config Ui

/-- What a server makes of a body, and whether it accepts it; and what it answers. -/
structure Server (σ : Type) where
  post : σ → Record → σ × Bool
  get : σ → Record

def appServer (crates : Crates) (services : Services) : Server UiApp where
  post := postConfig crates services
  get := getConfig

inductive SectionName where
  | publishers
  | consumers
  | config
  deriving DecidableEq

def settingsKeys : List Text :=
  ["default_tab", "log_level", "logger", "ui_addr", "metrics_addr", "config_security", "env_vars"]

/-- A setting of a configuration that is brought up to date. -/
def settingOf (config : Record) (key : Text) : Option Json :=
  if key = "env_vars" then some (.obj (Presets.sanitizeEnvVars (config.prop "env_vars")))
  else if key = "config_security" then
    some (Presets.migrateConfigSecurity
      { configSecurity := config.prop "config_security", extractSecrets := config.prop "extract_secrets" })
  else config.prop key

def extractSettingsConfig (config : Record) : Record :=
  settingsKeys.filterMap fun key => (settingOf config key).map fun value => (key, value)

def mergeSettingsConfig (target settingsConfig : Record) : Record :=
  settingsKeys.foldl (fun merged key =>
    match settingsConfig.lookup key with
    | some value => merged.assign key value
    | none => merged) target

def sectionOf (config : Record) : SectionName → Json
  | .publishers => (config.lookup ("publishers" : Text)).getD (.arr [])
  | .consumers => (config.lookup ("consumers" : Text)).getD (.arr [])
  | .config => .obj (extractSettingsConfig config)

/-- The settings are not in the lists. -/
theorem extract_assign {key : Text} (list : key = "publishers" ∨ key = "consumers") (config : Record) (value : Json) :
    extractSettingsConfig (config.assign key value) = extractSettingsConfig config := by
  have others : ∀ setting ∈ (["extract_secrets"] : List Text) ++ settingsKeys, (setting == key) = false := by
    rcases list with rfl | rfl <;> decide
  have kept : ∀ setting ∈ (["extract_secrets"] : List Text) ++ settingsKeys,
      (config.assign key value).lookup setting = config.lookup setting := by
    intro setting member
    rw [Record.lookup_assign, others setting member]
    rfl
  apply List.filterMap_congr
  intro setting member
  have same := kept setting (List.mem_append_right _ member)
  have security := kept "config_security" (by decide)
  have secrets := kept "extract_secrets" (by decide)
  have env := kept "env_vars" (by decide)
  rw [settingOf, settingOf, Record.prop, Record.prop, Record.prop, Record.prop, Record.prop, Record.prop, Record.prop,
    Record.prop, same, security, secrets, env]

/-! ### A save and the edits beside it -/

structure Views where
  initPublishers : Record → Record
  initConsumers : Record → Record

inductive SavePhase where
  | idle
  | posting (body : Record)
  | accepted
  | fetched (refreshedConfig : Record)
  /-- The configuration is replaced, and some of the views have yet to start over. -/
  | restarting (views : List SectionName)

structure Edit where
  name : SectionName
  value : Json
  /-- Whether something else than a later edit took its place. -/
  wiped : Bool := false

structure Shell (σ : Type) where
  server : σ
  appConfig : Record
  settingsConfig : Record := []
  /-- Whether the settings form edits them. It edits an object of its own once the view holds others. -/
  formAttached : Bool := true
  /-- The trackers of the views that were started. -/
  trackers : SectionName → Option DirtyTracker
  phase : SavePhase := .idle
  edits : List Edit := []

inductive ShellAction where
  | editPublishers (value : Json)
  | editConsumers (value : Json)
  | editSettings (value : Record)
  | save
  | arrive
  | fetch
  | fetchFails
  | replace
  | restartView
  | finish

section
variable {σ : Type}

def Shell.value (shell : Shell σ) : SectionName → Json
  | .publishers => (shell.appConfig.lookup ("publishers" : Text)).getD (.arr [])
  | .consumers => (shell.appConfig.lookup ("consumers" : Text)).getD (.arr [])
  | .config => .obj shell.settingsConfig

def Shell.dirty (shell : Shell σ) (name : SectionName) : Bool :=
  (shell.trackers name).any fun tracker => isDirty tracker (shell.value name)

/-- An edit takes the last one of its section further, unless that is gone. -/
def noteEdit (edits : List Edit) (name : SectionName) (value : Json) : List Edit :=
  edits.filter (fun edit => edit.name != name || edit.wiped) ++ [⟨name, value, false⟩]

def wipe (edits : List Edit) : List Edit := edits.map fun edit => { edit with wiped := true }

def Shell.started (shell : Shell σ) : List SectionName :=
  [SectionName.publishers, .consumers, .config].filter fun name => (shell.trackers name).isSome

def markSectionSaved (shell : Shell σ) (name : SectionName) (savedValue : Json) : Shell σ :=
  { shell with
    trackers := fun other =>
      if other = name then
        (shell.trackers name).map fun _ => { baseline := serializeSectionState (cloneSectionState savedValue) }
      else shell.trackers other }

variable (server : Server σ) (views : Views)

def restartView (shell : Shell σ) : SectionName → Shell σ
  | .publishers => { shell with appConfig := views.initPublishers shell.appConfig }
  | .consumers => { shell with appConfig := views.initConsumers shell.appConfig }
  | .config => { shell with settingsConfig := extractSettingsConfig shell.appConfig, formAttached := true }

/-- Takes the sections for saved as they are now. -/
def markSectionsSaved (shell : Shell σ) : Shell σ :=
  let shell := markSectionSaved shell .publishers (sectionOf shell.appConfig .publishers)
  let shell := markSectionSaved shell .consumers (sectionOf shell.appConfig .consumers)
  markSectionSaved shell .config (sectionOf shell.appConfig .config)

def Shell.step (shell : Shell σ) (action : ShellAction) : Option (Shell σ) :=
  match action, shell.phase with
  | .editPublishers value, _ =>
    some { shell with
      appConfig := shell.appConfig.assign "publishers" value
      edits := noteEdit shell.edits .publishers value }
  | .editConsumers value, _ =>
    some { shell with
      appConfig := shell.appConfig.assign "consumers" value
      edits := noteEdit shell.edits .consumers value }
  | .editSettings value, _ =>
    if (shell.trackers .config).isNone then none
    else if shell.formAttached then
      some { shell with settingsConfig := value, edits := noteEdit shell.edits .config (.obj value) }
    else some { shell with edits := shell.edits ++ [{ name := .config, value := .obj value, wiped := true }] }
  | .save, .idle =>
    -- the hook of the settings view writes its settings to the configuration before
    let appConfig :=
      if (shell.trackers .config).isSome then mergeSettingsConfig shell.appConfig shell.settingsConfig
      else shell.appConfig
    some { shell with appConfig, phase := .posting appConfig, edits := [] }
  | .arrive, .posting body =>
    let posted := server.post shell.server body
    some { shell with server := posted.1, phase := if posted.2 then .accepted else .idle }
  | .fetch, .accepted => some { shell with phase := .fetched (server.get shell.server) }
  | .fetchFails, .accepted => some { shell with phase := .idle }
  | .replace, .fetched refreshedConfig =>
    let shell := { shell with
      appConfig := refreshedConfig, phase := .restarting shell.started, edits := wipe shell.edits }
    -- the settings view holds what was saved then, and its form still edits what it held before
    if (shell.trackers .config).isSome then
      some { shell with settingsConfig := extractSettingsConfig refreshedConfig, formAttached := false }
    else some shell
  | .restartView, .restarting (name :: rest) =>
    some { restartView views shell name with phase := .restarting rest }
  | .finish, .restarting [] => some { markSectionsSaved shell with phase := .idle }
  | _, _ => none

def Shell.stored (shell : Shell σ) (name : SectionName) : Json := sectionOf (server.get shell.server) name

/-- Each edit made since the body was serialised is in the section, which is dirty, or on the server. -/
def Shell.NoEditLost (shell : Shell σ) : Prop :=
  ∀ edit ∈ shell.edits,
    (edit.wiped = false ∧ shell.value edit.name = edit.value ∧ shell.dirty edit.name = true) ∨
      shell.stored server edit.name = edit.value

/-- The server once the save under way is stored, if there is one and the body is accepted. -/
def Shell.saving (shell : Shell σ) : Option σ :=
  match shell.phase with
  | .idle => none
  | .posting body => if (server.post shell.server body).2 then some (server.post shell.server body).1 else none
  | _ => some shell.server

/-- The settings are changed after their form was made anew. -/
def Shell.ChangesNewForm (shell : Shell σ) (value : Record) : Prop :=
  shell.phase = .restarting [] ∧ shell.formAttached = true ∧
    serializeSectionState (.obj value) ≠ serializeSectionState (.obj (extractSettingsConfig shell.appConfig))

/-- During a save a section is only given the value that the server stores for it, except that the settings are
given another one after their form was made anew. -/
def Harmless (shell : Shell σ) : ShellAction → Prop
  | .editPublishers value => ∀ saved ∈ shell.saving server, sectionOf (server.get saved) .publishers = value
  | .editConsumers value => ∀ saved ∈ shell.saving server, sectionOf (server.get saved) .consumers = value
  | .editSettings value =>
    (∀ saved ∈ shell.saving server, sectionOf (server.get saved) .config = .obj value) ∨ shell.ChangesNewForm value
  | _ => True

end

section
variable {σ : Type} {server : Server σ} {views : Views} {shell next after : Shell σ}

theorem markSectionsSaved_trackers (name : SectionName) :
    (markSectionsSaved shell).trackers name =
      (shell.trackers name).map fun _ => { baseline := serializeSectionState (sectionOf shell.appConfig name) } := by
  unfold markSectionsSaved
  cases name <;> simp [markSectionSaved]

theorem finish_cases (finished : shell.step server views .finish = some after) :
    shell.phase = .restarting [] ∧ after = { markSectionsSaved shell with phase := .idle } := by
  unfold Shell.step at finished
  split at finished <;> simp_all

/-- When a save completes, a section is dirty only if its view holds another value than the
configuration, and only the settings do. -/
theorem finish_dirty (finished : shell.step server views .finish = some after) (name : SectionName) :
    after.dirty name = true ↔
      name = .config ∧ (shell.trackers .config).isSome ∧
        serializeSectionState (.obj shell.settingsConfig) ≠
          serializeSectionState (.obj (extractSettingsConfig shell.appConfig)) := by
  obtain ⟨-, rfl⟩ := finish_cases finished
  show ((markSectionsSaved shell).trackers name).any _ = true ↔ _
  rw [markSectionsSaved_trackers]
  cases tracked : shell.trackers name with
  | none => cases name <;> simp [tracked]
  | some tracker =>
    cases name with
    | publishers => simp [isDirty, Shell.value, sectionOf, markSectionsSaved, markSectionSaved]
    | consumers => simp [isDirty, Shell.value, sectionOf, markSectionsSaved, markSectionSaved]
    | config => simp [isDirty, Shell.value, sectionOf, markSectionsSaved, markSectionSaved, tracked]

theorem rejected_save_keeps {body : Record} (posting : shell.phase = .posting body)
    (rejected : (server.post shell.server body).2 = false) :
    shell.step server views .arrive = some { shell with server := (server.post shell.server body).1, phase := .idle } := by
  unfold Shell.step
  simp only [posting, rejected]
  rfl

/-! ### Edits during a save -/

/-- The edit is what the server stores, or it is what a settings form that was made anew holds. -/
def Shell.Safe (server : Server σ) (shell : Shell σ) (edit : Edit) : Prop :=
  (∀ saved ∈ shell.saving server, sectionOf (server.get saved) edit.name = edit.value) ∨
    (shell.phase = .restarting [] ∧ edit.name = .config ∧ edit.wiped = false ∧ (shell.trackers .config).isSome ∧
      .obj shell.settingsConfig = edit.value ∧
        serializeSectionState (.obj shell.settingsConfig) ≠
          serializeSectionState (.obj (extractSettingsConfig shell.appConfig)))

def Shell.EditsSafe (server : Server σ) (shell : Shell σ) : Prop := ∀ edit ∈ shell.edits, shell.Safe server edit

theorem Shell.Safe.stored {edit : Edit} (safe : shell.Safe server edit) (early : shell.phase ≠ .restarting []) :
    ∀ saved ∈ shell.saving server, sectionOf (server.get saved) edit.name = edit.value :=
  safe.resolve_right fun form => early form.1

theorem mem_noteEdit {edits : List Edit} {name : SectionName} {value : Json} {edit : Edit}
    (member : edit ∈ noteEdit edits name value) :
    (edit ∈ edits ∧ (edit.name ≠ name ∨ edit.wiped = true)) ∨ edit = ⟨name, value, false⟩ := by
  rcases List.mem_append.mp member with old | new
  · obtain ⟨inside, kept⟩ := List.mem_filter.mp old
    exact .inl ⟨inside, by simpa using kept⟩
  · exact .inr (List.mem_singleton.mp new)

theorem Shell.EditsSafe.list {name : SectionName} {key : Text} {value : Json} (safe : shell.EditsSafe server)
    (list : key = "publishers" ∨ key = "consumers")
    (stores : ∀ saved ∈ shell.saving server, sectionOf (server.get saved) name = value) :
    Shell.EditsSafe server { shell with
      appConfig := shell.appConfig.assign key value, edits := noteEdit shell.edits name value } := by
  intro edit member
  rcases mem_noteEdit member with ⟨old, -⟩ | rfl
  · rcases safe edit old with stored | ⟨phase, settings, live, started, held, differs⟩
    · exact .inl stored
    · refine .inr ⟨phase, settings, live, started, held, ?_⟩
      dsimp only
      rw [extract_assign list]
      exact differs
  · exact .inl stores

theorem Shell.EditsSafe.settings {value : Record} (safe : shell.EditsSafe server) (started : (shell.trackers .config).isSome)
    (harmless : Harmless server shell (.editSettings value)) :
    Shell.EditsSafe server { shell with settingsConfig := value, edits := noteEdit shell.edits .config (.obj value) } := by
  intro edit member
  rcases mem_noteEdit member with ⟨old, other⟩ | rfl
  · rcases safe edit old with stored | ⟨-, settings, live, -⟩
    · exact .inl stored
    · rcases other with another | wiped
      · exact absurd settings another
      · exact absurd (live.symm.trans wiped) (by decide)
  · rcases harmless with stored | ⟨phase, -, differs⟩
    · exact .inl stored
    · exact .inr ⟨phase, rfl, rfl, started, rfl, differs⟩

theorem Shell.EditsSafe.moves (safe : shell.EditsSafe server) (early : shell.phase ≠ .restarting [])
    (edits : ∀ edit ∈ next.edits, ∃ old ∈ shell.edits, old.name = edit.name ∧ old.value = edit.value)
    (saving : ∀ saved ∈ next.saving server, saved ∈ shell.saving server) : next.EditsSafe server := by
  intro edit member
  obtain ⟨old, inside, name, value⟩ := edits edit member
  have stored := (safe old inside).stored early
  rw [name, value] at stored
  exact .inl fun saved there => stored saved (saving saved there)

theorem Shell.EditsSafe.step {action : ShellAction} (safe : shell.EditsSafe server)
    (harmless : Harmless server shell action) (stepped : shell.step server views action = some next) :
    next.EditsSafe server := by
  have unchanged : ∀ edit ∈ shell.edits, ∃ old ∈ shell.edits, old.name = edit.name ∧ old.value = edit.value :=
    fun edit member => ⟨edit, member, rfl, rfl⟩
  unfold Shell.step at stepped
  split at stepped
  · obtain rfl := Option.some.inj stepped
    exact safe.list (.inl rfl) harmless
  · obtain rfl := Option.some.inj stepped
    exact safe.list (.inr rfl) harmless
  · split at stepped
    · cases stepped
    · next started =>
      split at stepped
      · obtain rfl := Option.some.inj stepped
        exact safe.settings (by simpa [Option.isSome_iff_ne_none] using started) harmless
      · next detached =>
        obtain rfl := Option.some.inj stepped
        intro edit member
        rcases List.mem_append.mp member with old | new
        · exact safe edit old
        · obtain rfl := List.mem_singleton.mp new
          exact .inl (harmless.resolve_right fun form => detached form.2.1)
  · obtain rfl := Option.some.inj stepped
    exact fun edit member => absurd member List.not_mem_nil
  · next body posting =>
    obtain rfl := Option.some.inj stepped
    refine safe.moves (by rw [posting]; exact SavePhase.noConfusion) unchanged ?_
    intro saved there
    unfold Shell.saving at there ⊢
    rw [posting]
    cases accepted : (server.post shell.server body).2 <;> simp_all
  · next accepted =>
    obtain rfl := Option.some.inj stepped
    refine safe.moves (by rw [accepted]; exact SavePhase.noConfusion) unchanged fun saved there => ?_
    unfold Shell.saving
    rw [accepted]
    exact there
  · obtain rfl := Option.some.inj stepped
    exact fun edit member => .inl fun saved there => absurd there (Option.not_mem_none saved)
  · next refreshedConfig fetched =>
    have moved : ∀ {next : Shell σ}, next.server = shell.server → next.phase = .restarting shell.started →
        next.edits = wipe shell.edits → next.EditsSafe server := by
      intro next same phase edits
      refine safe.moves (by rw [fetched]; exact SavePhase.noConfusion) ?_ fun saved there => ?_
      · intro edit member
        rw [edits] at member
        obtain ⟨old, inside, rfl⟩ := List.mem_map.mp member
        exact ⟨old, inside, rfl, rfl⟩
      · unfold Shell.saving at there ⊢
        rw [phase, same] at there
        rw [fetched]
        exact there
    dsimp only at stepped
    split at stepped
    · obtain rfl := Option.some.inj stepped
      exact moved rfl rfl rfl
    · obtain rfl := Option.some.inj stepped
      exact moved rfl rfl rfl
  · next name rest restarting =>
    obtain rfl := Option.some.inj stepped
    refine safe.moves (by rw [restarting]; intro same; cases same) ?_ fun saved there => ?_
    · cases name <;> exact unchanged
    · unfold Shell.saving at there ⊢
      rw [restarting]
      cases name <;> exact there
  · obtain rfl := Option.some.inj stepped
    exact fun edit member => .inl fun saved there => absurd there (Option.not_mem_none saved)
  · cases stepped

end

/-! ### A payload edited while the answer is on its way -/

def plainViews : Views where
  initPublishers := id
  initConsumers := id

def openServer : Server UiApp := appServer openCrates openServices

def openShell : Shell UiApp where
  server := savedApp
  appConfig := loadedSession.appConfig
  settingsConfig := extractSettingsConfig loadedSession.appConfig
  trackers name := some { baseline := serializeSectionState (sectionOf loadedSession.appConfig name) }

def postedConfig : Record := mergeSettingsConfig openShell.appConfig openShell.settingsConfig

def savedServer : UiApp := (postConfig openCrates openServices savedApp postedConfig).1

theorem postedConfig_accepted : (postConfig openCrates openServices savedApp postedConfig).2 = true := by decide +kernel

theorem arrive_posted {shell : Shell UiApp} (server : shell.server = savedApp)
    (posting : shell.phase = .posting postedConfig) :
    shell.step openServer plainViews .arrive = some { shell with server := savedServer, phase := .accepted } := by
  unfold Shell.step
  simp only [posting, server]
  show some _ = _
  rw [show (openServer.post savedApp postedConfig).2 = true from postedConfig_accepted]
  rfl

def openedAgain : List ShellAction := [.fetch, .replace, .restartView, .restartView, .restartView]

def reopened (edits : List Edit) : Shell UiApp :=
  { openShell with
    server := savedServer
    appConfig := getConfig savedServer
    settingsConfig := extractSettingsConfig (getConfig savedServer)
    phase := .restarting []
    edits := wipe edits }

theorem reopened_of (appConfig : Record) (edits : List Edit) : Steps.play (Shell.step openServer plainViews)
    { openShell with server := savedServer, appConfig, phase := .accepted, edits } openedAgain =
      some (reopened edits) := rfl

def chosenSettings : Record := [("log_level", .str "debug")]

def settingsDuringSave : List ShellAction := .save :: .arrive :: openedAgain ++ [.editSettings chosenSettings]

theorem settingsDuringSave_harmless :
    Steps.Careful (Shell.step openServer plainViews) (Harmless openServer) openShell settingsDuringSave := by
  refine (Steps.careful_cons (rfl : openShell.step openServer plainViews .save = some _)).mpr ⟨trivial, ?_⟩
  refine (Steps.careful_cons (arrive_posted rfl rfl)).mpr ⟨trivial, ?_⟩
  refine ⟨trivial, trivial, trivial, trivial, trivial, .inr ⟨rfl, rfl, ?_⟩, trivial⟩
  decide +kernel

def editedDuringSave : List ShellAction := .save :: .arrive :: .editPublishers draftedPublishers :: openedAgain

end MqBridge.Workspace
