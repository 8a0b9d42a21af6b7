import MqBridgeApp.Ui.Interleaving
import MqBridgeApp.Ui.PublisherLookup

/-!
# Recovering an unreadable configuration

The desktop application starts with a temporary configuration when the saved one cannot be decrypted. A
reset renames the unreadable file to a backup and saves over its path; an update only saves.
-/

namespace MqBridge.Ui
open Text Config

structure ConfigRecoveryStatusResponse where
  mode : Option Text
  reason : Text
  message : Text
  detail : Option Text

/-- The content of the configuration file, and of every other file by its path. -/
structure Files where
  config : Option Text
  others : Text → Option Text

structure DesktopServices extends Services where
  /-- The error of a rename that fails although the file is there. -/
  rename : Text → Text → Except Text Unit
  /-- The files after a message has gone through an endpoint. -/
  transfer : Endpoint → Files → Files

/-- The directory a path is in, with the separator, and the file's name. -/
def splitFileName (path : Text) : Text × Text :=
  match rsplitOnce '/' path with
  | some (directory, name) => (directory ++ "/", name)
  | none => ([], path)

def backupPathForRecovery (configPath : Text) (timestamp : Nat) : Text :=
  let (directory, name) := splitFileName configPath
  let fileName := if name.isEmpty then ("config.yml" : Text) else name
  directory ++ fileName ++ ".recovery-" ++ ofNat timestamp ++ ".bak"

section
variable (services : DesktopServices)

def setFile (others : Text → Option Text) (path : Text) (content : Option Text) : Text → Option Text :=
  fun other => if other = path then content else others other

def backUp (backupPath : Text) (files : Files) : Files × Except Text Unit :=
  let failed : Text := "Failed to back up broken config '" ++ services.configFilePath ++ "' to '" ++ backupPath ++ "'"
  match files.config with
  | none => (files, .error failed)
  | some _ =>
    match services.rename services.configFilePath backupPath with
    | .error _ => (files, .error failed)
    | .ok () => ({ config := none, others := setFile files.others backupPath files.config }, .ok ())

def saveReset (config : AppConfig) (files : Files) : Files × Except Text Unit :=
  match config.saveWithSecretStore services.storage services.configFilePath files.config with
  | (file, .ok ()) => ({ files with config := file }, .ok ())
  | (file, .error _) => ({ files with config := file }, .error "Failed to write reset desktop config")

/-- Backs the file up when there is one, and saves; the path of the backup is returned. -/
def resetDesktopConfigWithBackup (config : AppConfig) (timestamp : Nat) (files : Files) : Files × Except Text Text :=
  let backupPath := backupPathForRecovery services.configFilePath timestamp
  let (files, backedUp) := if files.config.isSome then backUp services backupPath files else (files, .ok ())
  match backedUp with
  | .error error => (files, .error error)
  | .ok () =>
    match saveReset services config files with
    | (files, .ok ()) => (files, .ok backupPath)
    | (files, .error error) => (files, .error error)

/-! ### The steps of concurrent calls -/

/-- A call between two of its steps. A reset's backup is named by the second it began. -/
inductive DesktopCall where
  | ui (call : InFlight)
  | publish (endpoint : Endpoint)
  | resetChecked
  | resetRead (config : AppConfig)
  | resetFound (config : AppConfig) (timestamp : Nat)
  | resetBackedUp (config : AppConfig) (timestamp : Nat)
  | resetSaved (timestamp : Nat)

structure Desktop where
  configFilePath : Text
  app : UiApp
  others : Text → Option Text
  recovery : Option ConfigRecoveryStatusResponse
  clock : Nat
  calls : List DesktopCall

inductive DesktopRequest where
  | ui (request : Request)
  | publish (request : PublishRequest)
  | resetConfigRecovery

inductive DesktopAction where
  | enter (services : DesktopServices) (request : DesktopRequest)
  | resume (services : DesktopServices) (index : Nat)
  | ended (key : Text)
  | forward (services : DesktopServices) (key : Text)
  | clock (timestamp : Nat)

def Desktop.files (desktop : Desktop) : Files := ⟨desktop.app.file, desktop.others⟩

def Desktop.setFiles (desktop : Desktop) (files : Files) : Desktop :=
  { desktop with app := { desktop.app with file := files.config }, others := files.others }

/-- The first step of a call. A call that is refused or finds nothing returns without one. -/
def Desktop.enter (desktop : Desktop) : DesktopRequest → Option DesktopCall
  | .ui request => (desktop.app.enter services.toServices request).map .ui
  | .publish request => (publishEndpoint desktop.app.config.publishers request).map .publish
  | .resetConfigRecovery => desktop.recovery.map fun _ => .resetChecked

/-- The next step of a call, and where the call stands after it. -/
def Desktop.resume (desktop : Desktop) : DesktopCall → Option (Desktop × Option DesktopCall)
  | .ui (.updateStopped plan) =>
    match commitUpdate services.toServices plan desktop.app.file with
    | (file, .ok ()) => some (desktop.setFiles ⟨file, desktop.others⟩, some (.ui (.updateSaved plan)))
    | (file, .error _) => some (desktop.setFiles ⟨file, desktop.others⟩, none)
  | .ui call =>
    (desktop.app.resume services.toServices call).map fun moved => ({ desktop with app := moved.1 }, moved.2.map .ui)
  | .publish endpoint => some (desktop.setFiles (services.transfer endpoint desktop.files), none)
  | .resetChecked => some (desktop, some (.resetRead desktop.app.config.migrateLegacySecurityMode))
  | .resetRead config =>
    some (desktop, some (if desktop.app.file.isSome then .resetFound config desktop.clock
      else .resetBackedUp config desktop.clock))
  | .resetFound config timestamp =>
    match backUp services (backupPathForRecovery services.configFilePath timestamp) desktop.files with
    | (files, .ok ()) => some (desktop.setFiles files, some (.resetBackedUp config timestamp))
    | (files, .error _) => some (desktop.setFiles files, none)
  | .resetBackedUp config timestamp =>
    match saveReset services config desktop.files with
    | (files, .ok ()) => some (desktop.setFiles files, some (.resetSaved timestamp))
    | (files, .error _) => some (desktop.setFiles files, none)
  | .resetSaved _ => some ({ desktop with recovery := none }, none)

/-- What a step relies on outside, with the application's own file. -/
def Desktop.own (desktop : Desktop) : DesktopServices := { services with configFilePath := desktop.configFilePath }

end

def Desktop.act (desktop : Desktop) : DesktopAction → Option Desktop
  | .enter services request =>
    (desktop.enter (desktop.own services) request).map fun call => { desktop with calls := call :: desktop.calls }
  | .resume services index => do
    let call ← desktop.calls[index]?
    let (after, next) ← desktop.resume (desktop.own services) call
    some { after with calls := desktop.calls.take index ++ (next.toList ++ desktop.calls.drop (index + 1)) }
  | .ended key => some { desktop with app := endRoute desktop.app key }
  | .forward services key =>
    (desktop.app.handles.lookup key).map fun handle =>
      desktop.setFiles (services.transfer handle.route.output (services.transfer handle.route.input desktop.files))
  | .clock timestamp => some { desktop with clock := timestamp }

/-- A reset that nothing comes between leaves the files as the function does. -/
theorem reset_alone (services : DesktopServices) {desktop : Desktop} {status : ConfigRecoveryStatusResponse} {files : Files}
    {backupPath : Text} (pending : desktop.recovery = some status) (quiet : desktop.calls = [])
    (here : desktop.app.file.isSome = true)
    (reset : resetDesktopConfigWithBackup (desktop.own services) desktop.app.config.migrateLegacySecurityMode
      desktop.clock desktop.files = (files, .ok backupPath)) :
    Steps.play Desktop.act desktop
        (.enter services .resetConfigRecovery :: List.replicate 5 (.resume services 0)) =
      some { desktop.setFiles files with recovery := none } := by
  obtain ⟨path, app, others, recovery, clock, calls⟩ := desktop
  obtain rfl : recovery = some status := pending
  obtain rfl : calls = [] := quiet
  have exists_ : app.file.isSome = true := here
  unfold resetDesktopConfigWithBackup at reset
  simp only [Desktop.own, Desktop.files, exists_, if_true] at reset
  cases backedUp : backUp { services with configFilePath := path } (backupPathForRecovery path clock)
      ⟨app.file, others⟩ with
  | mk moved result =>
    cases result with
    | error error => simp [backedUp] at reset
    | ok _ =>
      simp only [backedUp] at reset
      cases saved : saveReset { services with configFilePath := path } app.config.migrateLegacySecurityMode moved with
      | mk written result =>
        cases result with
        | error error => simp [saved] at reset
        | ok _ =>
          simp only [saved, Prod.mk.injEq] at reset
          obtain ⟨rfl, -⟩ := reset
          simp [Steps.play, Desktop.act, Desktop.own, Desktop.enter, Desktop.resume, Desktop.setFiles, Desktop.files,
            List.replicate, exists_, backedUp, saved]

section
variable (original : Text)

def Desktop.Backed (desktop : Desktop) : Prop :=
  ∃ timestamp, desktop.others (backupPathForRecovery desktop.configFilePath timestamp) = some original

def Desktop.Kept (desktop : Desktop) : Prop := desktop.app.file = some original ∨ desktop.Backed original

variable (services : DesktopServices)

/-- Messages through an endpoint leave the files that hold the original alone. -/
def LeavesCopies (endpoint : Endpoint) : Prop :=
  ∀ files : Files, (files.config = some original → (services.transfer endpoint files).config = some original) ∧
    ∀ path, files.others path = some original → (services.transfer endpoint files).others path = some original

def FailsBeforeWrite (plan : UpdatePlan) : Prop :=
  (∃ error, forEach (registerConsumer services.toServices plan.config.publishers) plan.consumers = .error error) ∨
    ∃ error, plan.final.fileText services.storage services.configFilePath = .error error

/-- What a step must find so as not to destroy the original: an update finds it backed up, and a reset
does not put another file in the place of the only copy. -/
def DesktopCall.Meets (desktop : Desktop) : DesktopCall → Prop
  | .ui (.updateStopped plan) => desktop.Backed original ∨ FailsBeforeWrite services plan
  | .publish endpoint => LeavesCopies original services endpoint
  | .resetFound _ timestamp =>
    let backupPath := backupPathForRecovery desktop.configFilePath timestamp
    desktop.others backupPath = some original → desktop.app.file = some original ∨ desktop.app.file = none ∨
      ∃ other, backupPathForRecovery desktop.configFilePath other ≠ backupPath ∧
        desktop.others (backupPathForRecovery desktop.configFilePath other) = some original
  | _ => True

def DesktopAction.Meets (desktop : Desktop) : DesktopAction → Prop
  | .resume services index => ∀ call, desktop.calls[index]? = some call → call.Meets original (desktop.own services) desktop
  | .forward services key => ∀ handle, desktop.app.handles.lookup key = some handle →
    LeavesCopies original services handle.route.input ∧ LeavesCopies original services handle.route.output
  | _ => True

/-- The original is kept, and backed up before a reset saves. -/
structure Desktop.Secured (desktop : Desktop) : Prop where
  kept : desktop.Kept original
  backedUp : ∀ config timestamp, .resetBackedUp config timestamp ∈ desktop.calls → desktop.Backed original

/-! ### One step -/

variable {services} {original} {desktop after : Desktop}

theorem Desktop.Kept.backed (kept : desktop.Kept original) (other : desktop.app.file ≠ some original) :
    desktop.Backed original := kept.resolve_left other

theorem commitUpdate_fails {plan : UpdatePlan} {file : Option Text} (fails : FailsBeforeWrite services plan) :
    (commitUpdate services.toServices plan file).1 = file := by
  unfold commitUpdate
  rcases fails with ⟨error, failed⟩ | ⟨error, failed⟩
  · rw [failed]
  · split
    · rfl
    · unfold AppConfig.saveWithSecretStore
      rw [failed]

theorem resume_file {app moved : UiApp} {call : InFlight} {next : Option InFlight}
    (resumed : app.resume services.toServices call = some (moved, next)) (other : ∀ plan, call ≠ .updateStopped plan) :
    moved.file = app.file := by
  cases call with
  | updateStopped plan => exact absurd rfl (other plan)
  | updatePlanned plan | updateRead plan _ | updateSaved plan | updateSecured plan | startRead consumer publishers
  | stopRead key =>
    obtain ⟨rfl, -⟩ := Prod.mk.inj (Option.some.inj resumed)
    rfl

/-- What a backup leaves: the file in its place, and every other one where it was. -/
theorem backUp_cases {files moved : Files} {backupPath : Text} {result : Except Text Unit}
    (backedUp : backUp services backupPath files = (moved, result)) :
    (moved = files ∧ ∃ error, result = .error error) ∨ result = .ok () ∧ files.config.isSome = true ∧
      moved = ⟨none, setFile files.others backupPath files.config⟩ := by
  unfold backUp at backedUp
  dsimp only at backedUp
  split at backedUp
  · obtain ⟨rfl, rfl⟩ := Prod.mk.inj backedUp
    exact .inl ⟨rfl, _, rfl⟩
  · next content here =>
    split at backedUp
    · obtain ⟨rfl, rfl⟩ := Prod.mk.inj backedUp
      exact .inl ⟨rfl, _, rfl⟩
    · obtain ⟨rfl, rfl⟩ := Prod.mk.inj backedUp
      exact .inr ⟨rfl, by rw [here]; rfl, rfl⟩

theorem LeavesCopies.kept {endpoint : Endpoint} (leaves : LeavesCopies original services endpoint)
    (kept : desktop.Kept original) :
    (desktop.setFiles (services.transfer endpoint desktop.files)).Kept original := by
  rcases kept with file | ⟨timestamp, backup⟩
  · exact .inl ((leaves desktop.files).1 file)
  · exact .inr ⟨timestamp, (leaves desktop.files).2 _ backup⟩

theorem LeavesCopies.backed {endpoint : Endpoint} (leaves : LeavesCopies original services endpoint)
    (backed : desktop.Backed original) :
    (desktop.setFiles (services.transfer endpoint desktop.files)).Backed original := by
  obtain ⟨timestamp, backup⟩ := backed
  exact ⟨timestamp, (leaves desktop.files).2 _ backup⟩

/-- Renaming the file over a backup backs the original up, when it is kept and not in that backup alone. -/
theorem backed_of_rename {timestamp : Nat} {config : AppConfig} (kept : desktop.Kept original)
    (present : desktop.app.file.isSome = true)
    (meets : (DesktopCall.resetFound config timestamp).Meets original services desktop) :
    ∃ other, setFile desktop.others (backupPathForRecovery desktop.configFilePath timestamp) desktop.app.file
      (backupPathForRecovery desktop.configFilePath other) = some original := by
  by_cases file : desktop.app.file = some original
  · exact ⟨timestamp, by rw [setFile, if_pos rfl, file]⟩
  · obtain ⟨other, backup⟩ := kept.backed file
    by_cases same : backupPathForRecovery desktop.configFilePath other =
        backupPathForRecovery desktop.configFilePath timestamp
    · rw [same] at backup
      rcases meets backup with here | gone | ⟨another, apart, there⟩
      · exact absurd here file
      · rw [gone] at present
        cases present
      · exact ⟨another, by rw [setFile, if_neg apart, there]⟩
    · exact ⟨other, by rw [setFile, if_neg same, backup]⟩

theorem resume_secured {call : DesktopCall} {next : Option DesktopCall}
    (own : services.configFilePath = desktop.configFilePath) (secured : desktop.Secured original)
    (member : call ∈ desktop.calls) (meets : call.Meets original services desktop)
    (resumed : desktop.resume services call = some (after, next)) :
    after.Kept original ∧ (desktop.Backed original → after.Backed original) ∧
      ∀ config timestamp, next = some (.resetBackedUp config timestamp) → after.Backed original := by
  cases call with
  | ui call =>
    by_cases stopped : ∃ plan, call = .updateStopped plan
    · obtain ⟨plan, rfl⟩ := stopped
      have kept : ∀ file, (commitUpdate services.toServices plan desktop.app.file).1 = file →
          (desktop.setFiles ⟨file, desktop.others⟩).Kept original := by
        rintro file rfl
        rcases meets with backed | fails
        · exact .inr backed
        · rw [commitUpdate_fails fails]
          exact secured.kept
      simp only [Desktop.resume] at resumed
      split at resumed
      · next file committed =>
        obtain ⟨rfl, rfl⟩ := Prod.mk.inj (Option.some.inj resumed)
        exact ⟨kept file (by rw [committed]), fun backed => backed, nofun⟩
      · next file error committed =>
        obtain ⟨rfl, rfl⟩ := Prod.mk.inj (Option.some.inj resumed)
        exact ⟨kept file (by rw [committed]), fun backed => backed, nofun⟩
    · have other : ∀ plan, call ≠ .updateStopped plan := fun plan same => stopped ⟨plan, same⟩
      have moves : desktop.resume services (.ui call) = (desktop.app.resume services.toServices call).map
          fun moved => ({ desktop with app := moved.1 }, moved.2.map .ui) := by
        cases call <;> first | rfl | exact absurd rfl (other _)
      rw [moves] at resumed
      obtain ⟨moved, stepped, same⟩ := Option.map_eq_some_iff.mp resumed
      obtain ⟨rfl, rfl⟩ := Prod.mk.inj same
      have file := resume_file stepped other
      refine ⟨secured.kept.imp (fun here => file.trans here) fun backed => backed, fun backed => backed, ?_⟩
      intro config timestamp next
      obtain ⟨_, -, same⟩ := Option.map_eq_some_iff.mp next
      cases same
  | publish endpoint =>
    obtain ⟨rfl, rfl⟩ := Prod.mk.inj (Option.some.inj resumed)
    have leaves : LeavesCopies original services endpoint := meets
    exact ⟨leaves.kept secured.kept, leaves.backed, nofun⟩
  | resetChecked =>
    obtain ⟨rfl, rfl⟩ := Prod.mk.inj (Option.some.inj resumed)
    exact ⟨secured.kept, id, nofun⟩
  | resetRead config =>
    obtain ⟨rfl, rfl⟩ := Prod.mk.inj (Option.some.inj resumed)
    refine ⟨secured.kept, id, fun config' timestamp next => secured.kept.backed ?_⟩
    intro here
    rw [here] at next
    cases next
  | resetFound config timestamp =>
    unfold Desktop.resume at resumed
    dsimp only at resumed
    rw [own] at resumed
    cases backedUp : backUp services (backupPathForRecovery desktop.configFilePath timestamp) desktop.files with
    | mk files result =>
      rw [backedUp] at resumed
      rcases backUp_cases backedUp with ⟨rfl, error, rfl⟩ | ⟨rfl, present, rfl⟩
      · obtain ⟨rfl, rfl⟩ := Prod.mk.inj (Option.some.inj resumed)
        exact ⟨secured.kept, fun backed => backed, nofun⟩
      · obtain ⟨rfl, rfl⟩ := Prod.mk.inj (Option.some.inj resumed)
        have backed : Desktop.Backed original (desktop.setFiles ⟨none, setFile desktop.others
            (backupPathForRecovery desktop.configFilePath timestamp) desktop.app.file⟩) :=
          backed_of_rename secured.kept present meets
        exact ⟨.inr backed, fun _ => backed, fun _ _ _ => backed⟩
  | resetBackedUp config timestamp =>
    have backed := secured.backedUp config timestamp member
    simp only [Desktop.resume] at resumed
    have others : ∀ files result, saveReset services config desktop.files = (files, result) →
        files.others = desktop.others := by
      intro files result saved
      unfold saveReset at saved
      split at saved <;>
        · obtain ⟨rfl, -⟩ := Prod.mk.inj saved
          rfl
    have stays : ∀ files result, saveReset services config desktop.files = (files, result) →
        (desktop.setFiles files).Backed original := by
      intro files result saved
      obtain ⟨other, backup⟩ := backed
      exact ⟨other, (congrFun (others files result saved) _).trans backup⟩
    split at resumed
    · next files saved =>
      obtain ⟨rfl, rfl⟩ := Prod.mk.inj (Option.some.inj resumed)
      have there := stays files _ saved
      exact ⟨.inr there, fun _ => there, nofun⟩
    · next files error saved =>
      obtain ⟨rfl, rfl⟩ := Prod.mk.inj (Option.some.inj resumed)
      have there := stays files _ saved
      exact ⟨.inr there, fun _ => there, nofun⟩
  | resetSaved timestamp =>
    obtain ⟨rfl, rfl⟩ := Prod.mk.inj (Option.some.inj resumed)
    exact ⟨secured.kept, fun backed => backed, nofun⟩

theorem secured_enter {request : DesktopRequest} (secured : desktop.Secured original)
    (stepped : desktop.act (.enter services request) = some after) : after.Secured original := by
  obtain ⟨call, entered, rfl⟩ := Option.map_eq_some_iff.mp stepped
  refine ⟨secured.kept, fun config timestamp member => ?_⟩
  rcases List.mem_cons.mp member with rfl | old
  · cases request with
    | ui request =>
      obtain ⟨_, -, same⟩ := Option.map_eq_some_iff.mp entered
      cases same
    | publish request =>
      obtain ⟨_, -, same⟩ := Option.map_eq_some_iff.mp entered
      cases same
    | resetConfigRecovery =>
      obtain ⟨_, -, same⟩ := Option.map_eq_some_iff.mp entered
      cases same
  · exact secured.backedUp config timestamp old

theorem secured_resume {index : Nat} (secured : desktop.Secured original)
    (meets : (DesktopAction.resume services index).Meets original desktop)
    (stepped : desktop.act (.resume services index) = some after) : after.Secured original := by
  simp only [Desktop.act, Option.bind_eq_bind, Option.bind_eq_some_iff, Option.some.injEq] at stepped
  obtain ⟨call, here, ⟨moved, next⟩, resumed, rfl⟩ := stepped
  have path : (desktop.own services).configFilePath = desktop.configFilePath := rfl
  obtain ⟨kept, backed, new⟩ := resume_secured path secured (List.mem_of_getElem? here) (meets call here) resumed
  refine ⟨kept, fun config timestamp member => ?_⟩
  simp only [List.mem_append, Option.mem_toList] at member
  rcases member with before | same | later
  · exact backed (secured.backedUp config timestamp (List.mem_of_mem_take before))
  · exact new config timestamp same
  · exact backed (secured.backedUp config timestamp (List.mem_of_mem_drop later))

theorem secured_act {action : DesktopAction} (secured : desktop.Secured original)
    (meets : action.Meets original desktop) (stepped : desktop.act action = some after) :
    after.Secured original := by
  cases action with
  | enter services request => exact secured_enter secured stepped
  | resume services index => exact secured_resume secured meets stepped
  | ended key =>
    obtain rfl := Option.some.inj stepped
    exact ⟨secured.kept, secured.backedUp⟩
  | forward services key =>
    obtain ⟨handle, found, rfl⟩ := Option.map_eq_some_iff.mp stepped
    obtain ⟨input, output⟩ := meets handle found
    -- the message is received, then sent
    have kept := output.kept (input.kept secured.kept)
    exact ⟨kept, fun config timestamp member =>
      output.backed (input.backed (secured.backedUp config timestamp member))⟩
  | clock timestamp =>
    obtain rfl := Option.some.inj stepped
    exact ⟨secured.kept, secured.backedUp⟩

end

/-- From a pending recovery on, a careful run keeps the original in its place or in a backup. -/
theorem pending_kept (desktop : Desktop) (original : Text) (actions : List DesktopAction) (after : Desktop)
    (unreadable : desktop.app.file = some original) (quiet : desktop.calls = [])
    (careful : Steps.Careful Desktop.act (DesktopAction.Meets original) desktop actions)
    (played : Steps.play Desktop.act desktop actions = some after) : after.Kept original := by
  have secured : desktop.Secured original := by
    refine ⟨.inl unreadable, fun config timestamp member => ?_⟩
    rw [quiet] at member
    cases member
  exact (Steps.play_invariant secured_act secured careful played).kept

def desktopServices : DesktopServices where
  toServices := workingServices
  rename _ _ := .ok ()
  transfer _ files := files

def unreadableDesktop : Desktop where
  configFilePath := "config.yml"
  app := { config := { configSecurity := some { mode := .unencrypted } }, handles := [], file := some "sealed", storageSecurity := .null }
  others _ := none
  recovery := some { mode := some "sensitive", reason := "decrypt-failed", message := "", detail := none }
  clock := 1700000000
  calls := []

def updateWhilePending : List DesktopAction :=
  .enter desktopServices (.ui (.update {})) :: List.replicate 5 (.resume desktopServices 0)

def resetThenUpdate : List DesktopAction :=
  .enter desktopServices .resetConfigRecovery :: List.replicate 5 (.resume desktopServices 0) ++ updateWhilePending

theorem recovery_resume {original : Text} {services : DesktopServices} {desktop next : Desktop} {index : Nat}
    {call : DesktopCall} {rest : List DesktopAction} (here : desktop.calls[index]? = some call)
    (stepped : desktop.act (.resume services index) = some next) (meets : call.Meets original (desktop.own services) desktop)
    (careful : Steps.Careful Desktop.act (DesktopAction.Meets original) next rest) :
    Steps.Careful Desktop.act (DesktopAction.Meets original) desktop (.resume services index :: rest) := by
  refine (Steps.careful_cons stepped).mpr ⟨fun call' here' => ?_, careful⟩
  obtain rfl := Option.some.inj (here.symm.trans here')
  exact meets

theorem resetThenUpdate_careful :
    Steps.Careful Desktop.act (DesktopAction.Meets "sealed") unreadableDesktop resetThenUpdate := by
  refine (Steps.careful_cons rfl).mpr ⟨trivial, ?_⟩
  refine recovery_resume rfl rfl trivial (recovery_resume rfl rfl trivial ?_)
  refine recovery_resume rfl rfl (fun _ => .inl rfl) ?_
  refine recovery_resume rfl rfl trivial (recovery_resume rfl rfl trivial ?_)
  refine (Steps.careful_cons rfl).mpr ⟨trivial, ?_⟩
  refine recovery_resume rfl rfl trivial (recovery_resume rfl rfl trivial ?_)
  -- the reset has backed the file up
  refine recovery_resume rfl rfl (.inl ⟨1700000000, rfl⟩) ?_
  exact recovery_resume rfl rfl trivial (recovery_resume rfl rfl trivial trivial)

theorem pending_kept_reset : ∃ after, Steps.play Desktop.act unreadableDesktop resetThenUpdate = some after ∧
    after.Kept "sealed" :=
  ⟨_, rfl, pending_kept unreadableDesktop "sealed" resetThenUpdate _ rfl rfl resetThenUpdate_careful rfl⟩

def twoResets : List DesktopAction :=
  .enter desktopServices .resetConfigRecovery :: .enter desktopServices .resetConfigRecovery ::
    (List.replicate 5 (.resume desktopServices 0) ++ List.replicate 5 (.resume desktopServices 0))

theorem overwritten_ne {original backupPath : Text} {first last : Option Text} (other : last ≠ some original) (path : Text) :
    setFile (setFile (fun _ => none) backupPath first) backupPath last path ≠ some original := by
  unfold setFile
  split
  · exact other
  · simp

/-- Either destroys the original. -/
theorem pending_not_kept :
    (∃ after, Steps.play Desktop.act unreadableDesktop updateWhilePending = some after ∧ ¬ after.Kept "sealed") ∧
      ∃ after, Steps.play Desktop.act unreadableDesktop twoResets = some after ∧ ¬ after.Kept "sealed" := by
  refine ⟨⟨_, rfl, ?_⟩, ⟨_, rfl, ?_⟩⟩
  · rintro (file | ⟨timestamp, backup⟩)
    · exact absurd file (by decide +kernel)
    · cases backup
  · rintro (file | ⟨timestamp, backup⟩)
    · exact absurd file (by decide +kernel)
    · exact overwritten_ne (by decide +kernel) _ backup

end MqBridge.Ui
