import MqBridgeApp.Ui.App

/-!
# Failed updates

An update stops the routes it makes stale before it registers outputs and saves. When one of those
fails, the routes stay stopped.
-/

namespace MqBridge.Ui
open Text Config

def UiApp.running (app : UiApp) : List (Text × RouteHandle) := app.handles.filter fun handle => !handle.2.ended

def SameState (app after : UiApp) : Prop :=
  after.config = app.config ∧ after.running = app.running ∧ after.file = app.file

/-- Past its validation, the update makes no running route stale, and if only the file is left to
write, a failed write leaves it as it was. -/
def KeepsState (services : Services) (app : UiApp) (new : AppConfig) : Prop :=
  ∀ plan, planUpdate services new = .ok plan →
    (∀ handle ∈ app.running, shouldStop app.config.consumers plan.consumers handle.1 = false) ∧
    (forEach (registerConsumer services plan.config.publishers) plan.consumers = .ok () →
      services.storage.KeepsFileOnFailure services.configFilePath plan.final app.file)

theorem running_stopStale_iff {old new : List ConsumerConfig} {handles : List (Text × RouteHandle)} :
    ((stopStale old new handles).filter fun handle => !handle.2.ended) =
        handles.filter (fun handle => !handle.2.ended) ↔
      ∀ handle ∈ handles.filter (fun handle => !handle.2.ended), shouldStop old new handle.1 = false := by
  have swap : ((stopStale old new handles).filter fun handle => !handle.2.ended) =
      (handles.filter fun handle => !handle.2.ended).filter fun handle => !shouldStop old new handle.1 := by
    unfold stopStale
    rw [List.filter_comm]
  rw [swap, List.filter_eq_self]
  simp only [Bool.not_eq_true']

/-- What a failed commit left of the file. -/
theorem commit_error_file_iff {services : Services} {plan : UpdatePlan} {file after : Option Text}
    {error : UpdateConfigError} (failed : commitUpdate services plan file = (after, .error error)) :
    after = file ↔ (forEach (registerConsumer services plan.config.publishers) plan.consumers = .ok () →
      services.storage.KeepsFileOnFailure services.configFilePath plan.final file) := by
  unfold commitUpdate at failed
  cases registered : forEach (registerConsumer services plan.config.publishers) plan.consumers with
  | error reason =>
    simp only [registered, Prod.mk.injEq] at failed
    simp [failed.1]
  | ok _ =>
    simp only [registered] at failed
    split at failed
    · simp at failed
    · next left reason saved =>
      obtain rfl : left = after := (Prod.mk.inj failed).1
      rw [save_error_file_iff saved]
      exact ⟨fun keeps _ => keeps, fun keeps => keeps rfl⟩

/-- A failed update leaves the state as it was exactly when nothing it had done by then shows. -/
theorem updateConfig_error_iff (services : Services) (app after : UiApp) (new : AppConfig)
    (error : UpdateConfigError) (failed : updateConfig services app new = (after, .error error)) :
    SameState app after ↔ KeepsState services app new := by
  unfold updateConfig at failed
  cases planned : planUpdate services new with
  | error reason =>
    simp only [planned, Prod.mk.injEq] at failed
    obtain ⟨rfl, -⟩ := failed
    constructor
    · intro _ plan accepted
      rw [planned] at accepted
      cases accepted
    · exact fun _ => ⟨rfl, rfl, rfl⟩
  | ok plan =>
    simp only [planned] at failed
    split at failed
    · next left reason committed =>
      obtain ⟨rfl, -⟩ := Prod.mk.inj failed
      have fileKept := commit_error_file_iff committed
      constructor
      · rintro ⟨-, routes, file⟩ plan' accepted
        obtain rfl := Except.ok.inj (planned.symm.trans accepted)
        exact ⟨running_stopStale_iff.mp routes, fileKept.mp file⟩
      · intro keeps
        obtain ⟨routes, file⟩ := keeps plan planned
        exact ⟨rfl, running_stopStale_iff.mpr routes, fileKept.mpr file⟩
    · simp at failed

/-- Services on which everything works but the write, which finds the disk full. -/
def fullDisk : Services :=
  { workingServices with
    storage := { workingServices.storage with write := fun _ _ => .error ("No space left on device", some []) } }

def ordersConsumer : ConsumerConfig where
  id := "c1"
  name := "orders"
  endpoint := .new (.connector .memory (.record [("topic", .str "orders")]))

def ordersRunning : UiApp where
  config := { consumers := [ordersConsumer], configSecurity := some { mode := .unencrypted } }
  handles := [("c1", { route := ⟨ordersConsumer.endpoint, .new .null, {}⟩, ended := false })]
  file := some "consumers: [...]"
  storageSecurity := .null

def commented : AppConfig :=
  { ordersRunning.config with consumers := [{ ordersConsumer with comment := "reviewed" }] }

def fullDiskFailure : UiApp := { ordersRunning with handles := [], file := some [] }

theorem fullDisk_fails : updateConfig fullDisk ordersRunning commented =
    (fullDiskFailure, .error (.other "Failed to save configuration: No space left on device")) := by
  rfl

theorem updateConfig_error_iff_fullDisk :
    SameState ordersRunning fullDiskFailure ↔ KeepsState fullDisk ordersRunning commented :=
  updateConfig_error_iff fullDisk ordersRunning fullDiskFailure commented _ fullDisk_fails

theorem fullDisk_stops_the_route :
    updateConfig fullDisk ordersRunning commented =
        (fullDiskFailure, .error (.other "Failed to save configuration: No space left on device")) ∧
      ordersRunning.running ≠ [] ∧ fullDiskFailure.running = [] ∧ fullDiskFailure.file ≠ ordersRunning.file ∧
      ¬ SameState ordersRunning fullDiskFailure := by
  refine ⟨rfl, by simp [ordersRunning, UiApp.running], rfl, by decide, ?_⟩
  rintro ⟨-, routes, -⟩
  simp [ordersRunning, fullDiskFailure, UiApp.running] at routes

end MqBridge.Ui
