import MqBridgeApp.Lib.Text

/-!
# Dialogs

One dialog is shown at a time, and requests wait for their turn. A dialog that has been answered is hidden a little
later and then closes itself once more, which must not answer the next one.
-/

namespace MqBridge.Ui
open Text

inductive DialogResult where
  | confirmed (value : Bool)
  | text (value : Text)
  | none

/-- The dialogs of a page, with what each request was answered. -/
structure Dialogs (α : Type) where
  active : Option (Nat × α) := none
  pending : List (Nat × α) := []
  nextDialogId : Nat := 1
  answered : List (Nat × DialogResult) := []

inductive DialogAction (α : Type)
  | request (request : α)
  | close (result : DialogResult) (expectedDialogId : Option Nat)

section
variable {α : Type}

/-- The requests among `actions`, the first of which gets the id 1. -/
def requestsOf (actions : List (DialogAction α)) : List α :=
  actions.filterMap fun
    | .request request => some request
    | .close _ _ => none

namespace Dialogs
variable (dialogs : Dialogs α)

def showDialog (request : α) : Dialogs α :=
  let nextDialog := (dialogs.nextDialogId, request)
  let dialogs := { dialogs with nextDialogId := dialogs.nextDialogId + 1 }
  match dialogs.active with
  | some _ => { dialogs with pending := dialogs.pending ++ [nextDialog] }
  | none => { dialogs with active := some nextDialog }

def closeDialog (result : DialogResult) (expectedDialogId : Option Nat) : Dialogs α :=
  if expectedDialogId.any fun expected => dialogs.active.map Prod.fst != some expected then dialogs
  else
    { dialogs with
      answered := dialogs.answered ++ (dialogs.active.map fun state => (state.1, result)).toList
      active := dialogs.pending.head?
      pending := dialogs.pending.tail }

def act : DialogAction α → Dialogs α
  | .request request => dialogs.showDialog request
  | .close result expected => dialogs.closeDialog result expected

def run (actions : List (DialogAction α)) : Dialogs α := actions.foldl act dialogs

/-- The dialogs that are open, in the order that they are shown in. -/
def opened : List (Nat × α) := dialogs.active.toList ++ dialogs.pending

/-- The `requests` so far are answered or open, in the order that they came in, and one is shown if any is open. -/
structure Queued (requests : List α) : Prop where
  ids : dialogs.answered.map Prod.fst ++ dialogs.opened.map Prod.fst = List.range' 1 requests.length
  next : dialogs.nextDialogId = requests.length + 1
  asked : dialogs.opened.map Prod.snd = requests.drop dialogs.answered.length
  shown : dialogs.active = none → dialogs.pending = []

variable {dialogs} {requests : List α}

theorem opened_showDialog (shown : dialogs.active = none → dialogs.pending = []) (request : α) :
    (dialogs.showDialog request).opened = dialogs.opened ++ [(dialogs.nextDialogId, request)] := by
  unfold showDialog opened
  cases active : dialogs.active with
  | some state => simp
  | none => simp [shown active]

theorem showDialog_answered (request : α) : (dialogs.showDialog request).answered = dialogs.answered := by
  unfold showDialog
  dsimp only
  split <;> rfl

theorem showDialog_nextDialogId (request : α) :
    (dialogs.showDialog request).nextDialogId = dialogs.nextDialogId + 1 := by
  unfold showDialog
  dsimp only
  split <;> rfl

theorem showDialog_active (request : α) : (dialogs.showDialog request).active ≠ none := by
  intro none
  unfold showDialog at none
  cases active : dialogs.active with
  | some state => simp [active] at none
  | none => simp [active] at none

/-- A close that counts answers the dialog at the front, if there is one. -/
theorem closeDialog_cases (result : DialogResult) (expected : Option Nat) :
    dialogs.closeDialog result expected = dialogs ∨
      (∀ id, expected = some id → dialogs.active.map Prod.fst = some id) ∧
      (dialogs.closeDialog result expected).answered =
        dialogs.answered ++ (dialogs.active.map fun state => (state.1, result)).toList ∧
      (dialogs.closeDialog result expected).opened = dialogs.pending ∧
      (dialogs.closeDialog result expected).nextDialogId = dialogs.nextDialogId ∧
      ((dialogs.closeDialog result expected).active = none → (dialogs.closeDialog result expected).pending = []) := by
  unfold closeDialog
  split
  next => exact .inl rfl
  next fits =>
    refine .inr ⟨fun id same => ?_, rfl, ?_, rfl, fun none => ?_⟩
    · subst same
      simpa using fits
    · unfold opened
      dsimp only
      cases dialogs.pending <;> rfl
    · have empty : dialogs.pending = [] := List.head?_eq_none_iff.mp none
      dsimp only
      rw [empty]
      rfl

theorem queued_show (queued : dialogs.Queued requests) (request : α) :
    (dialogs.showDialog request).Queued (requests ++ [request]) := by
  have count : dialogs.answered.length ≤ requests.length := by
    have lengths := congrArg List.length queued.ids
    simp only [List.length_append, List.length_map, List.length_range'] at lengths
    omega
  refine ⟨?_, ?_, ?_, fun none => absurd none (showDialog_active request)⟩
  · rw [showDialog_answered, opened_showDialog queued.shown, List.map_append, ← List.append_assoc, queued.ids,
      queued.next, List.length_append, List.length_singleton, List.range'_1_concat, Nat.add_comm]
    rfl
  · rw [showDialog_nextDialogId, queued.next, List.length_append, List.length_singleton]
  · rw [showDialog_answered, opened_showDialog queued.shown, List.map_append, queued.asked,
      List.drop_append_of_le_length count]
    rfl

theorem queued_close (queued : dialogs.Queued requests) (result : DialogResult) (expected : Option Nat) :
    (dialogs.closeDialog result expected).Queued requests := by
  rcases @closeDialog_cases α dialogs result expected with
    same | ⟨_, answered, opened, next, shown⟩
  · rw [same]
    exact queued
  · have ids := queued.ids
    have asked := queued.asked
    unfold Dialogs.opened at ids asked
    refine ⟨?_, next.trans queued.next, ?_, shown⟩
    · rw [answered, opened, ← ids]
      cases dialogs.active <;> simp
    · rw [answered, opened]
      cases active : dialogs.active with
      | none =>
        rw [active] at asked
        simpa using asked
      | some state =>
        rw [active] at asked
        have dropped := congrArg List.tail asked
        simpa using dropped

theorem queued_run (queued : dialogs.Queued requests) (actions : List (DialogAction α)) :
    (dialogs.run actions).Queued (requests ++ requestsOf actions) := by
  induction actions generalizing dialogs requests with
  | nil => simpa [requestsOf, run] using queued
  | cons action rest ih =>
    cases action with
    | request request =>
      have after := ih (queued_show queued request)
      rwa [List.append_assoc] at after
    | close result expected => exact ih (queued_close queued result expected)

theorem queued_start : (({} : Dialogs α)).Queued [] := ⟨rfl, rfl, rfl, fun _ => rfl⟩

/-- Each answer so far was given while its dialog was shown, by a close that named this dialog or none. -/
def AnsweredBy (actions : List (DialogAction α)) : Prop :=
  ∀ answer ∈ dialogs.answered, ∃ before after expected,
    actions = before ++ .close answer.2 expected :: after ∧
      (({} : Dialogs α).run before).active.map Prod.fst = some answer.1 ∧ (∀ id, expected = some id → id = answer.1)

theorem run_concat (actions : List (DialogAction α)) (action : DialogAction α) :
    dialogs.run (actions ++ [action]) = (dialogs.run actions).act action := by
  rw [run, List.foldl_append]
  rfl

theorem answeredBy_run (actions : List (DialogAction α)) :
    (({} : Dialogs α).run actions).AnsweredBy actions := by
  induction actions using List.reverseRecOn with
  | nil => exact List.forall_mem_nil _
  | append_singleton earlier action ih =>
    intro answer answer_mem
    rw [run_concat] at answer_mem
    by_cases given : answer ∈ (({} : Dialogs α).run earlier).answered
    · obtain ⟨before, after, expected, same, shown, named⟩ := ih answer given
      exact ⟨before, after ++ [action], expected, by rw [same]; simp, shown, named⟩
    · cases action with
      | request request => exact absurd (showDialog_answered request ▸ answer_mem) given
      | close result expected =>
        rcases @closeDialog_cases α (({} : Dialogs α).run earlier) result expected with
          same | ⟨fits, answered, _⟩
        · exact absurd (show answer ∈ (({} : Dialogs α).run earlier).answered from same ▸ answer_mem) given
        · rw [act, answered, List.mem_append] at answer_mem
          have now := answer_mem.resolve_left given
          rw [Option.mem_toList, Option.map_eq_some_iff] at now
          obtain ⟨state, active, rfl⟩ := now
          refine ⟨earlier, [], expected, rfl, by rw [active]; rfl, fun id same => ?_⟩
          have front := fits id same
          rw [active] at front
          exact (Option.some.inj front).symm

theorem closeDialog_late {id : Nat} (hidden : dialogs.active.map Prod.fst ≠ some id) (result : DialogResult) :
    dialogs.closeDialog result (some id) = dialogs := by
  unfold closeDialog
  rw [if_pos]
  simpa using hidden

/-- The requests of a page are answered in the order that they came in, each at most once, by a close that came while
it was shown and named it or no dialog; a close that names an answered request, as each dialog sends when it is hidden,
changes nothing, and while requests are open the first of them is shown. -/
theorem dialogs_answered_in_order (actions : List (DialogAction α)) :
    let dialogs := ({} : Dialogs α).run actions
    dialogs.answered.map Prod.fst ++ dialogs.opened.map Prod.fst = List.range' 1 (requestsOf actions).length ∧
      dialogs.opened.map Prod.snd = (requestsOf actions).drop dialogs.answered.length ∧
      dialogs.active = dialogs.opened.head? ∧ dialogs.AnsweredBy actions ∧
      ∀ answer ∈ dialogs.answered, ∀ result, dialogs.closeDialog result (some answer.1) = dialogs := by
  dsimp only
  have queued := queued_run (queued_start (α := α)) actions
  rw [List.nil_append] at queued
  refine ⟨queued.ids, queued.asked, ?_, answeredBy_run actions, fun answer answer_mem result => closeDialog_late ?_ result⟩
  · unfold opened
    cases active : (({} : Dialogs α).run actions).active with
    | some state => rfl
    | none => rw [queued.shown active]; rfl
  · intro shown
    have distinct := List.nodup_range' (s := 1) (n := (requestsOf actions).length)
    rw [← queued.ids, List.nodup_append] at distinct
    obtain ⟨state, active, same⟩ := Option.map_eq_some_iff.mp shown
    refine distinct.2.2 answer.1 (List.mem_map_of_mem answer_mem) state.1 (List.mem_map_of_mem ?_) same.symm
    unfold opened
    rw [active]
    exact List.mem_cons_self

end Dialogs

end

end MqBridge.Ui
