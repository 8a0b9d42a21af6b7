import Mathlib.Tactic.Common

/-!
# Runs of a step function

A step function gives no state where an action is not possible. A run takes actions one after the other,
and it is careful when each action meets a condition on the state that it is taken in.
-/

namespace MqBridge.Steps

variable {σ α : Type} (step : σ → α → Option σ) (meets : σ → α → Prop)

def play : σ → List α → Option σ
  | state, [] => some state
  | state, action :: rest => (step state action).bind fun next => play next rest

def Careful : σ → List α → Prop
  | _, [] => True
  | state, action :: rest =>
    meets state action ∧
      match step state action with
      | some next => Careful next rest
      | none => True

/-- What holds in a state holds in every state that a run from it goes through. -/
def Always (holds : σ → Prop) : σ → List α → Prop
  | state, [] => holds state
  | state, action :: rest =>
    holds state ∧
      match step state action with
      | some next => Always holds next rest
      | none => True

instance Careful.decidable [∀ state action, Decidable (meets state action)] :
    (state : σ) → (actions : List α) → Decidable (Careful step meets state actions)
  | _, [] => inferInstanceAs (Decidable True)
  | state, action :: rest =>
    match stepped : step state action with
    | some next =>
      have := Careful.decidable next rest
      decidable_of_iff (meets state action ∧ Careful step meets next rest) (by rw [Careful, stepped])
    | none => decidable_of_iff (meets state action) (by rw [Careful, stepped, and_true])

variable {step meets} {state next after : σ} {action : α} {rest first : List α}

theorem play_cons (stepped : step state action = some next) : play step state (action :: rest) = play step next rest := by
  rw [play, stepped, Option.bind_some]

theorem careful_cons (stepped : step state action = some next) :
    Careful step meets state (action :: rest) ↔ meets state action ∧ Careful step meets next rest := by
  rw [Careful, stepped]

theorem careful_of_cons (here : meets state action)
    (later : ∀ next, step state action = some next → Careful step meets next rest) :
    Careful step meets state (action :: rest) := by
  refine ⟨here, ?_⟩
  split
  · rename_i next stepped
    exact later next stepped
  · trivial

theorem careful_append (careful : Careful step meets state first)
    (later : ∀ next, play step state first = some next → Careful step meets next rest) :
    Careful step meets state (first ++ rest) := by
  induction first generalizing state with
  | nil => exact later state rfl
  | cons action actions ih =>
    refine careful_of_cons careful.1 fun next stepped => ?_
    rw [careful_cons stepped] at careful
    exact ih careful.2 fun last played => later last ((play_cons stepped).trans played)

theorem careful_of_forall (always : ∀ action ∈ rest, ∀ state, meets state action) : Careful step meets state rest := by
  induction rest generalizing state with
  | nil => trivial
  | cons action rest ih =>
    rw [List.forall_mem_cons] at always
    exact careful_of_cons (always.1 state) fun _ _ => ih always.2

/-- A condition on the actions alone holds of all of them exactly when the run is careful, if it fails where the
run stops. -/
theorem careful_forall {accepts : α → Prop} (stops : ∀ state, ∀ action ∈ rest, step state action = none → ¬accepts action) :
    Careful step (fun _ => accepts) state rest ↔ ∀ action ∈ rest, accepts action := by
  induction rest generalizing state with
  | nil => exact iff_of_true trivial nofun
  | cons action rest ih =>
    rw [Careful, List.forall_mem_cons]
    cases stepped : step state action with
    | none =>
      have refused := stops state action List.mem_cons_self stepped
      exact iff_of_false (fun both => refused both.1) fun both => refused both.1
    | some next => exact and_congr_right' (ih fun state action member => stops state action (List.mem_cons_of_mem _ member))

/-- What every careful step keeps holds after a careful run. -/
theorem play_invariant {holds : σ → Prop}
    (kept : ∀ {state action next}, holds state → meets state action → step state action = some next → holds next)
    (initial : holds state) (careful : Careful step meets state rest) (played : play step state rest = some after) :
    holds after := by
  induction rest generalizing state with
  | nil =>
    obtain rfl := Option.some.inj played
    exact initial
  | cons action rest ih =>
    obtain ⟨next, stepped, played⟩ := Option.bind_eq_some_iff.mp played
    rw [careful_cons stepped] at careful
    exact ih (kept initial careful.1 stepped) careful.2 played

/-- What every step keeps holds after a run. -/
theorem play_kept {holds : σ → Prop}
    (kept : ∀ {state action next}, holds state → step state action = some next → holds next)
    (initial : holds state) (played : play step state rest = some after) : holds after := by
  induction rest generalizing state with
  | nil =>
    obtain rfl := Option.some.inj played
    exact initial
  | cons action rest ih =>
    obtain ⟨next, stepped, played⟩ := Option.bind_eq_some_iff.mp played
    exact ih (kept initial stepped) played

/-- Where a step keeps what holds exactly when it is careful, so does a run. -/
theorem play_iff {kept holds : σ → Prop}
    (stays : ∀ {state action next}, kept state → step state action = some next → kept next)
    (iff : ∀ {state action next}, kept state → step state action = some next →
      (holds next ↔ holds state ∧ meets state action))
    (initial : kept state) (played : play step state rest = some after) :
    holds after ↔ holds state ∧ Careful step meets state rest := by
  induction rest generalizing state with
  | nil =>
    obtain rfl := Option.some.inj played
    exact (and_iff_left trivial).symm
  | cons action rest ih =>
    obtain ⟨next, stepped, played⟩ := Option.bind_eq_some_iff.mp played
    rw [ih (stays initial stepped) played, iff initial stepped, careful_cons stepped, and_assoc]

/-- Where a step from a state that holds leads to another one exactly when it is careful, a run goes
through such states only exactly when it is careful. -/
theorem always_iff {holds : σ → Prop}
    (iff : ∀ {state action next}, holds state → step state action = some next → (holds next ↔ meets state action))
    (careless : ∀ {state action}, step state action = none → meets state action) (initial : holds state) :
    Always step holds state rest ↔ Careful step meets state rest := by
  induction rest generalizing state with
  | nil => exact iff_of_true initial trivial
  | cons action rest ih =>
    rw [Always, Careful, and_iff_right initial]
    cases stepped : step state action with
    | none => exact iff_of_true trivial ⟨careless stepped, trivial⟩
    | some next =>
      rw [← iff initial stepped]
      by_cases good : holds next
      · rw [and_iff_right good]
        exact ih good
      · have bad : ¬Always step holds next rest := by
          intro always
          cases rest with
          | nil => exact good always
          | cons => exact good always.1
        exact iff_of_false bad fun both => good both.1

/-- What each careful step of one system keeps between it and another one links them after a careful
run, which is a run of both. -/
theorem play_simulation {τ : Type} {other : τ → α → Option τ} {linked : σ → τ → Prop} {shadow : τ}
    (kept : ∀ {state shadow action next}, linked state shadow → meets state action → step state action = some next →
      ∃ shadowNext, other shadow action = some shadowNext ∧ linked next shadowNext)
    (initial : linked state shadow) (careful : Careful step meets state rest)
    (played : play step state rest = some after) :
    ∃ shadowAfter, play other shadow rest = some shadowAfter ∧ linked after shadowAfter := by
  induction rest generalizing state shadow with
  | nil =>
    obtain rfl := Option.some.inj played
    exact ⟨shadow, rfl, initial⟩
  | cons action rest ih =>
    obtain ⟨next, stepped, played⟩ := Option.bind_eq_some_iff.mp played
    rw [careful_cons stepped] at careful
    obtain ⟨shadowNext, shadowStepped, linkedNext⟩ := kept initial careful.1 stepped
    rw [play_cons shadowStepped]
    exact ih linkedNext careful.2 played

/-! ### Calls under way

Calls that take their steps in turn are a list: a step replaces one of them, and a new call comes last. -/

section
variable {κ : Type} {calls : List κ} {index i : Nat} {old call other : κ}

theorem call_of_set (found : (calls.set index call)[i]? = some other) :
    (index = i ∧ other = call) ∨ (index ≠ i ∧ calls[i]? = some other) := by
  by_cases same : index = i
  · subst same
    rw [List.getElem?_set_self'] at found
    obtain ⟨_, -, rfl⟩ := Option.map_eq_some_iff.mp found
    exact .inl ⟨rfl, rfl⟩
  · rw [List.getElem?_set_ne same] at found
    exact .inr ⟨same, found⟩

theorem call_of_append (found : (calls ++ [call])[i]? = some other) :
    calls[i]? = some other ∨ (i = calls.length ∧ other = call) := by
  by_cases inside : i < calls.length
  · rw [List.getElem?_append_left inside] at found
    exact .inl found
  · have bound := (List.getElem?_eq_some_iff.mp found).1
    rw [List.length_append, List.length_singleton] at bound
    rw [List.getElem?_append_right (Nat.le_of_not_lt inside)] at found
    refine .inr ⟨?_, List.mem_singleton.mp (List.mem_of_getElem? found)⟩
    omega

theorem mem_set_of_ne (there : calls[index]? = some old) (member : other ∈ calls) (apart : other ≠ old) :
    other ∈ calls.set index call := by
  obtain ⟨i, found⟩ := List.mem_iff_getElem?.mp member
  have elsewhere : index ≠ i := by
    rintro rfl
    exact apart (Option.some.inj (found.symm.trans there))
  apply List.mem_of_getElem?
  rw [List.getElem?_set_ne elsewhere]
  exact found

end

end MqBridge.Steps
