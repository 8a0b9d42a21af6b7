import Mathlib.Tactic.Common

/-!
# Steps that may fail

Where the error of several steps comes from, and what holds when none of them fails.
-/

namespace MqBridge.Fallible

variable {α β σ ε : Type}

theorem map_error {f : α → β} {result : Except ε α} {error : ε} :
    result.map f = .error error ↔ result = .error error := by
  cases result <;> simp [Except.map]

theorem map_ok {f : α → β} {result : Except ε α} {b : β} :
    result.map f = .ok b ↔ ∃ a, result = .ok a ∧ f a = b := by
  cases result <;> simp [Except.map]

theorem bind_error {result : Except ε α} {next : α → Except ε β} {error : ε} :
    result.bind next = .error error ↔ result = .error error ∨ ∃ a, result = .ok a ∧ next a = .error error := by
  cases result <;> simp [Except.bind]

theorem bind_ok {result : Except ε α} {next : α → Except ε β} {b : β} :
    result.bind next = .ok b ↔ ∃ a, result = .ok a ∧ next a = .ok b := by
  cases result <;> simp [Except.bind]

theorem foldlM_cons {step : σ → α → Except ε σ} (state : σ) (item : α) (rest : List α) :
    (item :: rest).foldlM step state = (step state item).bind fun next => rest.foldlM step next := rfl

theorem foldlM_ok {step : σ → α → Except ε σ} {state last : σ} {item : α} {rest : List α} :
    (item :: rest).foldlM step state = .ok last ↔ ∃ next, step state item = .ok next ∧ rest.foldlM step next = .ok last := by
  rw [foldlM_cons, bind_ok]

@[elab_as_elim]
theorem foldlM_induction {step : σ → α → Except ε σ} {last : σ}
    {motive : (items : List α) → (state : σ) → items.foldlM step state = .ok last → Prop} {items : List α} {state : σ}
    (run : items.foldlM step state = .ok last) (nil : motive [] last rfl)
    (cons : ∀ item rest state next (first : step state item = .ok next) (later : rest.foldlM step next = .ok last),
      motive rest next later → motive (item :: rest) state (foldlM_ok.mpr ⟨next, first, later⟩)) :
    motive items state run := by
  induction items generalizing state with
  | nil =>
    obtain rfl := Except.ok.inj run
    exact nil
  | cons item rest ih =>
    obtain ⟨next, first, later⟩ := foldlM_ok.mp run
    exact cons item rest state next first later (ih later)

theorem foldlM_error {step : σ → α → Except ε σ} {holds : ε → Prop} {items : List α}
    (fails : ∀ {state item error}, item ∈ items → step state item = .error error → holds error)
    {state : σ} {error : ε} (failed : items.foldlM step state = .error error) : holds error := by
  induction items generalizing state with
  | nil => cases failed
  | cons item rest ih =>
    rw [foldlM_cons, bind_error] at failed
    rcases failed with first | ⟨next, -, later⟩
    · exact fails List.mem_cons_self first
    · apply ih _ later
      intro state item error member
      exact fails (List.mem_cons_of_mem _ member)

@[simp] theorem toOption_error (error : ε) : (.error error : Except ε α).toOption = none := rfl

@[simp] theorem toOption_ok (a : α) : (.ok a : Except ε α).toOption = some a := rfl

theorem toOption_map (f : α → β) (result : Except ε α) : (result.map f).toOption = result.toOption.map f := by
  cases result <;> rfl

theorem toOption_bind (result : Except ε α) (next : α → Except ε β) :
    (result.bind next).toOption = result.toOption.bind fun a => (next a).toOption := by
  cases result <;> rfl

theorem toOption_eq_some {result : Except ε α} {a : α} : result.toOption = some a ↔ result = .ok a := by
  cases result <;> simp

theorem isSome_toOption (result : Except ε α) : result.toOption.isSome = result.isOk := by
  cases result <;> rfl

theorem toOption_foldlM {γ ε' : Type} {step : σ → α → Except ε σ} {step' : σ → γ → Except ε' σ} {same : α → γ → Prop}
    (agree : ∀ item item', same item item' → ∀ state, (step state item).toOption = (step' state item').toOption)
    {items : List α} {items' : List γ} (all : List.Forall₂ same items items') (state : σ) :
    (items.foldlM step state).toOption = (items'.foldlM step' state).toOption := by
  induction all generalizing state with
  | nil => rfl
  | cons here _ ih =>
    rw [foldlM_cons, foldlM_cons, toOption_bind, toOption_bind, agree _ _ here state]
    exact congrArg _ (funext ih)

end MqBridge.Fallible
