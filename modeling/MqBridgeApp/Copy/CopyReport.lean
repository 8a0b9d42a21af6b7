import MqBridgeApp.Copy.SourceMiddlewares

/-!
# What a copy counts and reports

The route of a copy asks its source for one batch after the other. Each middleware answers as it likes, and asks
the consumer inside it as often as it likes. A counter asks once and adds the size of the batch to its tally.
-/

namespace MqBridge.Copy
open Text Insertion

abbrev Counters := List (UInt64 × UInt64)

def fetchAdd (token : UInt64) (amount : Nat) (counters : Counters) : Counters :=
  counters.map fun entry => (entry.1, if entry.1 = token then entry.2 + .ofNat amount else entry.2)

/-- The counter that a configured consumer adds to, looked up when the route starts. -/
def applyConsumer (registry : CounterRegistry) (config : Data) : Except Text UInt64 :=
  match counterToken config with
  | none => .error "copy counter requires a token"
  | some token =>
    if registry.poisoned then .error "copy counter registry is poisoned"
    else if (registry.counters.lookup token).isSome then .ok token
    else .error (("copy counter " : Text) ++ Text.ofNat token.toNat ++ (" is not registered" : Text))

/-- What a middleware does when it is asked for a batch. -/
inductive Receiving (σ α ε : Type)
  | answer (outcome : Except ε (List α)) (state : σ)
  | ask (state : σ) (next : Except ε (List α) → σ → Receiving σ α ε)

/-- A run of a route on its source, with the sizes of the batches that each consumer gave. A consumer is known
by how many middlewares it has around the source. -/
structure Intake (σ : Type) where
  state : σ
  counters : Counters
  given : List (Nat × Nat) := []

section
variable {σ α ε : Type} (produce : σ → Except ε (List α) × σ) (behave : Middleware → σ → Receiving σ α ε)

def Receiving.run (inner : Intake σ → Except ε (List α) × Intake σ) :
    Receiving σ α ε → Intake σ → Except ε (List α) × Intake σ
  | .answer outcome state, intake => (outcome, { intake with state })
  | .ask state next, intake =>
    let (outcome, intake) := inner { intake with state }
    (next outcome intake.state).run inner intake

def rowsOf : Except ε (List α) → Nat
  | .ok batch => batch.length
  | .error _ => 0

/-- A middleware that answers with no more rows than it was given on being asked, after the rows that it has. -/
def Receiving.Sparing : Receiving σ α ε → Nat → Prop
  | .answer outcome _, rows => rowsOf outcome ≤ rows
  | .ask _ next, rows => ∀ outcome state, (next outcome state).Sparing (rows + rowsOf outcome)

def give (consumer : Nat) : Except ε (List α) × Intake σ → Except ε (List α) × Intake σ
  | (.ok batch, intake) => (.ok batch, { intake with given := intake.given ++ [(consumer, batch.length)] })
  | (.error error, intake) => (.error error, intake)

def count (token : UInt64) : Except ε (List α) × Intake σ → Except ε (List α) × Intake σ
  | (.ok batch, intake) => (.ok batch, { intake with counters := fetchAdd token batch.length intake.counters })
  | (.error error, intake) => (.error error, intake)

def receiveBatch : List Middleware → Intake σ → Except ε (List α) × Intake σ
  | [], intake => give 0 ((produce intake.state).1, { intake with state := (produce intake.state).2 })
  | middleware :: inner, intake => give (inner.length + 1)
      (match tokenOf middleware with
      | some token => count token (receiveBatch inner intake)
      | none => (behave middleware intake.state).run (receiveBatch inner) intake)

/-- As many calls as the route makes, with what each gave it. -/
def receiveBatches (middlewares : List Middleware) : Nat → Intake σ → List (Except ε (List α)) × Intake σ
  | 0, intake => ([], intake)
  | calls + 1, intake =>
    let (outcome, intake) := receiveBatch produce behave middlewares intake
    let (outcomes, intake) := receiveBatches middlewares calls intake
    (outcome :: outcomes, intake)

end

def rowsOfAll {α ε : Type} : List (Except ε (List α)) → Nat
  | [] => 0
  | outcome :: outcomes => rowsOf outcome + rowsOfAll outcomes

def givenBy (consumer : Nat) : List (Nat × Nat) → Nat
  | [] => 0
  | entry :: given => (if entry.1 = consumer then entry.2 else 0) + givenBy consumer given

/-- The rows that pass the counters of a token. -/
def passing (token : UInt64) : List Middleware → List (Nat × Nat) → Nat
  | [], _ => 0
  | middleware :: inner, given =>
    (if tokenOf middleware = some token then givenBy inner.length given else 0) + passing token inner given

theorem givenBy_append (consumer : Nat) (first second : List (Nat × Nat)) :
    givenBy consumer (first ++ second) = givenBy consumer first + givenBy consumer second := by
  induction first with
  | nil => simp [givenBy]
  | cons entry first ih =>
    simp only [List.cons_append, givenBy, ih]
    omega

theorem givenBy_outside {consumer : Nat} {given : List (Nat × Nat)} (inside : ∀ entry ∈ given, entry.1 < consumer) :
    givenBy consumer given = 0 := by
  induction given with
  | nil => rfl
  | cons entry given ih =>
    have other : entry.1 ≠ consumer := Nat.ne_of_lt (inside entry List.mem_cons_self)
    simp [givenBy, other, ih fun later member => inside later (List.mem_cons_of_mem _ member)]

theorem passing_append (token : UInt64) (middlewares : List Middleware) (first second : List (Nat × Nat)) :
    passing token middlewares (first ++ second) =
      passing token middlewares first + passing token middlewares second := by
  induction middlewares with
  | nil => rfl
  | cons middleware inner ih =>
    simp only [passing, givenBy_append, ih]
    split <;> omega

theorem passing_outermost (token : UInt64) {middlewares : List Middleware} {consumer rows : Nat}
    (outside : middlewares.length ≤ consumer) : passing token middlewares [(consumer, rows)] = 0 := by
  induction middlewares with
  | nil => rfl
  | cons middleware inner ih =>
    rw [List.length_cons] at outside
    have other : consumer ≠ inner.length := by omega
    simp [passing, givenBy, other, ih (by omega)]

theorem passing_nil (token : UInt64) (middlewares : List Middleware) : passing token middlewares [] = 0 := by
  induction middlewares with
  | nil => rfl
  | cons middleware inner ih => simp [passing, givenBy, ih]

theorem passing_absent {token : UInt64} {middlewares : List Middleware} (given : List (Nat × Nat))
    (absent : ∀ middleware ∈ middlewares, tokenOf middleware ≠ some token) : passing token middlewares given = 0 := by
  induction middlewares with
  | nil => rfl
  | cons middleware inner ih =>
    rw [List.forall_mem_cons] at absent
    simp [passing, absent.1, ih absent.2]

theorem passing_only {token : UInt64} {outer inner : List Middleware} (given : List (Nat × Nat))
    (outside : ∀ middleware ∈ outer, tokenOf middleware ≠ some token)
    (inside : ∀ middleware ∈ inner, tokenOf middleware ≠ some token) :
    passing token (outer ++ counterEntry token :: inner) given = givenBy inner.length given := by
  induction outer with
  | nil => simp [passing, tokenOf_counterEntry, passing_absent given inside]
  | cons middleware outer ih =>
    rw [List.forall_mem_cons] at outside
    simp [passing, outside.1, ih outside.2]

theorem lookup_fetchAdd (token other : UInt64) (amount : Nat) (counters : Counters) :
    (fetchAdd token amount counters).lookup other =
      (counters.lookup other).map (· + .ofNat (if token = other then amount else 0)) := by
  have entries := Assoc.lookup_mapWithKey
    (fun key value : UInt64 => if key = token then value + .ofNat amount else value) counters other
  rw [fetchAdd, entries]
  by_cases same : other = token
  · simp [same]
  · simp [same, Ne.symm same]

/-! ### One call -/

theorem rowsOf_give {σ α ε : Type} (consumer : Nat) (answer : Except ε (List α) × Intake σ) :
    rowsOf (give consumer answer).1 = rowsOf answer.1 := by
  obtain ⟨outcome, intake⟩ := answer
  cases outcome <;> rfl

theorem rowsOf_count {σ α ε : Type} (token : UInt64) (answer : Except ε (List α) × Intake σ) :
    rowsOf (count token answer).1 = rowsOf answer.1 := by
  obtain ⟨outcome, intake⟩ := answer
  cases outcome <;> rfl

section
variable {σ : Type} {middlewares : List Middleware} {before between after : Intake σ} {given later : List (Nat × Nat)}

/-- The consumers of some middlewares gave batches, and the tallies tell what passed the counters. -/
structure Tallied (middlewares : List Middleware) (before after : Intake σ) (given : List (Nat × Nat)) : Prop where
  given_eq : after.given = before.given ++ given
  counted : ∀ token, after.counters.lookup token =
    (before.counters.lookup token).map (· + .ofNat (passing token middlewares given))
  inside : ∀ entry ∈ given, entry.1 ≤ middlewares.length

theorem Tallied.of_state (accounts : Tallied middlewares before after given) (first last : σ) :
    Tallied middlewares { before with state := first } { after with state := last } given :=
  ⟨accounts.given_eq, accounts.counted, accounts.inside⟩

theorem accounts_nothing (middlewares : List Middleware) (intake : Intake σ) : Tallied middlewares intake intake [] where
  given_eq := (List.append_nil _).symm
  counted token := by simp [passing_nil]
  inside := List.forall_mem_nil _

theorem Tallied.trans (first : Tallied middlewares before between given)
    (second : Tallied middlewares between after later) : Tallied middlewares before after (given ++ later) where
  given_eq := by rw [second.given_eq, first.given_eq, List.append_assoc]
  counted token := by
    rw [second.counted, first.counted, Option.map_map, passing_append, UInt64.ofNat_add]
    cases before.counters.lookup token <;> simp [UInt64.add_assoc]
  inside entry member := by
    rcases List.mem_append.mp member with early | late
    · exact first.inside entry early
    · exact second.inside entry late

theorem Tallied.around {middleware : Middleware} (accounts : Tallied middlewares before after given)
    (plain : tokenOf middleware = none) : Tallied (middleware :: middlewares) before after given where
  given_eq := accounts.given_eq
  counted token := by
    rw [accounts.counted]
    simp [passing, plain]
  inside entry member := Nat.le_succ_of_le (accounts.inside entry member)

variable {α ε : Type} {produce : σ → Except ε (List α) × σ} {behave : Middleware → σ → Receiving σ α ε}

/-- What the outermost consumer gives is its answer. -/
theorem Tallied.give {middleware : Middleware} {answer : Except ε (List α) × Intake σ}
    (accounts : Tallied (middleware :: middlewares) before answer.2 given)
    (unheard : ∀ entry ∈ given, entry.1 ≤ middlewares.length) :
    ∃ all, Tallied (middleware :: middlewares) before (Copy.give (middlewares.length + 1) answer).2 all ∧
      givenBy (middlewares.length + 1) all = rowsOf (Copy.give (middlewares.length + 1) answer).1 ∧
      ∀ consumer ≤ middlewares.length, givenBy consumer all = givenBy consumer given := by
  have silent := givenBy_outside fun entry member => Nat.lt_succ_of_le (unheard entry member)
  obtain ⟨outcome, after⟩ := answer
  cases outcome with
  | error error => exact ⟨given, accounts, silent, fun _ _ => rfl⟩
  | ok batch =>
    refine ⟨given ++ [(middlewares.length + 1, batch.length)], ⟨?given, ?counted, ?inside⟩, ?own, ?inner⟩
    case given =>
      have early := accounts.given_eq
      simp only [Copy.give] at early ⊢
      rw [early, List.append_assoc]
    case counted =>
      intro token
      have outermost := @passing_outermost token (middleware :: middlewares) (middlewares.length + 1) batch.length
        (Nat.le_refl _)
      rw [passing_append, outermost, Nat.add_zero]
      exact accounts.counted token
    case inside =>
      intro entry member
      rcases List.mem_append.mp member with early | last
      · exact accounts.inside entry early
      · rw [List.mem_singleton.mp last]
        exact Nat.le_refl _
    case own => simp [givenBy_append, givenBy, silent, Copy.give, rowsOf]
    case inner =>
      intro consumer bound
      have other : middlewares.length + 1 ≠ consumer := by omega
      simp [givenBy_append, givenBy, other]

theorem Tallied.count {middleware : Middleware} {token : UInt64} {answer : Except ε (List α) × Intake σ}
    (accounts : Tallied middlewares before answer.2 given) (counter : tokenOf middleware = some token)
    (own : givenBy middlewares.length given = rowsOf answer.1) :
    Tallied (middleware :: middlewares) before (Copy.count token answer).2 given where
  given_eq := by
    rw [← accounts.given_eq]
    obtain ⟨outcome, after⟩ := answer
    cases outcome <;> rfl
  counted other := by
    have tally : (Copy.count token answer).2.counters.lookup other =
        (answer.2.counters.lookup other).map (· + .ofNat (if token = other then rowsOf answer.1 else 0)) := by
      obtain ⟨outcome, after⟩ := answer
      cases outcome with
      | error error => simp [Copy.count, rowsOf]
      | ok batch => simp only [Copy.count, rowsOf, lookup_fetchAdd]
    rw [tally, accounts.counted, Option.map_map]
    simp only [passing, counter, Option.some.injEq, own]
    rw [Nat.add_comm, UInt64.ofNat_add]
    cases before.counters.lookup other <;> simp [UInt64.add_assoc]
  inside entry member := Nat.le_succ_of_le (accounts.inside entry member)

/-- Calls that were answered with some rows: they are what the outermost consumer gave, and what it was given if it
is a counter. -/
structure Answered (sparing : Prop) (middlewares : List Middleware) (before after : Intake σ) (rows : Nat)
    (given : List (Nat × Nat)) : Prop where
  accounts : Tallied middlewares before after given
  own : givenBy middlewares.length given = rows
  counter : ∀ middleware inner, middlewares = middleware :: inner → (tokenOf middleware).isSome →
    givenBy inner.length given = rows
  spares : sparing → ∀ consumer ≤ middlewares.length, rows ≤ givenBy consumer given

theorem answered_nothing (sparing : Prop) (middlewares : List Middleware) (intake : Intake σ) :
    Answered sparing middlewares intake intake 0 [] where
  accounts := accounts_nothing middlewares intake
  own := rfl
  counter _ _ _ _ := rfl
  spares _ _ _ := Nat.zero_le _

theorem Answered.trans {sparing : Prop} {rows more : Nat} (first : Answered sparing middlewares before between rows given)
    (second : Answered sparing middlewares between after more later) :
    Answered sparing middlewares before after (rows + more) (given ++ later) where
  accounts := first.accounts.trans second.accounts
  own := by rw [givenBy_append, first.own, second.own]
  counter middleware inner shape isCounter := by
    rw [givenBy_append, first.counter middleware inner shape isCounter, second.counter middleware inner shape isCounter]
  spares assumed consumer bound := by
    rw [givenBy_append]
    exact Nat.add_le_add (first.spares assumed consumer bound) (second.spares assumed consumer bound)

/-- A middleware accounts for what the consumer inside it does each time that it asks. -/
theorem Receiving.run_accounts {sparing : Prop} {inner : Intake σ → Except ε (List α) × Intake σ}
    (answers : ∀ intake, ∃ given, Answered sparing middlewares intake (inner intake).2 (rowsOf (inner intake).1) given)
    (receiving : Receiving σ α ε) (intake : Intake σ) :
    ∃ given, Tallied middlewares intake (receiving.run inner intake).2 given ∧
      (sparing → ∀ rows, receiving.Sparing rows → ∀ consumer ≤ middlewares.length,
        rowsOf (receiving.run inner intake).1 ≤ rows + givenBy consumer given) := by
  induction receiving generalizing intake with
  | answer outcome state =>
    exact ⟨[], (accounts_nothing middlewares intake).of_state intake.state state, fun _ rows spared _ _ => spared⟩
  | ask state next ih =>
    obtain ⟨given, first⟩ := answers { intake with state }
    obtain ⟨later, rest, sparesRest⟩ := ih (inner { intake with state }).1 (inner { intake with state }).2.state
      (inner { intake with state }).2
    refine ⟨given ++ later, (first.accounts.of_state intake.state _).trans rest, fun assumed rows spared consumer bound => ?_⟩
    have before := first.spares assumed consumer bound
    have after := sparesRest assumed _ (spared _ _) consumer bound
    rw [givenBy_append]
    show rowsOf ((next _ _).run inner _).1 ≤ _
    omega

theorem source_answered (sparing : Prop) (intake : Intake σ) :
    ∃ given, Answered sparing [] intake (receiveBatch produce behave [] intake).2
      (rowsOf (receiveBatch produce behave [] intake).1) given := by
  rw [receiveBatch]
  cases (produce intake.state).1 with
  | error error =>
    have nothing := answered_nothing sparing [] intake
    exact ⟨[], nothing.accounts.of_state intake.state _, nothing.own, nothing.counter, nothing.spares⟩
  | ok batch =>
    have own : givenBy 0 [(0, batch.length)] = batch.length := by simp [givenBy]
    refine ⟨[(0, batch.length)], ⟨rfl, fun token => ?_, fun entry member => ?_⟩, own, fun _ _ shape => ?_, fun _ consumer bound => ?_⟩
    · simp [give, passing]
    · simp [List.mem_singleton.mp member]
    · cases shape
    · rw [Nat.le_zero.mp bound, own]
      exact Nat.le_refl _

theorem receiveBatch_answered (middlewares : List Middleware) (intake : Intake σ) :
    ∃ given, Answered (∀ middleware state, (behave middleware state).Sparing 0) middlewares intake
      (receiveBatch produce behave middlewares intake).2 (rowsOf (receiveBatch produce behave middlewares intake).1)
      given := by
  induction middlewares generalizing intake with
  | nil => exact source_answered _ intake
  | cons middleware inner ih =>
    rw [receiveBatch]
    split
    · next token isCounter =>
      obtain ⟨given, answered⟩ := ih intake
      obtain ⟨all, outer, total, same⟩ := (answered.accounts.count isCounter answered.own).give answered.accounts.inside
      rw [rowsOf_give, rowsOf_count] at total ⊢
      refine ⟨all, outer, total, fun _ _ shape _ => ?counter, fun sparing consumer bound => ?spares⟩
      case counter =>
        obtain ⟨-, rfl⟩ := List.cons.inj shape
        rw [same _ (Nat.le_refl _), answered.own]
      case spares =>
        rcases Nat.le_succ_iff.mp bound with inside | outermost
        · rw [same consumer inside]
          exact answered.spares sparing consumer inside
        · rw [outermost]
          exact Nat.le_of_eq total.symm
    · next plain =>
      obtain ⟨given, accounts, spares⟩ := Receiving.run_accounts ih (behave middleware intake.state) intake
      obtain ⟨all, outer, total, same⟩ := (accounts.around plain).give accounts.inside
      rw [rowsOf_give] at total ⊢
      refine ⟨all, outer, total, fun _ _ shape isCounter => ?counter, fun sparing consumer bound => ?spares⟩
      case counter =>
        obtain ⟨rfl, -⟩ := List.cons.inj shape
        simp [plain] at isCounter
      case spares =>
        rcases Nat.le_succ_iff.mp bound with inside | outermost
        · rw [same consumer inside]
          have answered := spares sparing 0 (sparing middleware intake.state) consumer inside
          rwa [Nat.zero_add] at answered
        · rw [outermost]
          exact Nat.le_of_eq total.symm

theorem receiveBatches_answered (middlewares : List Middleware) (calls : Nat) (intake : Intake σ) :
    ∃ given, Answered (∀ middleware state, (behave middleware state).Sparing 0) middlewares intake
      (receiveBatches produce behave middlewares calls intake).2
      (rowsOfAll (receiveBatches produce behave middlewares calls intake).1) given := by
  induction calls generalizing intake with
  | zero => exact ⟨[], answered_nothing _ middlewares intake⟩
  | succ calls ih =>
    obtain ⟨given, first⟩ := @receiveBatch_answered _ _ _ produce behave middlewares intake
    obtain ⟨later, rest⟩ := ih (receiveBatch produce behave middlewares intake).2
    exact ⟨given ++ later, first.trans rest⟩

end

/-! ### The counters of a copy -/

theorem newCounter_registry {registry next : CounterRegistry} {entry : Middleware} {token : UInt64}
    (made : newCounter registry = (.ok (entry, token), next)) :
    token = registry.nextToken ∧ next.poisoned = false ∧ next.nextToken = token + 1 ∧
      next.counters = Assoc.insert registry.counters (token, 0) := by
  unfold newCounter at made
  split at made
  · cases made
  · dsimp only at made
    split at made
    · cases made
    · next sound =>
      cases made
      exact ⟨rfl, (Bool.not_eq_true _).mp sound, rfl, rfl⟩

namespace CopySource

theorem withCounter_registry {source next : CopySource} {place : Endpoint → Middleware → Endpoint} {token : UInt64}
    (made : source.withCounter place = (.ok token, next)) :
    token = source.registry.nextToken ∧ next.registry.poisoned = false ∧ next.registry.nextToken = token + 1 ∧
      next.registry.counters = Assoc.insert source.registry.counters (token, 0) := by
  obtain ⟨_, counter, -⟩ := withCounter_made made
  exact newCounter_registry counter

/-- The two counters of a copy are new, and other tallies stay. -/
theorem configureCopy_registry {source next : CopySource} {filter : Option Text} {copied read : UInt64}
    (configured : source.configureCopy filter = (.ok (copied, read), next)) :
    read = copied + 1 ∧ next.registry.poisoned = false ∧
      next.registry.counters = Assoc.insert (Assoc.insert source.registry.counters (copied, 0)) (read, 0) := by
  unfold configureCopy at configured
  split at configured
  · cases configured
  next copiedToken around delivered =>
  dsimp only at configured
  split at configured
  · cases configured
  next readToken inside counted =>
  simp only [Prod.mk.injEq, Except.ok.injEq] at configured
  obtain ⟨⟨rfl, rfl⟩, rfl⟩ := configured
  obtain ⟨-, -, following, counters⟩ := withCounter_registry delivered
  obtain ⟨own, sound, -, both⟩ := withCounter_registry counted
  have registry : (filter.elim around around.configureFilter).registry = around.registry := by cases filter <;> rfl
  rw [registry] at own both
  exact ⟨own.trans following, sound, both.trans (by rw [counters])⟩

end CopySource

def counterConfig (token : UInt64) : Data := .record [("token", .num (.ofNat token.toNat))]

theorem counterToken_counterConfig (token : UInt64) : counterToken (counterConfig token) = some token :=
  tokenOf_counterEntry token

theorem applyConsumer_counterConfig {registry : CounterRegistry} {token : UInt64} (sound : registry.poisoned = false)
    (registered : (registry.counters.lookup token).isSome) :
    applyConsumer registry (counterConfig token) = .ok token := by
  rw [applyConsumer, counterToken_counterConfig]
  simp [sound, registered]

theorem tokenOf_filters (filter : Option Text) {middleware : Middleware}
    (added : middleware ∈ (filter.map filterEntry).toList) : tokenOf middleware = none := by
  cases filter with
  | none => exact absurd added List.not_mem_nil
  | some expression =>
    rw [List.mem_singleton.mp added]
    rfl

theorem next_ne (token : UInt64) : token + 1 ≠ token := by
  intro same
  have wrapped := congrArg UInt64.toNat same
  have bound := token.toNat_lt
  rw [UInt64.toNat_add] at wrapped
  have one : (1 : UInt64).toNat = 1 := rfl
  rw [one] at wrapped
  omega

structure Throughput where
  rows : UInt64
  read : UInt64
  elapsed : Text
  rowsPerSecond : UInt64

def throughput (counters : Counters) (copied read : UInt64) (elapsed : Text) (rowsPerSecond : UInt64) : Throughput where
  rows := (counters.lookup copied).getD 0
  read := (counters.lookup read).getD 0
  elapsed
  rowsPerSecond

/-- The counters of a copy are accepted when its route starts. However often the route asks for a batch, and whatever
the other middlewares do, the tally of a copy is then the rows that the route was given, and the tally of reads is the
rows that came out of the last buffer, or of the source. No other tally changes. Where no middleware gives more rows
than it was given, no more was copied than read. -/
theorem copy_counts_rows {σ α ε : Type} (produce : σ → Except ε (List α) × σ)
    (behave : Middleware → σ → Receiving σ α ε) (source copy : CopySource) (filter : Option Text)
    (copied read : UInt64) (configured : source.configureCopy filter = (.ok (copied, read), copy))
    (unused : ∀ middleware ∈ source.input.middlewares,
      tokenOf middleware ≠ some copied ∧ tokenOf middleware ≠ some read)
    (calls : Nat) (state : σ) (elapsed : Text) (rowsPerSecond : UInt64) :
    let run := receiveBatches produce behave copy.input.middlewares calls { state, counters := copy.registry.counters }
    let readRows := givenBy (fromLast isBuffer source.input.middlewares).length run.2.given
    (∀ token ∈ [copied, read], applyConsumer copy.registry (counterConfig token) = .ok token) ∧
      throughput run.2.counters copied read elapsed rowsPerSecond =
        { rows := .ofNat (rowsOfAll run.1), read := .ofNat readRows, elapsed, rowsPerSecond } ∧
      (∀ token, token ≠ copied → token ≠ read →
        (∀ middleware ∈ source.input.middlewares, tokenOf middleware ≠ some token) →
        run.2.counters.lookup token = source.registry.counters.lookup token) ∧
      ((∀ middleware state, (behave middleware state).Sparing 0) → rowsOfAll run.1 ≤ readRows) := by
  intro run readRows
  have middlewares := CopySource.configureCopy_middlewares configured
  obtain ⟨following, sound, counters⟩ := CopySource.configureCopy_registry configured
  have apart : read ≠ copied := following ▸ next_ne copied
  obtain ⟨given, accounts, own, counter, spares⟩ := @receiveBatches_answered _ _ _ produce behave
    copy.input.middlewares calls { state, counters := copy.registry.counters }
  have all : run.2.given = given := accounts.given_eq
  have readRows_eq : readRows = givenBy (fromLast isBuffer source.input.middlewares).length given := by rw [← all]
  have copiedRegistered : copy.registry.counters.lookup copied = some 0 := by
    rw [counters, Assoc.lookup_insert, Assoc.lookup_insert]
    simp [apart.symm]
  have readRegistered : copy.registry.counters.lookup read = some 0 := by
    rw [counters, Assoc.lookup_insert]
    simp
  have innermost (token : UInt64) (free : ∀ middleware ∈ source.input.middlewares, tokenOf middleware ≠ some token) :
      ∀ middleware ∈ fromLast isBuffer source.input.middlewares, tokenOf middleware ≠ some token := by
    intro middleware member
    rw [← beforeLast_append_fromLast isBuffer source.input.middlewares] at free
    exact free middleware (List.mem_append_right _ member)
  have around (token : UInt64) (free : ∀ middleware ∈ source.input.middlewares, tokenOf middleware ≠ some token) :
      ∀ middleware ∈ beforeLast isBuffer source.input.middlewares ++ (filter.map filterEntry).toList,
        tokenOf middleware ≠ some token := by
    intro middleware member
    rcases List.mem_append.mp member with own | added
    · rw [← beforeLast_append_fromLast isBuffer source.input.middlewares] at free
      exact free middleware (List.mem_append_left _ own)
    · rw [tokenOf_filters filter added]
      nofun
  have readPassing : passing read copy.input.middlewares given =
      givenBy (fromLast isBuffer source.input.middlewares).length given := by
    rw [middlewares, ← List.cons_append]
    have free middleware member := (unused middleware member).2
    refine passing_only given ?_ (innermost read free)
    rw [List.forall_mem_cons]
    exact ⟨by simpa [tokenOf_counterEntry] using apart.symm, around read free⟩
  have copiedPassing : passing copied copy.input.middlewares given = rowsOfAll run.1 := by
    have free middleware member := (unused middleware member).1
    have rest : ∀ middleware ∈ beforeLast isBuffer source.input.middlewares ++ (filter.map filterEntry).toList ++
        counterEntry read :: fromLast isBuffer source.input.middlewares, tokenOf middleware ≠ some copied := by
      rw [List.forall_mem_append, List.forall_mem_cons]
      exact ⟨around copied free, by simpa [tokenOf_counterEntry] using apart, innermost copied free⟩
    have outermost := @passing_only _ [] _ given (List.forall_mem_nil _) rest
    rw [middlewares]
    exact outermost.trans (counter _ _ middlewares (by simp [tokenOf_counterEntry]))
  refine ⟨fun token member => ?starts, ?moved, fun token other second free => ?others, fun sparing => ?spares⟩
  case starts =>
    refine applyConsumer_counterConfig sound ?_
    rcases List.mem_pair.mp member with rfl | rfl
    · rw [copiedRegistered, Option.isSome_some]
    · rw [readRegistered, Option.isSome_some]
  case moved =>
    have copiedTally := accounts.counted copied
    have readTally := accounts.counted read
    rw [copiedRegistered, copiedPassing, Option.map_some, UInt64.zero_add] at copiedTally
    rw [readRegistered, readPassing, Option.map_some, UInt64.zero_add, ← readRows_eq] at readTally
    rw [throughput, copiedTally, readTally]
    rfl
  case others =>
    have absent : passing token copy.input.middlewares given = 0 := by
      refine passing_absent given ?_
      rw [middlewares, List.forall_mem_cons, List.forall_mem_append, List.forall_mem_cons]
      refine ⟨?_, around token free, ?_, innermost token free⟩
      · simpa [tokenOf_counterEntry] using Ne.symm other
      · simpa [tokenOf_counterEntry] using Ne.symm second
    rw [accounts.counted, absent, counters, Assoc.lookup_insert, Assoc.lookup_insert]
    simp [other, second]
  case spares =>
    rw [readRows_eq]
    refine spares sparing _ ?_
    rw [middlewares]
    simp only [List.length_cons, List.length_append]
    omega

/-- A middleware that drops the first row of each batch that it asks for. -/
def dropsFirst (_ : Middleware) (state : List (List Nat)) : Receiving (List (List Nat)) Nat Text :=
  .ask state fun outcome state => .answer (outcome.map (List.drop 1)) state

def batches : List (List Nat) → Except Text (List Nat) × List (List Nat)
  | [] => (.error "end of stream", [])
  | batch :: rest => (.ok batch, rest)

theorem copy_counts_rows_buffered :
    let run := receiveBatches batches dropsFirst bufferedCopy.input.middlewares 3
      { state := [[1, 2, 3, 4, 5, 6], [7, 8, 9, 10, 11, 12]], counters := bufferedCopy.registry.counters }
    throughput run.2.counters 0 1 "5ms" 2000 = { rows := 2, read := 10, elapsed := "5ms", rowsPerSecond := 2000 } :=
  (copy_counts_rows batches dropsFirst bufferedSource bufferedCopy (some "amount > 10") 0 1 rfl
    (by decide +kernel) 3 [[1, 2, 3, 4, 5, 6], [7, 8, 9, 10, 11, 12]] "5ms" 2000).2.1

/-! ### The report -/

inductive RouteOutcome where
  | completed
  | stopped
  | failed
  deriving DecidableEq

/-- Underscores before the digits that a multiple of three digits starts with, but not at the front. -/
def grouped (value : UInt64) : Text :=
  let digits := Text.ofNat value.toNat
  digits.zipIdx.flatMap fun (digit, index) =>
    if index > 0 ∧ (digits.length - index) % 3 = 0 then ['_', digit] else [digit]

namespace Throughput

def rowsDisplay (moved : Throughput) : Text :=
  if moved.read > moved.rows then
    grouped moved.rows ++ (" of " : Text) ++ grouped moved.read ++ (" rows" : Text)
  else grouped moved.rows ++ (" rows" : Text)

def report (moved : Throughput) (verb : Text) : Text :=
  verb ++ (" " : Text) ++ moved.rowsDisplay ++ (" in " : Text) ++ moved.elapsed ++ (" (" : Text) ++
    grouped moved.rowsPerSecond ++ (" rows/s)" : Text)

end Throughput

/-- The line that a copy prints, or the error that it exits with. -/
def copyResult (outcome : Option RouteOutcome) (error : Option Text) (moved : Throughput) : Except Text Text :=
  if outcome = some .failed then
    .error (("copy failed after " : Text) ++ moved.rowsDisplay ++ (": " : Text) ++
      error.getD ("no error reported" : Text))
  else
    match error with
    | some cause => .error (("copy did not deliver every row it read (" : Text) ++ moved.rowsDisplay ++
        ("): " : Text) ++ cause)
    | none =>
      match outcome with
      | some .completed => .ok (moved.report "copied")
      | _ => .ok (moved.report "stopped after copying")

/-- The digits that follow the first one, with their underscores. -/
def groupedRest : List Char → Text
  | [] => []
  | digit :: rest =>
    if (rest.length + 1) % 3 = 0 then '_' :: digit :: groupedRest rest else digit :: groupedRest rest

theorem flatMap_groupedRest (total : Nat) (digits : List Char) (index : Nat) (after : 0 < index)
    (fits : total = index + digits.length) :
    ((digits.zipIdx index).flatMap fun (digit, index) =>
      if index > 0 ∧ (total - index) % 3 = 0 then ['_', digit] else [digit]) = groupedRest digits := by
  induction digits generalizing index with
  | nil => rfl
  | cons digit rest ih =>
    rw [List.length_cons] at fits
    have left : total - index = rest.length + 1 := by omega
    have later := ih (index + 1) (Nat.succ_pos _) (by omega)
    rw [List.zipIdx_cons, List.flatMap_cons, later, groupedRest]
    dsimp only
    rw [left]
    split <;> simp_all

theorem grouped_eq (value : UInt64) : ∃ first rest, Text.ofNat value.toNat = first :: rest ∧
    grouped value = first :: groupedRest rest := by
  cases digits : Text.ofNat value.toNat with
  | nil => exact absurd digits (JsonNumber.ofNat value.toNat).nonempty
  | cons first rest =>
    refine ⟨first, rest, rfl, ?_⟩
    have later := flatMap_groupedRest (rest.length + 1) rest 1 Nat.one_pos (Nat.add_comm _ _)
    rw [grouped, digits]
    dsimp only
    rw [List.zipIdx_cons, List.flatMap_cons]
    simp only [Nat.zero_add, List.length_cons, later]
    simp

theorem filter_groupedRest {digits : List Char} (numeric : ∀ c ∈ digits, c ≠ '_') :
    (groupedRest digits).filter (· ≠ '_') = digits := by
  induction digits with
  | nil => rfl
  | cons digit rest ih =>
    rw [List.forall_mem_cons] at numeric
    have later := ih numeric.2
    rw [groupedRest]
    split <;> simp [numeric.1] <;> simpa using later

theorem digit_ne_underscore {n : Nat} {c : Char} (member : c ∈ Text.ofNat n) : c ≠ '_' := by
  rintro rfl
  exact absurd (isDigit_of_mem_ofNat member) (by decide)

theorem filter_grouped (value : UInt64) : (grouped value).filter (· ≠ '_') = Text.ofNat value.toNat := by
  obtain ⟨first, rest, digits, shown⟩ := grouped_eq value
  have numeric : ∀ c ∈ first :: rest, c ≠ '_' := fun c member => digit_ne_underscore (digits ▸ member)
  rw [List.forall_mem_cons] at numeric
  have later := filter_groupedRest numeric.2
  rw [shown, digits]
  simp [numeric.1]
  simpa using later

theorem grouped_injective {first second : UInt64} (same : grouped first = grouped second) : first = second := by
  have digits := congrArg (List.filter (· ≠ '_')) same
  rw [filter_grouped, filter_grouped] at digits
  exact UInt64.toNat_inj.mp (Text.ofNat_injective digits)

theorem space_notMem_groupedRest {digits : List Char} (absent : ' ' ∉ digits) : ' ' ∉ groupedRest digits := by
  induction digits with
  | nil => exact absent
  | cons digit rest ih =>
    rw [List.mem_cons, not_or] at absent
    have later := ih absent.2
    rw [groupedRest]
    split <;> simp [absent.1, later]

theorem space_notMem_grouped (value : UInt64) : ' ' ∉ grouped value := by
  obtain ⟨first, rest, digits, shown⟩ := grouped_eq value
  have absent : ' ' ∉ first :: rest := by
    intro member
    rw [← digits] at member
    exact absurd (isDigit_of_mem_ofNat member) (by decide)
  rw [List.mem_cons, not_or] at absent
  rw [shown, List.mem_cons, not_or]
  exact ⟨absent.1, space_notMem_groupedRest absent.2⟩

/-- The digits of a grouped number are in threes, apart from at most three at the front. -/
theorem groupedRest_groups (digits : List Char) :
    ∃ (front : List Char) (groups : List (List Char)), groupedRest digits = front ++ groups.flatMap ('_' :: ·) ∧
      front.length = digits.length % 3 ∧ (∀ group ∈ groups, group.length = 3) ∧ digits = front ++ groups.flatten := by
  induction digits with
  | nil => exact ⟨[], [], rfl, rfl, List.forall_mem_nil _, rfl⟩
  | cons digit rest ih =>
    obtain ⟨front, groups, shown, length, threes, whole⟩ := ih
    rw [groupedRest, List.length_cons]
    split
    · next full =>
      refine ⟨[], (digit :: front) :: groups, by simp [shown], by simp [full], ?_, by simp [← whole]⟩
      rw [List.forall_mem_cons, List.length_cons]
      exact ⟨by omega, threes⟩
    · next partly =>
      refine ⟨digit :: front, groups, by simp [shown], ?_, threes, by simp [← whole]⟩
      rw [List.length_cons]
      omega

theorem grouped_groups (value : UInt64) : ∃ (front : List Char) (groups : List (List Char)),
    grouped value = front ++ groups.flatMap ('_' :: ·) ∧ 0 < front.length ∧ front.length ≤ 3 ∧
      (∀ group ∈ groups, group.length = 3) ∧ Text.ofNat value.toNat = front ++ groups.flatten := by
  obtain ⟨first, rest, digits, shown⟩ := grouped_eq value
  obtain ⟨front, groups, restShown, length, threes, whole⟩ := groupedRest_groups rest
  refine ⟨first :: front, groups, ?_, Nat.succ_pos _, ?_, threes, ?_⟩
  · rw [shown, restShown, List.cons_append]
  · rw [List.length_cons]
    omega
  · rw [digits, whole, List.cons_append]

example : grouped 1234567 = ("1_234_567" : Text) := by decide

theorem grouped_append {first second : UInt64} {rest other : Text}
    (same : grouped first ++ ' ' :: rest = grouped second ++ ' ' :: other) : first = second ∧ rest = other := by
  have split := congrArg (splitOnce ' ') same
  rw [splitOnce_append (space_notMem_grouped first), splitOnce_append (space_notMem_grouped second)] at split
  obtain ⟨numbers, rests⟩ := Prod.mk.inj (Option.some.inj split)
  exact ⟨grouped_injective numbers, rests⟩

/-- What the line of a copy shows can be read off it, whatever time it took. -/
theorem rowsDisplay_append {first second : Throughput} {rest other : Text}
    (same : first.rowsDisplay ++ ' ' :: rest = second.rowsDisplay ++ ' ' :: other) :
    first.rows = second.rows ∧ (first.rows < first.read ↔ second.rows < second.read) ∧
      (first.rows < first.read → first.read = second.read) := by
  unfold Throughput.rowsDisplay at same
  have apart {a b : Text} : ("of " : Text) ++ a ≠ ("rows" : Text) ++ b := by
    intro equal
    cases equal
  split at same
  · next shown =>
    split at same
    · next shown' =>
      have whole : grouped first.rows ++ ' ' :: (("of " : Text) ++ (grouped first.read ++ ' ' :: (("rows" : Text) ++ ' ' :: rest))) =
          grouped second.rows ++ ' ' :: (("of " : Text) ++ (grouped second.read ++ ' ' :: (("rows" : Text) ++ ' ' :: other))) := by
        simpa [Text.lit] using same
      obtain ⟨rows, tail⟩ := grouped_append whole
      obtain ⟨read, -⟩ := grouped_append (List.append_cancel_left tail)
      exact ⟨rows, iff_of_true shown shown', fun _ => read⟩
    · have whole : grouped first.rows ++ ' ' :: (("of " : Text) ++ (grouped first.read ++ ' ' :: (("rows" : Text) ++ ' ' :: rest))) =
          grouped second.rows ++ ' ' :: (("rows" : Text) ++ ' ' :: other) := by
        simpa [Text.lit] using same
      exact absurd (grouped_append whole).2 apart
  · next hidden =>
    split at same
    · have whole : grouped first.rows ++ ' ' :: (("rows" : Text) ++ ' ' :: rest) =
          grouped second.rows ++ ' ' :: (("of " : Text) ++ (grouped second.read ++ ' ' :: (("rows" : Text) ++ ' ' :: other))) := by
        simpa [Text.lit] using same
      exact absurd (grouped_append whole).2.symm apart
    · next hidden' =>
      have whole : grouped first.rows ++ ' ' :: (("rows" : Text) ++ ' ' :: rest) =
          grouped second.rows ++ ' ' :: (("rows" : Text) ++ ' ' :: other) := by
        simpa [Text.lit] using same
      exact ⟨(grouped_append whole).1, iff_of_false hidden hidden', fun shown => absurd shown hidden⟩

/-- The word that a copy reports its end with. -/
def verbOf (outcome : Option RouteOutcome) : Text :=
  if outcome = some .completed then "copied" else "stopped after copying"

theorem copyResult_ok {outcome : Option RouteOutcome} {error : Option Text} {moved : Throughput} {line : Text}
    (shown : copyResult outcome error moved = .ok line) :
    outcome ≠ some .failed ∧ error = none ∧ line = moved.report (verbOf outcome) := by
  unfold copyResult at shown
  split at shown
  · cases shown
  · next ended =>
    split at shown
    · cases shown
    · refine ⟨ended, rfl, ?_⟩
      split at shown
      · exact (Except.ok.inj shown).symm
      · next running =>
        rw [verbOf, if_neg running]
        exact (Except.ok.inj shown).symm

theorem report_verb {first second : Throughput} {outcome outcome' : Option RouteOutcome}
    (same : first.report (verbOf outcome) = second.report (verbOf outcome')) :
    (outcome = some .completed ↔ outcome' = some .completed) ∧
      ∃ rest other, first.rowsDisplay ++ ' ' :: rest = second.rowsDisplay ++ ' ' :: other := by
  have apart (a b : Text) : ("copied" : Text) ++ a ≠ ("stopped after copying" : Text) ++ b := by
    intro equal
    cases equal
  simp only [Throughput.report, List.append_assoc] at same
  unfold verbOf at same
  split at same <;> split at same
  · next ended ended' => exact ⟨iff_of_true ended ended', _, _, List.append_cancel_left (List.append_cancel_left same)⟩
  · exact absurd same (apart _ _)
  · exact absurd same.symm (apart _ _)
  · next ended ended' => exact ⟨iff_of_false ended ended', _, _, List.append_cancel_left (List.append_cancel_left same)⟩

/-- A copy prints a line exactly when its route did not fail and reports no error. Whatever time the copies took, two
that print the same line both ran to their end or both were stopped, and they copied as many rows. Where the line says
that fewer rows were copied than read, they read as many, too. -/
theorem copy_result_tells (outcome outcome' : Option RouteOutcome) (error error' : Option Text)
    (first second : Throughput) :
    ((∃ line, copyResult outcome error first = .ok line) ↔ outcome ≠ some .failed ∧ error = none) ∧
      ∀ line, copyResult outcome error first = .ok line → copyResult outcome' error' second = .ok line →
        (outcome = some .completed ↔ outcome' = some .completed) ∧ first.rows = second.rows ∧
          (first.rows < first.read ↔ second.rows < second.read) ∧
          (first.rows < first.read → first.read = second.read) := by
  refine ⟨?ends, fun line shown shown' => ?tells⟩
  case ends =>
    constructor
    · rintro ⟨line, shown⟩
      exact ⟨(copyResult_ok shown).1, (copyResult_ok shown).2.1⟩
    · rintro ⟨ended, rfl⟩
      simp only [copyResult, ended, if_false]
      split <;> exact ⟨_, rfl⟩
  case tells =>
    obtain ⟨-, -, printed⟩ := copyResult_ok shown
    obtain ⟨-, -, printed'⟩ := copyResult_ok shown'
    have same : first.report (verbOf outcome) = second.report (verbOf outcome') := printed.symm.trans printed'
    obtain ⟨verbs, _, _, tails⟩ := report_verb same
    exact ⟨verbs, rowsDisplay_append tails⟩

end MqBridge.Copy
