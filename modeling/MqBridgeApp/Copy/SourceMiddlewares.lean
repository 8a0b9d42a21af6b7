import MqBridgeApp.Copy.EndpointUri
import MqBridgeApp.Lib.Insertion

/-!
# Middlewares of the copy command

The filter and the counters that a copy adds to its source. A filter and a counter of what was read go just
outside the last `buffer`, which takes nothing between itself and the source. A counter of what was delivered
goes outside everything.
-/

namespace MqBridge.Copy
open Text Insertion

def counterMiddlewareName : Text := "__mq_bridge_app_copy_counter_v1"

/-- The tallies that were handed out, by token. -/
structure CounterRegistry where
  /-- How the factory was registered, the first time that a counter was made. -/
  factoryRegistration : Except Text Unit := .ok ()
  poisoned : Bool := false
  nextToken : UInt64 := 0
  counters : List (UInt64 × UInt64) := []

def isBuffer : Middleware → Bool
  | .other tag _ _ => tag = "buffer"
  | .dlq _ => false

def filterEntry (expression : Text) : Middleware := .other "filter" (.str expression) (by decide)

def counterEntry (token : UInt64) : Middleware :=
  .other "custom"
    (.record [("name", .str counterMiddlewareName), ("config", .record [("token", .num (.ofNat token.toNat))])])
    (by decide)

def insertBeforeBuffer (input : Endpoint) (entry : Middleware) : Endpoint :=
  .mk (insertBeforeLast isBuffer input.middlewares entry) input.endpointType

def newCounter (registry : CounterRegistry) : Except Text (Middleware × UInt64) × CounterRegistry :=
  match registry.factoryRegistration with
  | .error error => (.error error, registry)
  | .ok () =>
    let token := registry.nextToken
    let registry := { registry with nextToken := token + 1 }
    if registry.poisoned then (.error "copy counter registry is poisoned", registry)
    else (.ok (counterEntry token, token),
      { registry with counters := Assoc.insert registry.counters (token, 0) })

structure CopySource where
  input : Endpoint
  registry : CounterRegistry := {}

namespace CopySource

def configureFilter (source : CopySource) (expression : Text) : CopySource :=
  { source with input := insertBeforeBuffer source.input (filterEntry expression) }

/-- Adds the entry of a new counter, if there is one. -/
def withCounter (source : CopySource) (place : Endpoint → Middleware → Endpoint) : Except Text UInt64 × CopySource :=
  match newCounter source.registry with
  | (.ok (entry, token), registry) => (.ok token, { input := place source.input entry, registry })
  | (.error error, registry) => (.error error, { source with registry })

def configureCounter (source : CopySource) : Except Text UInt64 × CopySource := source.withCounter insertBeforeBuffer

def configureDeliveredCounter (source : CopySource) : Except Text UInt64 × CopySource :=
  source.withCounter fun input entry => .mk (input.middlewares.insertIdx 0 entry) input.endpointType

inductive Configure where
  | filter (expression : Text)
  | counter
  | deliveredCounter

def configure (source : CopySource) : Configure → CopySource
  | .filter expression => source.configureFilter expression
  | .counter => source.configureCounter.2
  | .deliveredCounter => source.configureDeliveredCounter.2

/-- What `run_copy` configures, with the tokens of what was copied and of what was read. -/
def configureCopy (source : CopySource) (filter : Option Text) : Except Text (UInt64 × UInt64) × CopySource :=
  match source.configureDeliveredCounter with
  | (.error error, source) => (.error error, source)
  | (.ok copied, source) =>
    let source := filter.elim source source.configureFilter
    match source.configureCounter with
    | (.error error, source) => (.error error, source)
    | (.ok read, source) => (.ok (copied, read), source)

end CopySource

/-! ### What a batch passes

Consumers are wrapped from the last middleware to the first, and a batch comes out of the first. -/

def counterToken : Data → Option UInt64
  | .record fields | .map fields =>
    match fields.lookup ("token" : Text) with
    | some (.num number) => (parseDigits (2 ^ 64) number.text).map UInt64.ofNat
    | _ => none
  | _ => none

def tokenOf : Middleware → Option UInt64
  | .other tag (.record fields) _ =>
    match fields.lookup ("name" : Text), fields.lookup ("config" : Text) with
    | some (.str name), some config =>
      if tag = "custom" ∧ name = counterMiddlewareName then counterToken config else none
    | _, _ => none
  | _ => none

section
variable {α : Type} (pass : Middleware → List α → List α)

/-- What comes out of the middlewares when the source produces a batch. A counter lets all of it pass. -/
def received : List Middleware → List α → List α
  | [], produced => produced
  | middleware :: inner, produced =>
    if (tokenOf middleware).isSome then received inner produced else pass middleware (received inner produced)

def tallied : List Middleware → List α → List (UInt64 × Nat)
  | [], _ => []
  | middleware :: inner, produced =>
    ((tokenOf middleware).map fun token => (token, (received pass inner produced).length)).toList ++
      tallied inner produced

end

/-! ### Where the entries are -/

@[simp] theorem isBuffer_filterEntry (expression : Text) : isBuffer (filterEntry expression) = false := rfl

@[simp] theorem isBuffer_counterEntry (token : UInt64) : isBuffer (counterEntry token) = false := rfl

theorem tokenOf_counterEntry (token : UInt64) : tokenOf (counterEntry token) = some token := by
  have digits : parseDigits (2 ^ 64) (Text.ofNat token.toNat) = some token.toNat := by
    have small := token.toNat_lt
    have nonempty : (Text.ofNat token.toNat).isEmpty = false :=
      List.isEmpty_eq_false_iff.mpr (JsonNumber.ofNat token.toNat).nonempty
    have numeric : (Text.ofNat token.toNat).all Char.isDigit = true :=
      List.all_eq_true.mpr fun c member => isDigit_of_mem_ofNat member
    have value : Nat.ofDigitChars 10 (Text.ofNat token.toNat) 0 = token.toNat := Nat.ofDigitChars_ten_toDigits
    simp [parseDigits, nonempty, numeric, value, small]
  have read : counterToken (.record [("token", .num (.ofNat token.toNat))]) = some token := by
    show (parseDigits (2 ^ 64) (Text.ofNat token.toNat)).map UInt64.ofNat = some token
    rw [digits]
    simp
  exact read

theorem received_counter {α : Type} (pass : Middleware → List α → List α) (token : UInt64) (inner : List Middleware)
    (produced : List α) : received pass (counterEntry token :: inner) produced = received pass inner produced := by
  simp [received, tokenOf_counterEntry]

theorem tallied_counter {α : Type} (pass : Middleware → List α → List α) (token : UInt64)
    (outer inner : List Middleware) (produced : List α) :
    (token, (received pass inner produced).length) ∈ tallied pass (outer ++ counterEntry token :: inner) produced := by
  induction outer with
  | nil => simp [tallied, tokenOf_counterEntry]
  | cons middleware outer ih => exact List.mem_append_right _ ih

theorem newCounter_ok {registry next : CounterRegistry} {given : Middleware × UInt64}
    (made : newCounter registry = (.ok given, next)) : given.1 = counterEntry given.2 := by
  unfold newCounter at made
  split at made
  · cases made
  · dsimp only at made
    split at made <;> cases made
    rfl

theorem newCounter_plain {registry next : CounterRegistry} {given : Middleware × UInt64}
    (made : newCounter registry = (.ok given, next)) : isBuffer given.1 = false := by
  rw [newCounter_ok made]
  rfl

namespace CopySource

/-- The entries of a run of calls: those at the front, and those before the last buffer. -/
def placed : CounterRegistry → List Configure → List Middleware × List Middleware
  | _, [] => ([], [])
  | registry, .filter expression :: rest =>
    ((placed registry rest).1, filterEntry expression :: (placed registry rest).2)
  | registry, .counter :: rest =>
    match newCounter registry with
    | (.ok (entry, _), registry) => ((placed registry rest).1, entry :: (placed registry rest).2)
    | (.error _, registry) => placed registry rest
  | registry, .deliveredCounter :: rest =>
    match newCounter registry with
    | (.ok (entry, _), registry) => ((placed registry rest).1 ++ [entry], (placed registry rest).2)
    | (.error _, registry) => placed registry rest

section
variable {source next : CopySource} {middlewares : List Middleware}

/-- A source whose middlewares are those of another with entries at the front and before the last buffer. -/
def Extends (source : CopySource) (front inserted middlewares : List Middleware) : Prop :=
  source.input.middlewares = front ++ beforeLast isBuffer middlewares ++ inserted ++ fromLast isBuffer middlewares

theorem extends_self (source : CopySource) : Extends source [] [] source.input.middlewares := by
  simp [Extends, beforeLast_append_fromLast]

theorem Extends.trans {front inserted front' inserted' : List Middleware}
    (frontPlain : ∀ entry ∈ front, isBuffer entry = false) (insertedPlain : ∀ entry ∈ inserted, isBuffer entry = false)
    (first : Extends source front inserted middlewares)
    (second : Extends next front' inserted' source.input.middlewares) :
    Extends next (front' ++ front) (inserted ++ inserted') middlewares := by
  obtain ⟨before, after⟩ := @fromLast_insert _ isBuffer front inserted middlewares frontPlain insertedPlain
  unfold Extends at first second ⊢
  rw [second, first, before, after]
  simp

theorem extends_insertBeforeBuffer (input : Endpoint) (registry : CounterRegistry) (entry : Middleware) :
    Extends { input := insertBeforeBuffer input entry, registry } [] [entry] input.middlewares := by
  show insertBeforeLast isBuffer input.middlewares entry = _
  rw [insertBeforeLast_eq]
  simp

theorem extends_front (input : Endpoint) (registry : CounterRegistry) (entry : Middleware) :
    Extends { input := .mk (input.middlewares.insertIdx 0 entry) input.endpointType, registry } [entry] []
      input.middlewares := by
  show input.middlewares.insertIdx 0 entry = _
  simp [beforeLast_append_fromLast]

theorem extends_configureAll (source : CopySource) (calls : List Configure) :
    Extends (calls.foldl configure source) (placed source.registry calls).1 (placed source.registry calls).2
      source.input.middlewares := by
  induction calls generalizing source with
  | nil => exact extends_self source
  | cons call rest ih =>
    rw [List.foldl_cons]
    have later := ih (source.configure call)
    cases call with
    | filter expression =>
      have first := extends_insertBeforeBuffer source.input source.registry (filterEntry expression)
      have both := first.trans (by simp) (by simp) later
      simpa [placed, configure, configureFilter] using both
    | counter =>
      unfold placed
      simp only [configure, configureCounter, withCounter] at later ⊢
      cases made : newCounter source.registry with
      | mk outcome registry =>
        cases outcome with
        | error error => simpa [made] using later
        | ok given =>
          have plain := newCounter_plain made
          have first := extends_insertBeforeBuffer source.input registry given.1
          simp only [made] at later ⊢
          have both := first.trans (by simp) (by simpa using plain) later
          simpa using both
    | deliveredCounter =>
      unfold placed
      simp only [configure, configureDeliveredCounter, withCounter] at later ⊢
      cases made : newCounter source.registry with
      | mk outcome registry =>
        cases outcome with
        | error error => simpa [made] using later
        | ok given =>
          have plain := newCounter_plain made
          have first := extends_front source.input registry given.1
          simp only [made] at later ⊢
          have both := first.trans (by simpa using plain) (by simp) later
          simpa using both

theorem withCounter_made {place : Endpoint → Middleware → Endpoint} {token : UInt64}
    (made : source.withCounter place = (.ok token, next)) :
    ∃ entry, newCounter source.registry = (.ok (entry, token), next.registry) ∧ next.input = place source.input entry := by
  unfold withCounter at made
  cases counter : newCounter source.registry with
  | mk outcome registry =>
    cases outcome with
    | error error => simp [counter] at made
    | ok given =>
      simp only [counter, Prod.mk.injEq, Except.ok.injEq] at made
      obtain ⟨rfl, rfl⟩ := made
      exact ⟨given.1, rfl, rfl⟩

theorem withCounter_ok {place : Endpoint → Middleware → Endpoint} {token : UInt64}
    (made : source.withCounter place = (.ok token, next)) : next.input = place source.input (counterEntry token) := by
  obtain ⟨entry, counter, input⟩ := withCounter_made made
  obtain rfl : entry = counterEntry token := newCounter_ok counter
  exact input

theorem extends_filter (source : CopySource) (filter : Option Text) :
    Extends (filter.elim source source.configureFilter) [] (filter.map filterEntry).toList
      source.input.middlewares := by
  cases filter with
  | none => exact extends_self source
  | some expression => exact extends_insertBeforeBuffer source.input source.registry (filterEntry expression)

theorem placed_entries (registry : CounterRegistry) (calls : List Configure) :
    (∀ entry ∈ (placed registry calls).1, ∃ token, entry = counterEntry token) ∧
      ∀ entry ∈ (placed registry calls).2, isBuffer entry = false := by
  induction calls generalizing registry with
  | nil => simp [placed]
  | cons call rest ih =>
    cases call with
    | filter expression => simpa [placed] using ih registry
    | counter =>
      unfold placed
      split
      · next made => simpa [newCounter_plain made] using ih _
      · exact ih _
    | deliveredCounter =>
      unfold placed
      split
      · next entry token registry made =>
        obtain ⟨counters, plain⟩ := ih registry
        refine ⟨fun placedEntry member => ?_, plain⟩
        rcases List.mem_append.mp member with earlier | here
        · exact counters placedEntry earlier
        · exact ⟨token, (List.mem_singleton.mp here).trans (newCounter_ok made)⟩
      · exact ih _

/-- The counters of a copy are around everything, and next to the source or its last buffer. -/
theorem configureCopy_middlewares {filter : Option Text} {copied read : UInt64}
    (configured : source.configureCopy filter = (.ok (copied, read), next)) :
    next.input.middlewares = counterEntry copied :: (beforeLast isBuffer source.input.middlewares ++
      (filter.map filterEntry).toList ++ counterEntry read :: fromLast isBuffer source.input.middlewares) := by
  unfold configureCopy at configured
  split at configured
  · cases configured
  next copiedToken around delivered =>
  dsimp only at configured
  split at configured
  · cases configured
  next readToken inside counted =>
  simp only [Prod.mk.injEq, Except.ok.injEq] at configured
  obtain ⟨⟨rfl, rfl⟩, rfl⟩ := configured
  have outside := extends_front source.input around.registry (counterEntry copiedToken)
  have filtered := extends_filter around filter
  have innermost := extends_insertBeforeBuffer (filter.elim around around.configureFilter).input inside.registry
    (counterEntry readToken)
  have outsideEq := withCounter_ok delivered
  have innermostEq := withCounter_ok counted
  rw [show (⟨_, around.registry⟩ : CopySource) = around by rw [← outsideEq]] at outside
  rw [show (⟨_, inside.registry⟩ : CopySource) = inside by rw [← innermostEq]] at innermost
  have both := outside.trans (by simp) (by simp) filtered
  have all := both.trans (by simp) (by simp) innermost
  unfold Extends at all
  simpa using all

end

end CopySource

/-- After any calls the middlewares of the source are in their order, with the counters of what was delivered
at the front and the other entries just before the last buffer. A copy counts as delivered what comes out of
all middlewares, and as read what comes out of that buffer, or of the source. -/
theorem source_middlewares_kept (source : CopySource) (calls : List CopySource.Configure) (filter : Option Text) :
    let middlewares := source.input.middlewares
    let after := (calls.foldl CopySource.configure source).input.middlewares
    let placed := CopySource.placed source.registry calls
    (after = placed.1 ++ beforeLast isBuffer middlewares ++ placed.2 ++ fromLast isBuffer middlewares ∧
        middlewares.Sublist after ∧ fromLast isBuffer after = fromLast isBuffer middlewares ∧
        ∀ entry ∈ placed.1, ∃ token, entry = counterEntry token) ∧
      ∀ copied read copy, source.configureCopy filter = (.ok (copied, read), copy) →
        copy.input.middlewares = counterEntry copied :: (beforeLast isBuffer middlewares ++
            (filter.map filterEntry).toList ++ counterEntry read :: fromLast isBuffer middlewares) ∧
          ∀ {α : Type} (pass : Middleware → List α → List α) (produced : List α),
            (copied, (received pass copy.input.middlewares produced).length) ∈
                tallied pass copy.input.middlewares produced ∧
              (read, (received pass (fromLast isBuffer middlewares) produced).length) ∈
                tallied pass copy.input.middlewares produced := by
  have extended := CopySource.extends_configureAll source calls
  obtain ⟨counters, plain⟩ := CopySource.placed_entries source.registry calls
  have frontPlain : ∀ entry ∈ (CopySource.placed source.registry calls).1, isBuffer entry = false := by
    intro entry member
    obtain ⟨token, rfl⟩ := counters entry member
    exact isBuffer_counterEntry token
  refine ⟨⟨extended, ?order, ?buffer, counters⟩, fun copied read copy configured => ?copy⟩
  case order =>
    have both := List.Sublist.append
      (List.sublist_append_right (CopySource.placed source.registry calls).1 (beforeLast isBuffer source.input.middlewares))
      (List.sublist_append_right (CopySource.placed source.registry calls).2 (fromLast isBuffer source.input.middlewares))
    rw [beforeLast_append_fromLast, ← List.append_assoc] at both
    rw [extended]
    exact both
  case buffer =>
    rw [extended]
    exact (fromLast_insert frontPlain plain).2
  case copy =>
    have middlewares := CopySource.configureCopy_middlewares configured
    refine ⟨middlewares, fun pass produced => ⟨?_, ?_⟩⟩
    · rw [middlewares, received_counter]
      exact tallied_counter pass copied [] _ produced
    · rw [middlewares, ← List.cons_append]
      exact tallied_counter pass read _ _ produced

def bufferEntry : Middleware := .other "buffer" (.record []) (by decide)

def transformEntry : Middleware := .other "transform" (.record []) (by decide)

def bufferedSource : CopySource where
  input := .mk [transformEntry, bufferEntry, transformEntry, bufferEntry] .null

def bufferedCopy : CopySource := (bufferedSource.configureCopy (some "amount > 10")).2

theorem source_middlewares_kept_buffered : bufferedCopy.input.middlewares =
    [counterEntry 0, transformEntry, bufferEntry, transformEntry, filterEntry "amount > 10", counterEntry 1,
      bufferEntry] :=
  ((source_middlewares_kept bufferedSource [] (some "amount > 10")).2 0 1 bufferedCopy rfl).1

end MqBridge.Copy
