import MqBridgeApp.Copy.LoggedSecrets
import MqBridgeApp.Lib.Assoc
import MqBridgeApp.Lib.Fallible
import MqBridgeApp.Lib.Lists

/-!
# Branches of structural URIs

The parameters of `fanout:`, `request:` and `switch:` are endpoint URIs themselves. An accepted one keeps
each of them once and in order, except that a `switch:` lets a repeated `default`, `metadata_key` or
`case.<value>` replace the earlier one.
-/

namespace MqBridge.Copy
open Text Fallible

/-- The parameters of a `switch:`. -/
inductive SwitchKey where
  | metadataKey
  | when_
  | to_
  | default
  | case_ (value : Text)
  | unknown
  deriving DecidableEq

def switchKey (key : Text) : SwitchKey :=
  if key = "metadata_key" then .metadataKey
  else if key = "when" then .when_
  else if key = "to" then .to_
  else if key = "default" then .default
  else match stripPrefix "case." key with
    | some value => .case_ value
    | none => .unknown

namespace SwitchKey

def isCase : SwitchKey → Bool
  | .case_ _ => true
  | _ => false

def isSingle : SwitchKey → Bool
  | .metadataKey | .default | .case_ _ => true
  | _ => false

def isBranch : SwitchKey → Bool
  | .to_ | .default | .case_ _ => true
  | _ => false

end SwitchKey

section
variable {bound : Nat}

def keyed (pairs : List (QueryPair bound)) (key : SwitchKey) : List (QueryPair bound) :=
  pairs.filter fun pair => switchKey pair.key = key

def named (pairs : List (QueryPair bound)) (key : Text) : List (QueryPair bound) := pairs.filter fun pair => pair.key = key

/-- Conditions and endpoints do not alternate, or a condition is left over. -/
def unpaired : Bool → List (QueryPair bound) → Bool
  | pending, [] => pending
  | pending, pair :: rest =>
    match switchKey pair.key with
    | .when_ => pending || unpaired true rest
    | .to_ => !pending || unpaired false rest
    | _ => unpaired pending rest

/-! ### What is kept -/

variable (names : QueryPair bound → Endpoint → Prop)

/-- A mirrored branch is wrapped. -/
inductive BranchOf : QueryPair bound → Endpoint → Prop where
  | to_ {pair : QueryPair bound} {branch : Endpoint} (key : pair.key = "to") (named : names pair branch) : BranchOf pair branch
  | mirror {pair : QueryPair bound} {branch : Endpoint} (key : pair.key = "mirror") (named : names pair branch) :
      BranchOf pair (discardingRequest branch)

inductive AtMostOne : List (QueryPair bound) → Option Endpoint → Prop where
  | absent : AtMostOne [] none
  | given {pair : QueryPair bound} {endpoint : Endpoint} (named : names pair endpoint) : AtMostOne [pair] (some endpoint)

/-- The endpoints that conditions lead to, between a condition that waits before and one that waits after. -/
inductive WhenTo : Option Text → List (QueryPair bound) → List (Text × Endpoint) → Option Text → Prop where
  | done (pending : Option Text) : WhenTo pending [] [] pending
  | when_ {pair : QueryPair bound} {rest : List (QueryPair bound)} {when_ : List (Text × Endpoint)} {last : Option Text}
      (key : switchKey pair.key = .when_) (tail : WhenTo (some pair.value) rest when_ last) :
      WhenTo none (pair :: rest) when_ last
  | to_ {condition : Text} {pair : QueryPair bound} {rest : List (QueryPair bound)} {endpoint : Endpoint}
      {when_ : List (Text × Endpoint)} {last : Option Text} (key : switchKey pair.key = .to_) (named : names pair endpoint)
      (tail : WhenTo none rest when_ last) : WhenTo (some condition) (pair :: rest) ((condition, endpoint) :: when_) last
  | other {pending : Option Text} {pair : QueryPair bound} {rest : List (QueryPair bound)} {when_ : List (Text × Endpoint)}
      {last : Option Text} (key : switchKey pair.key ≠ .when_) (key' : switchKey pair.key ≠ .to_)
      (tail : WhenTo pending rest when_ last) : WhenTo pending (pair :: rest) when_ last

structure RequestOf (pairs : List (QueryPair bound)) (to_ forwardTo : Endpoint) : Prop where
  known : ∀ pair ∈ pairs, pair.key = "to" ∨ pair.key = "forward_to"
  to_ : AtMostOne names (named pairs "to") (some to_)
  forwardTo : ∃ given, AtMostOne names (named pairs "forward_to") given ∧ forwardTo = given.getD (.new .null)

structure SwitchOf (pairs : List (QueryPair bound)) (metadataKey : Text) (cases when_ : List (Text × Endpoint))
    (default : Option Endpoint) : Prop where
  known : ∀ pair ∈ pairs, switchKey pair.key ≠ .unknown
  once : ∀ key : SwitchKey, key.isSingle = true → (keyed pairs key).length ≤ 1
  keyOf : metadataKey = ((keyed pairs .metadataKey).head?.map QueryPair.value).getD []
  casesOf : ∃ listed : List (Text × Endpoint), listed.Perm cases ∧
    List.Forall₂ (fun pair case_ => switchKey pair.key = .case_ case_.1 ∧ names pair case_.2)
      (pairs.filter fun pair => (switchKey pair.key).isCase) listed
  whenOf : WhenTo names none pairs when_ none
  defaultOf : AtMostOne names (keyed pairs .default) default
  exclusive : when_ ≠ [] → keyed pairs .metadataKey = [] ∧ cases = []
  branches : when_ = [] → keyed pairs .metadataKey ≠ [] ∧ cases ≠ []

end

section
variable (services : UriServices)

/-- Each branch of a structural URI is in its endpoint once, in the order written. -/
def KeepsBranches (uri : Text) (endpoint : Endpoint) : Prop :=
  ∀ parsed, services.parseUrl (baseSegment uri) = .ok parsed →
    (parsed.scheme = "fanout" → ∃ branches, endpoint.endpointType = .fanout branches ∧ branches ≠ [] ∧
      List.Forall₂ (BranchOf fun pair branch => endpointFromUri services pair.value = .ok branch) parsed.queryPairs branches) ∧
    (parsed.scheme = "request" → ∃ to_ forwardTo, endpoint.endpointType = .request to_ forwardTo ∧
      RequestOf (fun pair branch => endpointFromUri services pair.value = .ok branch) parsed.queryPairs to_ forwardTo) ∧
    (parsed.scheme = "switch" → ∃ metadataKey cases when_ default,
      endpoint.endpointType = .switch metadataKey cases when_ default ∧
      SwitchOf (fun pair branch => endpointFromUri services pair.value = .ok branch) parsed.queryPairs metadataKey cases when_
        default)

def isBranchParam (scheme key : Text) : Bool :=
  (scheme == ("fanout" : Text) && (key == ("to" : Text) || key == ("mirror" : Text))) ||
    (scheme == ("request" : Text) && (key == ("to" : Text) || key == ("forward_to" : Text))) ||
    (scheme == ("switch" : Text) && (switchKey key).isBranch)

/-- A URI inside another one, at any depth. -/
inductive NestedUri : Text → Text → Prop where
  | here (uri : Text) : NestedUri uri uri
  | inside {uri deep : Text} {parsed : ParsedUri (baseSegment uri).length} {pair : QueryPair (baseSegment uri).length}
      (read : services.parseUrl (baseSegment uri) = .ok parsed) (member : pair ∈ parsed.queryPairs)
      (branch : isBranchParam parsed.scheme pair.key = true) (rest : NestedUri pair.value deep) : NestedUri uri deep

/-- A switch with a second value for a parameter that has one. -/
def RepeatsParam (uri : Text) : Prop :=
  ∃ parsed, services.parseUrl (baseSegment uri) = .ok parsed ∧ parsed.scheme = "switch" ∧
    ∃ key : SwitchKey, key.isSingle = true ∧ 2 ≤ (keyed parsed.queryPairs key).length

/-- The query of a structural URI has a flaw, other than what a `switch:` repeats. -/
inductive Flawed {bound : Nat} (parsed : ParsedUri bound) : Prop where
  | fanoutUnknown (scheme : parsed.scheme = "fanout") {pair : QueryPair bound} (member : pair ∈ parsed.queryPairs)
      (key : pair.key ≠ "to" ∧ pair.key ≠ "mirror")
  | fanoutEmpty (scheme : parsed.scheme = "fanout") (empty : parsed.queryPairs = [])
  | requestUnknown (scheme : parsed.scheme = "request") {pair : QueryPair bound} (member : pair ∈ parsed.queryPairs)
      (key : pair.key ≠ "to" ∧ pair.key ≠ "forward_to")
  | requestEmpty (scheme : parsed.scheme = "request") (empty : named parsed.queryPairs "to" = [])
  | requestRepeated (scheme : parsed.scheme = "request") {key : Text} (known : key = "to" ∨ key = "forward_to")
      (repeated : 2 ≤ (named parsed.queryPairs key).length)
  | switchUnknown (scheme : parsed.scheme = "switch") {pair : QueryPair bound} (member : pair ∈ parsed.queryPairs)
      (key : switchKey pair.key = .unknown)
  | switchUnpaired (scheme : parsed.scheme = "switch") (flaw : unpaired false parsed.queryPairs = true)
  | switchMixed (scheme : parsed.scheme = "switch") {pair other : QueryPair bound} (member : pair ∈ parsed.queryPairs)
      (predicate : switchKey pair.key = .when_ ∨ switchKey pair.key = .to_) (member' : other ∈ parsed.queryPairs)
      (lookup : switchKey other.key = .metadataKey ∨ (switchKey other.key).isCase = true)
  | switchEmpty (scheme : parsed.scheme = "switch")
      (empty : ∀ pair ∈ parsed.queryPairs, switchKey pair.key ≠ .to_ ∧ (switchKey pair.key).isCase = false)

end

/-! ### Fanout and request -/

theorem withContext_ok {α : Type} {message : ErrorMessage} {result : Except Rejection α} {a : α} :
    withContext message result = .ok a ↔ result = .ok a := by
  cases result <;> simp [withContext]

section
variable {bound : Nat} {uri : Text} {nested : (value : Text) → value.length < bound → Except Rejection Endpoint}

theorem nestedEndpoint_ok {pair : QueryPair bound} {endpoint : Endpoint} :
    nestedEndpoint uri nested pair = .ok endpoint ↔ nested pair.value pair.shorter = .ok endpoint :=
  withContext_ok

theorem fanoutBranches_ok {pairs : List (QueryPair bound)} {before after : List Endpoint}
    (run : pairs.foldlM (fanoutBranch uri nested) before = .ok after) :
    ∃ added, after = before ++ added ∧
      List.Forall₂ (BranchOf fun pair branch => nested pair.value pair.shorter = .ok branch) pairs added := by
  induction run using foldlM_induction with
  | nil =>
    exact ⟨[], (List.append_nil _).symm, .nil⟩
  | cons pair rest before next step _ ih =>
    obtain ⟨added, rfl, each⟩ := ih
    unfold fanoutBranch at step
    split at step
    · next key =>
      obtain ⟨branch, named, rfl⟩ := map_ok.mp step
      exact ⟨branch :: added, by simp, .cons (.to_ key (nestedEndpoint_ok.mp named)) each⟩
    · split at step
      · next key =>
        obtain ⟨branch, named, rfl⟩ := map_ok.mp step
        exact ⟨discardingRequest branch :: added, by simp, .cons (.mirror key (nestedEndpoint_ok.mp named)) each⟩
      · cases step

def BranchFilled (names : QueryPair bound → Endpoint → Prop) (before : Option Endpoint) (given : List (QueryPair bound))
    (after : Option Endpoint) : Prop :=
  match before with
  | some endpoint => given = [] ∧ after = some endpoint
  | none => AtMostOne names given after

theorem named_cons_self {pair : QueryPair bound} {key : Text} (same : pair.key = key) (rest : List (QueryPair bound)) :
    named (pair :: rest) key = pair :: named rest key := List.filter_cons_of_pos (by simpa using same)

theorem named_cons_other {pair : QueryPair bound} {key : Text} (other : pair.key ≠ key) (rest : List (QueryPair bound)) :
    named (pair :: rest) key = named rest key := List.filter_cons_of_neg (by simpa using other)

theorem requestParams_ok {pairs : List (QueryPair bound)} {before after : RequestParams}
    (run : pairs.foldlM (requestParam uri nested) before = .ok after) :
    (∀ pair ∈ pairs, pair.key = "to" ∨ pair.key = "forward_to") ∧
      BranchFilled (fun pair branch => nested pair.value pair.shorter = .ok branch) before.to_ (named pairs "to") after.to_ ∧
      BranchFilled (fun pair branch => nested pair.value pair.shorter = .ok branch) before.forwardTo (named pairs "forward_to")
        after.forwardTo := by
  induction run using foldlM_induction with
  | nil =>
    have untouched : ∀ slot : Option Endpoint,
        BranchFilled (fun pair branch => nested pair.value pair.shorter = .ok branch) slot [] slot := by
      rintro (_ | endpoint)
      · exact .absent
      · exact ⟨rfl, rfl⟩
    exact ⟨nofun, untouched _, untouched _⟩
  | cons pair rest before next step _ ih =>
    obtain ⟨known, to_, forwardTo⟩ := ih
    unfold requestParam at step
    split at step
    · next key =>
      split at step
      · cases step
      · next free =>
        obtain ⟨branch, named_, rfl⟩ := map_ok.mp step
        obtain ⟨empty, filled⟩ := to_
        rw [Option.not_isSome_iff_eq_none] at free
        refine ⟨List.forall_mem_cons.mpr ⟨.inl key, known⟩, ?_, ?_⟩
        · rw [free, named_cons_self key, empty, filled]
          exact .given (nestedEndpoint_ok.mp named_)
        · rw [named_cons_other (by rw [key]; decide)]
          exact forwardTo
    · split at step
      · next other key =>
        split at step
        · cases step
        · next free =>
          obtain ⟨branch, named_, rfl⟩ := map_ok.mp step
          obtain ⟨empty, filled⟩ := forwardTo
          rw [Option.not_isSome_iff_eq_none] at free
          refine ⟨List.forall_mem_cons.mpr ⟨.inr key, known⟩, ?_, ?_⟩
          · rw [named_cons_other other]
            exact to_
          · rw [free, named_cons_self key, empty, filled]
            exact .given (nestedEndpoint_ok.mp named_)
      · cases step

theorem requestEndpoint_ok {pairs : List (QueryPair bound)} {endpoint : Endpoint}
    (accepted : requestEndpoint uri nested pairs = .ok endpoint) :
    ∃ to_ forwardTo, endpoint.endpointType = .request to_ forwardTo ∧
      RequestOf (fun pair branch => nested pair.value pair.shorter = .ok branch) pairs to_ forwardTo := by
  obtain ⟨params, run, built⟩ := bind_ok.mp accepted
  obtain ⟨known, to_, forwardTo⟩ := requestParams_ok run
  split at built
  · cases built
  · next endpoint given =>
    obtain rfl := Except.ok.inj built
    exact ⟨endpoint, _, rfl, known, given ▸ to_, _, forwardTo, rfl⟩

theorem fanoutEndpoint_ok {pairs : List (QueryPair bound)} {endpoint : Endpoint}
    (accepted : fanoutEndpoint uri nested pairs = .ok endpoint) :
    ∃ branches, endpoint.endpointType = .fanout branches ∧ branches ≠ [] ∧
      List.Forall₂ (BranchOf fun pair branch => nested pair.value pair.shorter = .ok branch) pairs branches := by
  obtain ⟨branches, run, built⟩ := bind_ok.mp accepted
  obtain ⟨added, same, each⟩ := fanoutBranches_ok run
  rw [List.nil_append] at same
  subst same
  split at built
  · cases built
  · next some_ =>
    obtain rfl := Except.ok.inj built
    exact ⟨branches, rfl, by simpa using some_, each⟩

/-! ### Switch -/

/-- What one parameter does to a switch. -/
theorem switchParam_cases {params next : SwitchParams} {pair : QueryPair bound}
    (step : switchParam uri nested params pair = .ok next) :
    (switchKey pair.key = .metadataKey ∧ next = { params with metadataKey := some pair.value }) ∨
      (switchKey pair.key = .when_ ∧ params.condition = none ∧ next = { params with condition := some pair.value }) ∨
      ∃ endpoint, nested pair.value pair.shorter = .ok endpoint ∧
        ((switchKey pair.key = .to_ ∧ ∃ condition, params.condition = some condition ∧
            next = { params with condition := none, when_ := params.when_ ++ [(condition, endpoint)] }) ∨
          (switchKey pair.key = .default ∧ next = { params with default := some endpoint }) ∨
          ∃ value, switchKey pair.key = .case_ value ∧
            next = { params with cases := Assoc.insert params.cases (value, endpoint) }) := by
  unfold switchParam at step
  unfold switchKey
  split at step
  · next key => exact .inl ⟨if_pos key, (Except.ok.inj step).symm⟩
  · next notKey =>
    rw [if_neg notKey]
    split at step
    · next key =>
      split at step
      · cases step
      · next free => exact .inr (.inl ⟨if_pos key, free, (Except.ok.inj step).symm⟩)
    · next notWhen =>
      rw [if_neg notWhen]
      split at step
      · next key =>
        split at step
        · cases step
        · next condition pending =>
          obtain ⟨endpoint, named_, rfl⟩ := map_ok.mp step
          exact .inr (.inr ⟨endpoint, nestedEndpoint_ok.mp named_, .inl ⟨if_pos key, condition, pending, rfl⟩⟩)
      · next notTo =>
        rw [if_neg notTo]
        split at step
        · next key =>
          obtain ⟨endpoint, named_, rfl⟩ := map_ok.mp step
          exact .inr (.inr ⟨endpoint, nestedEndpoint_ok.mp named_, .inr (.inl ⟨if_pos key, rfl⟩)⟩)
        · next notDefault =>
          rw [if_neg notDefault]
          cases found : stripPrefix "case." pair.key with
          | some value =>
            rw [found] at step
            obtain ⟨endpoint, named_, rfl⟩ := map_ok.mp step
            exact .inr (.inr ⟨endpoint, nestedEndpoint_ok.mp named_, .inr (.inr ⟨value, rfl, rfl⟩)⟩)
          | none =>
            rw [found] at step
            cases step

/-- What the parameters of a switch have set, one after the other. -/
structure SwitchRun (names : QueryPair bound → Endpoint → Prop) (before : SwitchParams) (pairs : List (QueryPair bound))
    (after : SwitchParams) : Prop where
  known : ∀ pair ∈ pairs, switchKey pair.key ≠ .unknown
  each : ∀ pair ∈ pairs, (switchKey pair.key).isBranch = true → ∃ endpoint, names pair endpoint
  metadataKey : after.metadataKey = ((keyed pairs .metadataKey).getLast?.map QueryPair.value).or before.metadataKey
  when_ : ∃ added, after.when_ = before.when_ ++ added ∧ WhenTo names before.condition pairs added after.condition
  default : (keyed pairs .default = [] ∧ after.default = before.default) ∨
    ∃ pair endpoint, (keyed pairs .default).getLast? = some pair ∧ names pair endpoint ∧ after.default = some endpoint
  cases : ∃ writes, after.cases = Assoc.insertAll before.cases writes ∧
    List.Forall₂ (fun pair case_ => switchKey pair.key = .case_ case_.1 ∧ names pair case_.2)
      (pairs.filter fun pair => (switchKey pair.key).isCase) writes

theorem WhenTo.trans {names : QueryPair bound → Endpoint → Prop} {first middle last : Option Text}
    {pairs pairs' : List (QueryPair bound)} {when_ when_' : List (Text × Endpoint)}
    (front : WhenTo names first pairs when_ middle) (back : WhenTo names middle pairs' when_' last) :
    WhenTo names first (pairs ++ pairs') (when_ ++ when_') last := by
  induction front with
  | done pending => exact back
  | when_ key _ ih => exact .when_ key (ih back)
  | to_ key named _ ih => exact .to_ key named (ih back)
  | other key key' _ ih => exact .other key key' (ih back)

theorem keyed_append (pairs pairs' : List (QueryPair bound)) (key : SwitchKey) :
    keyed (pairs ++ pairs') key = keyed pairs key ++ keyed pairs' key := List.filter_append _ _

theorem SwitchRun.trans {names : QueryPair bound → Endpoint → Prop} {before middle after : SwitchParams}
    {pairs pairs' : List (QueryPair bound)} (front : SwitchRun names before pairs middle)
    (back : SwitchRun names middle pairs' after) : SwitchRun names before (pairs ++ pairs') after where
  known pair member := (List.mem_append.mp member).elim (front.known pair) (back.known pair)
  each pair member := (List.mem_append.mp member).elim (front.each pair) (back.each pair)
  metadataKey := by
    rw [back.metadataKey, front.metadataKey, keyed_append, List.getLast?_append, Option.map_or, Option.or_assoc]
  when_ := by
    obtain ⟨added, same, pending⟩ := front.when_
    obtain ⟨added', same', pending'⟩ := back.when_
    exact ⟨added ++ added', by rw [same', same, List.append_assoc], pending.trans pending'⟩
  default := by
    rw [keyed_append]
    rcases back.default with ⟨none_, same⟩ | ⟨pair, endpoint, last, named, same⟩
    · rw [none_, List.append_nil, same]
      exact front.default
    · refine .inr ⟨pair, endpoint, ?_, named, same⟩
      rw [List.getLast?_append, last, Option.some_or]
  cases := by
    obtain ⟨writes, same, listed⟩ := front.cases
    obtain ⟨writes', same', listed'⟩ := back.cases
    refine ⟨writes ++ writes', ?_, ?_⟩
    · rw [same', same, Assoc.insertAll, Assoc.insertAll, Assoc.insertAll, List.foldl_append]
    · rw [List.filter_append]
      exact List.rel_append listed listed'

theorem switchRun_step {params next : SwitchParams} {pair : QueryPair bound}
    (step : switchParam uri nested params pair = .ok next) :
    SwitchRun (fun pair branch => nested pair.value pair.shorter = .ok branch) params [pair] next := by
  rcases switchParam_cases step with ⟨key, rfl⟩ | ⟨key, free, rfl⟩ |
    ⟨endpoint, named_, ⟨key, condition, pends, rfl⟩ | ⟨key, rfl⟩ | ⟨value, key, rfl⟩⟩
  · exact
      { known := by simp [key]
        each := by simp [key, SwitchKey.isBranch]
        metadataKey := by simp [keyed, key]
        when_ := ⟨[], by simp, .other (by simp [key]) (by simp [key]) (.done _)⟩
        default := .inl ⟨by simp [keyed, key], rfl⟩
        cases := ⟨[], rfl, by simp [key, SwitchKey.isCase]⟩ }
  · exact
      { known := by simp [key]
        each := by simp [key, SwitchKey.isBranch]
        metadataKey := by simp [keyed, key]
        when_ := ⟨[], by simp, by rw [free]; exact .when_ key (.done _)⟩
        default := .inl ⟨by simp [keyed, key], rfl⟩
        cases := ⟨[], rfl, by simp [key, SwitchKey.isCase]⟩ }
  · exact
      { known := by simp [key]
        each := List.forall_mem_singleton.mpr fun _ => ⟨endpoint, named_⟩
        metadataKey := by simp [keyed, key]
        when_ := ⟨[(condition, endpoint)], rfl, by rw [pends]; exact .to_ key named_ (.done _)⟩
        default := .inl ⟨by simp [keyed, key], rfl⟩
        cases := ⟨[], rfl, by simp [key, SwitchKey.isCase]⟩ }
  · exact
      { known := by simp [key]
        each := List.forall_mem_singleton.mpr fun _ => ⟨endpoint, named_⟩
        metadataKey := by simp [keyed, key]
        when_ := ⟨[], by simp, .other (by simp [key]) (by simp [key]) (.done _)⟩
        default := .inr ⟨pair, endpoint, by simp [keyed, key], named_, rfl⟩
        cases := ⟨[], rfl, by simp [key, SwitchKey.isCase]⟩ }
  · exact
      { known := by simp [key]
        each := List.forall_mem_singleton.mpr fun _ => ⟨endpoint, named_⟩
        metadataKey := by simp [keyed, key]
        when_ := ⟨[], by simp, .other (by simp [key]) (by simp [key]) (.done _)⟩
        default := .inl ⟨by simp [keyed, key], rfl⟩
        cases := ⟨[(value, endpoint)], rfl, by simp [key, SwitchKey.isCase, named_]⟩ }

theorem switchRun_ok {pairs : List (QueryPair bound)} {before after : SwitchParams}
    (run : pairs.foldlM (switchParam uri nested) before = .ok after) :
    SwitchRun (fun pair branch => nested pair.value pair.shorter = .ok branch) before pairs after := by
  induction run using foldlM_induction with
  | nil =>
    exact
      { known := nofun
        each := nofun
        metadataKey := rfl
        when_ := ⟨[], (List.append_nil _).symm, .done _⟩
        default := .inl ⟨rfl, rfl⟩
        cases := ⟨[], rfl, .nil⟩ }
  | cons pair rest before next step _ ih => exact (switchRun_step step).trans ih

theorem WhenTo.unpaired {names : QueryPair bound → Endpoint → Prop} {first last : Option Text}
    {pairs : List (QueryPair bound)} {when_ : List (Text × Endpoint)} (whenTo : WhenTo names first pairs when_ last) :
    unpaired first.isSome pairs = last.isSome := by
  induction whenTo with
  | done pending => rfl
  | when_ key _ ih => simpa [Copy.unpaired, key] using ih
  | to_ key _ _ ih => simpa [Copy.unpaired, key] using ih
  | other key key' _ ih =>
    rw [Copy.unpaired]
    split
    · next same => exact absurd same key
    · next same => exact absurd same key'
    · exact ih

theorem WhenTo.empty_iff {names : QueryPair bound → Endpoint → Prop} {first last : Option Text}
    {pairs : List (QueryPair bound)} {when_ : List (Text × Endpoint)} (whenTo : WhenTo names first pairs when_ last) :
    when_ = [] ↔ ∀ pair ∈ pairs, switchKey pair.key ≠ .to_ := by
  induction whenTo with
  | done pending => simp
  | when_ key _ ih => simpa [key] using ih
  | to_ key _ _ ih => simp [key]
  | other key key' _ ih => simpa [key'] using ih

/-- A condition that is not followed by an endpoint is left over. -/
theorem WhenTo.left_over {names : QueryPair bound → Endpoint → Prop} {first last : Option Text}
    {pairs : List (QueryPair bound)} (whenTo : WhenTo names first pairs [] last)
    (condition : first.isSome = true ∨ ∃ pair ∈ pairs, switchKey pair.key = .when_) : last.isSome = true := by
  generalize empty : ([] : List (Text × Endpoint)) = when_ at whenTo
  induction whenTo with
  | done pending =>
    rcases condition with waits | ⟨pair, member, -⟩
    · exact waits
    · cases member
  | when_ key _ ih => exact ih (.inl rfl) empty
  | to_ => cases empty
  | other key _ _ ih =>
    refine ih (condition.imp_right ?_) empty
    rintro ⟨pair, member, same⟩
    rcases List.mem_cons.mp member with rfl | inside
    · exact absurd same key
    · exact ⟨pair, inside, same⟩

theorem keyed_cons_self {pair : QueryPair bound} {key : SwitchKey} (same : switchKey pair.key = key)
    (rest : List (QueryPair bound)) : keyed (pair :: rest) key = pair :: keyed rest key :=
  List.filter_cons_of_pos (by simpa using same)

theorem keyed_cons_other {pair : QueryPair bound} {key : SwitchKey} (other : switchKey pair.key ≠ key)
    (rest : List (QueryPair bound)) : keyed (pair :: rest) key = keyed rest key :=
  List.filter_cons_of_neg (by simpa using other)

theorem keyed_case_length {pairs : List (QueryPair bound)} {writes : List (Text × Endpoint)}
    (listed : List.Forall₂ (fun pair case_ => switchKey pair.key = .case_ case_.1)
      (pairs.filter fun pair => (switchKey pair.key).isCase) writes) (value : Text) :
    (keyed pairs (.case_ value)).length = (writes.map Prod.fst).count value := by
  have cases_ : keyed pairs (.case_ value) = keyed (pairs.filter fun pair => (switchKey pair.key).isCase) (.case_ value) := by
    rw [keyed, keyed, List.filter_filter]
    refine List.filter_congr fun pair _ => ?_
    by_cases same : switchKey pair.key = .case_ value
    · simp [same, SwitchKey.isCase]
    · simp [same]
  rw [cases_]
  generalize (pairs.filter fun pair => (switchKey pair.key).isCase) = given at listed
  induction listed with
  | nil => rfl
  | @cons pair case_ rest writes each _ ih =>
    rw [List.map_cons, List.count_cons, ← ih]
    by_cases same : case_.1 = value
    · rw [keyed_cons_self (each.trans (congrArg _ same))]
      simp [same]
    · rw [keyed_cons_other (by rw [each]; simpa using same)]
      simp [same]

/-- The switch of a URI, as its parameters have set it. -/
theorem switchEndpoint_ok {pairs : List (QueryPair bound)} {endpoint : Endpoint}
    (accepted : switchEndpoint uri nested pairs = .ok endpoint) :
    ∃ params : SwitchParams, SwitchRun (fun pair branch => nested pair.value pair.shorter = .ok branch) {} pairs params ∧
      endpoint.endpointType = .switch (params.metadataKey.getD []) params.cases params.when_ params.default ∧
      params.condition = none ∧ (params.when_ ≠ [] → params.metadataKey = none ∧ params.cases = []) ∧
      (params.when_ = [] → params.metadataKey.isSome = true ∧ params.cases ≠ []) := by
  obtain ⟨params, run, built⟩ := bind_ok.mp accepted
  refine ⟨params, switchRun_ok run, ?_⟩
  split at built
  · cases built
  · next settled =>
    split at built
    · cases built
    · next unmixed =>
      split at built
      · cases built
      · next keyed_ =>
        split at built
        · cases built
        · next some_ =>
          obtain rfl := Except.ok.inj built
          refine ⟨rfl, settled, fun predicates => ?_, fun lookup => ?_⟩
          · simpa [predicates] using unmixed
          · rw [lookup] at keyed_ some_
            simp only [List.isEmpty_nil, Bool.true_and, Option.isNone_iff_eq_none, List.isEmpty_iff] at keyed_ some_
            exact ⟨Option.isSome_iff_ne_none.mpr keyed_, some_⟩

theorem switchOf_iff {pairs : List (QueryPair bound)} {endpoint : Endpoint}
    (accepted : switchEndpoint uri nested pairs = .ok endpoint) :
    (∃ metadataKey cases when_ default, endpoint.endpointType = .switch metadataKey cases when_ default ∧
      SwitchOf (fun pair branch => nested pair.value pair.shorter = .ok branch) pairs metadataKey cases when_ default) ↔
      ∀ key : SwitchKey, key.isSingle = true → (keyed pairs key).length ≤ 1 := by
  constructor
  · rintro ⟨_, _, _, _, -, kept⟩
    exact kept.once
  · intro once
    obtain ⟨params, run, built, settled, exclusive, branches⟩ := switchEndpoint_ok accepted
    obtain ⟨added, same, whenOf⟩ := run.when_
    obtain ⟨writes, written, listed⟩ := run.cases
    have lasts := run.metadataKey
    rw [← Lists.head_eq_getLast (once .metadataKey rfl), Option.or_none] at lasts
    rw [List.nil_append] at same
    rw [settled, ← same] at whenOf
    have distinct : ((([] : List (Text × Endpoint)) ++ writes).map Prod.fst).Nodup := by
      rw [List.nil_append, List.nodup_iff_count_le_one]
      intro value
      rw [← keyed_case_length (listed.imp fun _ _ case_ => case_.1)]
      exact once (.case_ value) rfl
    rw [Assoc.insertAll_of_nodup distinct, List.nil_append] at written
    refine ⟨_, _, _, _, built,
      { known := run.known
        once
        keyOf := by rw [lasts]
        casesOf := ⟨writes, by rw [written], listed⟩
        whenOf
        defaultOf := ?_
        exclusive := fun predicates => ?_
        branches := fun lookup => ?_ }⟩
    · rcases run.default with ⟨none_, unset⟩ | ⟨pair, branch, last, named_, set_⟩
      · rw [none_, unset]
        exact .absent
      · rw [set_]
        rw [← Lists.head_eq_getLast (once .default rfl), List.head?_eq_some_iff] at last
        obtain ⟨rest, whole⟩ := last
        have few := once .default rfl
        rw [whole] at few ⊢
        obtain rfl : rest = [] := by simpa using few
        exact .given named_
    · obtain ⟨unset, none_⟩ := exclusive predicates
      rw [lasts, Option.map_eq_none_iff, List.head?_eq_none_iff] at unset
      exact ⟨unset, none_⟩
    · obtain ⟨set_, some_⟩ := branches lookup
      refine ⟨fun none_ => ?_, some_⟩
      rw [lasts, none_] at set_
      cases set_

end

/-! ### Whole URIs -/

section
variable {services : UriServices} {uri : Text} {endpoint : Endpoint}

theorem endpointFromUri_ok (accepted : endpointFromUri services uri = .ok endpoint) :
    ∃ parsed base, services.parseUrl (baseSegment uri) = .ok parsed ∧
      parsedEndpoint services (baseSegment uri) parsed (fun value _ => endpointFromUri services value) = .ok base ∧
      endpoint.endpointType = base.endpointType := by
  rw [endpointFromUri] at accepted
  obtain ⟨base, built, extended⟩ := bind_ok.mp accepted
  obtain ⟨middlewares, -, rfl⟩ := map_ok.mp extended
  obtain ⟨parsed, read, built⟩ := bind_ok.mp built
  refine ⟨parsed, base, ?_, built, rfl⟩
  rw [withContext_ok] at read
  cases result : services.parseUrl (baseSegment uri) with
  | error error => rw [result] at read; cases read
  | ok other => rw [result] at read; exact congrArg _ (Except.ok.inj read)

section
variable {bound : Nat} {uri : Text} {parsed : ParsedUri bound}
variable {nested : (value : Text) → value.length < bound → Except Rejection Endpoint}

theorem parsedEndpoint_fanout (scheme : parsed.scheme = "fanout") :
    parsedEndpoint services uri parsed nested = fanoutEndpoint uri nested parsed.queryPairs := by
  simp +decide [parsedEndpoint, scheme]

theorem parsedEndpoint_request (scheme : parsed.scheme = "request") :
    parsedEndpoint services uri parsed nested = requestEndpoint uri nested parsed.queryPairs := by
  simp +decide [parsedEndpoint, scheme]

theorem parsedEndpoint_switch (scheme : parsed.scheme = "switch") :
    parsedEndpoint services uri parsed nested = switchEndpoint uri nested parsed.queryPairs := by
  simp +decide [parsedEndpoint, scheme]

end

theorem keepsBranches_iff (accepted : endpointFromUri services uri = .ok endpoint) :
    KeepsBranches services uri endpoint ↔ ¬RepeatsParam services uri := by
  obtain ⟨parsed, base, read, built, sameType⟩ := endpointFromUri_ok accepted
  constructor
  · rintro kept ⟨parsed', read', scheme, key, single, repeated⟩
    obtain ⟨_, _, _, _, -, switchOf⟩ := (kept parsed' read').2.2 scheme
    have few := switchOf.once key single
    omega
  · intro once parsed' read'
    obtain rfl := Except.ok.inj (read.symm.trans read')
    refine ⟨fun scheme => ?_, fun scheme => ?_, fun scheme => ?_⟩
    · rw [parsedEndpoint_fanout scheme] at built
      rw [sameType]
      exact fanoutEndpoint_ok built
    · rw [parsedEndpoint_request scheme] at built
      rw [sameType]
      exact requestEndpoint_ok built
    · rw [parsedEndpoint_switch scheme] at built
      rw [sameType]
      refine (switchOf_iff built).mpr fun key single => ?_
      by_contra many
      exact once ⟨parsed, read, scheme, key, single, by omega⟩

theorem AtMostOne.each {bound : Nat} {names : QueryPair bound → Endpoint → Prop} {given : List (QueryPair bound)}
    {slot : Option Endpoint} (one : AtMostOne names given slot) : ∀ pair ∈ given, ∃ endpoint, names pair endpoint := by
  cases one with
  | absent => exact nofun
  | given named => exact List.forall_mem_singleton.mpr ⟨_, named⟩

/-- Every branch of an accepted URI is accepted. -/
theorem branch_accepted (accepted : endpointFromUri services uri = .ok endpoint)
    {parsed : ParsedUri (baseSegment uri).length} (read : services.parseUrl (baseSegment uri) = .ok parsed)
    {pair : QueryPair (baseSegment uri).length} (member : pair ∈ parsed.queryPairs)
    (branch : isBranchParam parsed.scheme pair.key = true) : ∃ inner, endpointFromUri services pair.value = .ok inner := by
  obtain ⟨parsed', base, read', built, -⟩ := endpointFromUri_ok accepted
  obtain rfl := Except.ok.inj (read.symm.trans read')
  simp only [isBranchParam, Bool.or_eq_true, Bool.and_eq_true, beq_iff_eq] at branch
  rcases branch with (⟨scheme, -⟩ | ⟨scheme, keys⟩) | ⟨scheme, key⟩
  · rw [parsedEndpoint_fanout scheme] at built
    obtain ⟨branches, -, -, each⟩ := fanoutEndpoint_ok built
    obtain ⟨inner, -, named⟩ := Lists.exists_of_forall₂ each member
    cases named with
    | to_ _ accepted => exact ⟨_, accepted⟩
    | mirror _ accepted => exact ⟨_, accepted⟩
  · rw [parsedEndpoint_request scheme] at built
    obtain ⟨to_, forwardTo, -, kept⟩ := requestEndpoint_ok built
    obtain ⟨given, forward, -⟩ := kept.forwardTo
    rcases keys with key | key
    · exact kept.to_.each pair (List.mem_filter.mpr ⟨member, by simpa using key⟩)
    · exact forward.each pair (List.mem_filter.mpr ⟨member, by simpa using key⟩)
  · rw [parsedEndpoint_switch scheme] at built
    obtain ⟨params, run, -⟩ := switchEndpoint_ok built
    exact run.each pair member key

theorem nested_accepted {deep : Text} (nested : NestedUri services uri deep)
    (accepted : endpointFromUri services uri = .ok endpoint) : ∃ inner, endpointFromUri services deep = .ok inner := by
  induction nested generalizing endpoint with
  | here uri => exact ⟨endpoint, accepted⟩
  | inside read member branch _ ih =>
    obtain ⟨inner, accepted⟩ := branch_accepted accepted read member branch
    exact ih accepted

/-- A flawed query is not accepted. -/
theorem flawed_rejected {parsed : ParsedUri (baseSegment uri).length}
    (read : services.parseUrl (baseSegment uri) = .ok parsed) (flawed : Flawed parsed) :
    ∃ rejection, endpointFromUri services uri = .error rejection := by
  cases result : endpointFromUri services uri with
  | error rejection => exact ⟨rejection, rfl⟩
  | ok endpoint =>
    exfalso
    obtain ⟨parsed', base, read', built, -⟩ := endpointFromUri_ok result
    obtain rfl := Except.ok.inj (read.symm.trans read')
    cases flawed with
    | fanoutUnknown scheme member key =>
      rw [parsedEndpoint_fanout scheme] at built
      obtain ⟨branches, -, -, each⟩ := fanoutEndpoint_ok built
      obtain ⟨inner, -, named⟩ := Lists.exists_of_forall₂ each member
      cases named with
      | to_ same => exact key.1 same
      | mirror same => exact key.2 same
    | fanoutEmpty scheme empty =>
      rw [parsedEndpoint_fanout scheme] at built
      obtain ⟨branches, -, some_, each⟩ := fanoutEndpoint_ok built
      rw [empty] at each
      cases each
      exact some_ rfl
    | requestUnknown scheme member key =>
      rw [parsedEndpoint_request scheme] at built
      obtain ⟨to_, forwardTo, -, kept⟩ := requestEndpoint_ok built
      rcases kept.known _ member with same | same
      · exact key.1 same
      · exact key.2 same
    | requestEmpty scheme empty =>
      rw [parsedEndpoint_request scheme] at built
      obtain ⟨to_, forwardTo, -, kept⟩ := requestEndpoint_ok built
      have one := kept.to_
      rw [empty] at one
      cases one
    | requestRepeated scheme known repeated =>
      rw [parsedEndpoint_request scheme] at built
      obtain ⟨to_, forwardTo, -, kept⟩ := requestEndpoint_ok built
      obtain ⟨given, forward, -⟩ := kept.forwardTo
      have few : ∀ {pairs : List (QueryPair (baseSegment uri).length)} {slot : Option Endpoint},
          AtMostOne (fun pair branch => endpointFromUri services pair.value = .ok branch) pairs slot → pairs.length ≤ 1 := by
        rintro _ _ (_ | _) <;> simp
      rcases known with rfl | rfl
      · exact absurd (few kept.to_) (by omega)
      · exact absurd (few forward) (by omega)
    | switchUnknown scheme member key =>
      rw [parsedEndpoint_switch scheme] at built
      obtain ⟨params, run, -⟩ := switchEndpoint_ok built
      exact run.known _ member key
    | switchUnpaired scheme flaw =>
      rw [parsedEndpoint_switch scheme] at built
      obtain ⟨params, run, -, settled, -⟩ := switchEndpoint_ok built
      obtain ⟨added, -, whenTo⟩ := run.when_
      have paired := whenTo.unpaired
      rw [settled] at paired
      exact absurd (paired.symm.trans flaw) (by decide)
    | switchMixed scheme member predicate member' lookup =>
      rw [parsedEndpoint_switch scheme] at built
      obtain ⟨params, run, -, settled, exclusive, -⟩ := switchEndpoint_ok built
      obtain ⟨added, same, whenTo⟩ := run.when_
      rw [List.nil_append] at same
      have predicates : params.when_ ≠ [] := by
        intro empty
        rw [← same, empty] at whenTo
        rcases predicate with when_ | to_
        · have waits := whenTo.left_over (.inr ⟨_, member, when_⟩)
          rw [settled] at waits
          cases waits
        · exact whenTo.empty_iff.mp rfl _ member to_
      obtain ⟨unset, none_⟩ := exclusive predicates
      rcases lookup with key | case_
      · rw [run.metadataKey, Option.or_none, Option.map_eq_none_iff, List.getLast?_eq_none_iff] at unset
        have inside : _ ∈ keyed parsed.queryPairs .metadataKey := List.mem_filter.mpr ⟨member', by simpa using key⟩
        rw [unset] at inside
        cases inside
      · obtain ⟨writes, written, listed⟩ := run.cases
        have lengths := listed.length_eq
        rw [Assoc.insertAll_eq_nil (written.symm.trans none_), List.length_nil, List.length_eq_zero_iff] at lengths
        have inside : _ ∈ parsed.queryPairs.filter fun pair => (switchKey pair.key).isCase :=
          List.mem_filter.mpr ⟨member', case_⟩
        rw [lengths] at inside
        cases inside
    | switchEmpty scheme empty =>
      rw [parsedEndpoint_switch scheme] at built
      obtain ⟨params, run, -, -, -, branches⟩ := switchEndpoint_ok built
      obtain ⟨added, same, whenTo⟩ := run.when_
      obtain ⟨writes, written, listed⟩ := run.cases
      rw [whenTo.empty_iff.mpr fun pair member => (empty pair member).1] at same
      have none_ : (parsed.queryPairs.filter fun pair => (switchKey pair.key).isCase) = [] :=
        List.filter_eq_nil_iff.mpr fun pair member => by simp [(empty pair member).2]
      rw [none_] at listed
      cases listed
      exact (branches same).2 written

/-- An accepted URI keeps its branches at every depth when no switch in it repeats a parameter with one value. Any
other flaw is rejected. -/
theorem branches_kept_iff (services : UriServices) (uri : Text) :
    (∀ endpoint, endpointFromUri services uri = .ok endpoint →
      ((∀ deep inner, NestedUri services uri deep → endpointFromUri services deep = .ok inner →
          KeepsBranches services deep inner) ↔ ∀ deep, NestedUri services uri deep → ¬RepeatsParam services deep)) ∧
      ∀ parsed, services.parseUrl (baseSegment uri) = .ok parsed → Flawed parsed →
        ∃ rejection, endpointFromUri services uri = .error rejection := by
  refine ⟨fun endpoint accepted => ⟨fun kept deep nested => ?_, fun once deep inner nested accepted => ?_⟩,
    fun parsed read flawed => flawed_rejected read flawed⟩
  · obtain ⟨inner, accepted⟩ := nested_accepted nested accepted
    exact (keepsBranches_iff accepted).mp (kept deep inner nested accepted)
  · exact (keepsBranches_iff accepted).mpr (once deep nested)

end

def twoDefaults : Text := "switch:?metadata_key=k&case.a=null:&default=response:&default=null:"

theorem null_accepted : endpointFromUri natsServices "null:" = .ok (.new .null) := by
  rw [endpointFromUri]
  rfl

theorem response_accepted : endpointFromUri natsServices "response:" = .ok (.new .response) := by
  rw [endpointFromUri]
  rfl

theorem switchEndpoint_replaced {bound : Nat} {uri key first second third : Text} {a b c : Endpoint}
    {nested : (value : Text) → value.length < bound → Except Rejection Endpoint} {hk : key.length < bound}
    {h₁ : first.length < bound} {h₂ : second.length < bound} {h₃ : third.length < bound} (ha : nested first h₁ = .ok a)
    (hb : nested second h₂ = .ok b) (hc : nested third h₃ = .ok c) :
    switchEndpoint uri nested [⟨"metadata_key", key, hk⟩, ⟨"case.a", first, h₁⟩, ⟨"default", second, h₂⟩,
      ⟨"default", third, h₃⟩] = .ok (.new (.switch key [("a", a)] [] (some c))) := by
  have step₁ : switchParam uri nested {} ⟨"metadata_key", key, hk⟩ = .ok { metadataKey := some key } := rfl
  have step₂ : switchParam uri nested { metadataKey := some key } ⟨"case.a", first, h₁⟩ =
      .ok { metadataKey := some key, cases := [("a", a)] } := by
    show (withContext _ (nested first h₁)).map _ = _
    rw [ha]
    rfl
  have step₃ : switchParam uri nested { metadataKey := some key, cases := [("a", a)] } ⟨"default", second, h₂⟩ =
      .ok { metadataKey := some key, cases := [("a", a)], default := some b } := by
    show (withContext _ (nested second h₂)).map _ = _
    rw [hb]
    rfl
  have step₄ : switchParam uri nested { metadataKey := some key, cases := [("a", a)], default := some b }
      ⟨"default", third, h₃⟩ = .ok { metadataKey := some key, cases := [("a", a)], default := some c } := by
    show (withContext _ (nested third h₃)).map _ = _
    rw [hc]
    rfl
  unfold switchEndpoint
  rw [foldlM_cons, step₁, Except.bind, foldlM_cons, step₂, Except.bind, foldlM_cons, step₃, Except.bind, foldlM_cons, step₄]
  rfl

/-- The first default is gone, without an error. -/
theorem first_default_dropped :
    endpointFromUri natsServices twoDefaults = .ok (.new (.switch "k" [("a", .new .null)] [] (some (.new .null)))) ∧
      ¬KeepsBranches natsServices twoDefaults (.new (.switch "k" [("a", .new .null)] [] (some (.new .null)))) := by
  have parsed : natsServices.parseUrl (baseSegment twoDefaults) = .ok ⟨"switch", [], [],
      [⟨"metadata_key", "k", by decide⟩, ⟨"case.a", "null:", by decide⟩, ⟨"default", "response:", by decide⟩,
        ⟨"default", "null:", by decide⟩]⟩ := rfl
  have base : baseEndpointFromUri natsServices (baseSegment twoDefaults) (fun value _ => endpointFromUri natsServices value) =
      .ok (.new (.switch "k" [("a", .new .null)] [] (some (.new .null)))) := by
    unfold baseEndpointFromUri
    rw [parsed]
    exact switchEndpoint_replaced null_accepted response_accepted null_accepted
  have accepted : endpointFromUri natsServices twoDefaults =
      .ok (.new (.switch "k" [("a", .new .null)] [] (some (.new .null)))) := by
    rw [endpointFromUri, base]
    rfl
  refine ⟨accepted, fun kept => (keepsBranches_iff accepted).mp kept ⟨_, parsed, rfl, .default, rfl, ?_⟩⟩
  decide

end MqBridge.Copy
