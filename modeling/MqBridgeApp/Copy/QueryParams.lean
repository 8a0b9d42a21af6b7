import MqBridgeApp.Copy.Branches

/-!
# Parameters of connection URIs

Each parameter of a connection URI is a field of the endpoint's configuration, an option of the driver or the
connection URL itself. The parser accounts for all of them unless one is repeated, one is a value that it drops
without an error, or a file URI has a second path.
-/

namespace MqBridge.Copy
open Text Fallible

/-! ### Configurations -/

section
variable {bound : Nat} (services : UriServices) (uri : Text)

def connectorConfig (tag : Text) (parsed : ParsedUri bound) : Except Rejection (List (Text × Json)) :=
  (parsed.queryPairs.foldlM (connectorParam services uri tag) {}).bind (withConnection services uri tag parsed)

def memoryConfig (parsed : ParsedUri bound) : Except Rejection (List (Text × Json)) :=
  parsed.queryPairs.foldlM (memoryParam uri) [("topic", .str (memoryTopic parsed.host parsed.path))]

/-- The path of a `file:` URI. -/
def filePath : Text := (stripPrefix "file://" (beforeQuery uri)).getD (beforeQuery uri)

def Converts (type : FieldType) (value : Text) (json : Json) : Prop :=
  match type with
  | .bool => (value = "true" ∧ json = .bool true) ∨ (value = "false" ∧ json = .bool false)
  | .integer => ∃ number, parseI64 value = some number ∧ json = .num (.ofInt number)
  | .number => ∃ number, services.parseFloat value = some (.num number) ∧ json = .num number
  | .object => services.parseJson value = .ok json
  | .stringLike => json = .str value

/-- What a parameter of a connector has become in its configuration. -/
inductive Placed (tag : Text) (pairs : List (QueryPair bound)) (config : List (Text × Json)) (pair : QueryPair bound) :
    Prop where
  | field {type : FieldType} {json : Json} (known : (services.endpointFields tag).lookup pair.key = some type)
      (set : config.lookup pair.key = some json) (converts : Converts services type pair.value json)
  | driverOption (takes : driverOptions tag = true)
      (free : (services.endpointFields tag).lookup pair.key = none ∨ (services.endpointFields tag).lookup pair.key = some .object)
      {options : List (Text × Text)}
      (given : options.Sublist (pairs.map fun pair => (pair.key, pair.value))) (member : (pair.key, pair.value) ∈ options)
      (set : config.lookup ("url" : Text) =
        some (.str (driverUrl tag (services.connectionUrl uri (decide (tag ≠ "nats")) options))))
  | connectionUrl (key : pair.key = "url") (takes : tag ≠ "file") (set : config.lookup ("url" : Text) = some (.str pair.value))

inductive MemoryPlaced (config : List (Text × Json)) (pair : QueryPair bound) : Prop where
  | capacity (key : pair.key = "capacity") {number : Nat} (parsed : parseU64 pair.value = some number)
      (set : config.lookup ("capacity" : Text) = some (.num (.ofNat number)))
  | subscribeMode (key : pair.key = "subscribe_mode") {flag : Bool} (parsed : pair.value = if flag then "true" else "false")
      (set : config.lookup ("subscribe_mode" : Text) = some (.bool flag))

end

def directSchemes : List Text := ["null", "static", "response", "fanout", "request", "switch", "memory"]

section
variable (services : UriServices)

/-- The scheme of an endpoint that an extension has registered. -/
def isCustom (scheme : Text) : Bool :=
  scheme ∉ directSchemes && (connectorTag scheme).isNone && services.isRegistered scheme

/-- Every parameter of a connection URI is in its endpoint, and none is given twice. -/
def Accounts (uri : Text) (endpoint : Endpoint) : Prop :=
  ∀ parsed, services.parseUrl (baseSegment uri) = .ok parsed →
    (∀ tag, connectorTag parsed.scheme = some tag → ∃ config,
      connectorConfig services (baseSegment uri) tag parsed = .ok config ∧
      services.buildEndpoint tag config = .ok endpoint.endpointType ∧
      (parsed.queryPairs.map QueryPair.key).Nodup ∧
      ∀ pair ∈ parsed.queryPairs, Placed services (baseSegment uri) tag parsed.queryPairs config pair) ∧
    (parsed.scheme = "memory" → ∃ config, memoryConfig (baseSegment uri) parsed = .ok config ∧
      services.buildEndpoint "memory" config = .ok endpoint.endpointType ∧
      (parsed.queryPairs.map QueryPair.key).Nodup ∧ ∀ pair ∈ parsed.queryPairs, MemoryPlaced config pair) ∧
    (isCustom services parsed.scheme = true → ∃ entries, endpoint.endpointType = .custom parsed.scheme (.textMap entries) ∧
      (parsed.queryPairs.map QueryPair.key).Nodup ∧ ∀ pair ∈ parsed.queryPairs, entries.lookup pair.key = some pair.value)

/-- The path of a file is given once, or twice alike; a number is one that JSON can write. -/
def ParamFits {bound : Nat} (uri tag : Text) (pair : QueryPair bound) : Prop :=
  (tag = "file" ∧ pair.key = "path" → ∃ type, (services.endpointFields tag).lookup pair.key = some type ∧
      Converts services type pair.value (.str (filePath uri))) ∧
    (¬(tag = "file" ∧ pair.key = "path") → ¬(tag ≠ "file" ∧ pair.key = "url") →
      (services.endpointFields tag).lookup pair.key = some .number → ∀ json, services.parseFloat pair.value = some json →
        ∃ number, json = .num number)

def ParamsFit (uri : Text) : Prop :=
  ∀ parsed, services.parseUrl (baseSegment uri) = .ok parsed →
    (∀ tag, connectorTag parsed.scheme = some tag →
      (parsed.queryPairs.map QueryPair.key).Nodup ∧
      ∀ pair ∈ parsed.queryPairs, ParamFits services (baseSegment uri) tag pair) ∧
    (parsed.scheme = "memory" → (parsed.queryPairs.map QueryPair.key).Nodup ∧
      ∀ pair ∈ parsed.queryPairs, (pair.key = "capacity" → (parseU64 pair.value).isSome = true) ∧
        (pair.key = "subscribe_mode" → pair.value = "true" ∨ pair.value = "false")) ∧
    (isCustom services parsed.scheme = true → (parsed.queryPairs.map QueryPair.key).Nodup)

end

/-- What is known of the configuration types: a text is no boolean and no number. -/
def TypeChecked (services : UriServices) : Prop :=
  ∀ {tag config built}, services.buildEndpoint tag config = .ok built → ∀ {key text type},
    config.lookup key = some (.str text) → (services.endpointFields tag).lookup key = some type →
      type = .object ∨ type = .stringLike

/-! ### The loop over the parameters -/

section
variable {services : UriServices} {uri tag : Text} {bound : Nat}

/-- The value that a parameter sets its field to. -/
def fieldValue (services : UriServices) (type : FieldType) (value : Text) (json : Json) : Prop :=
  match type with
  | .object => services.parseJson value = .ok json
  | _ => json = coerceScalar services value type

theorem distinct_apart {pair : QueryPair bound} {rest : List (QueryPair bound)}
    (distinct : ((pair :: rest).map QueryPair.key).Nodup) : ∀ other ∈ rest, other.key ≠ pair.key := by
  intro other member same
  rw [List.map_cons, List.nodup_cons] at distinct
  exact distinct.1 (same ▸ List.mem_map_of_mem member)

theorem distinct_tail {pair : QueryPair bound} {rest : List (QueryPair bound)}
    (distinct : ((pair :: rest).map QueryPair.key).Nodup) : (rest.map QueryPair.key).Nodup :=
  (List.nodup_cons.mp distinct).2

/-- What one parameter does to a connector. -/
theorem connectorParam_cases {params next : ConnectorParams} {pair : QueryPair bound}
    (step : connectorParam services uri tag params pair = .ok next) :
    ((pair.key = "path" ∧ tag = "file") ∧ next = params) ∨
      ((pair.key = "url" ∧ tag ≠ "file") ∧ next = { params with escapedUrl := some pair.value }) ∨
      (¬(pair.key = "path" ∧ tag = "file") ∧ ¬(pair.key = "url" ∧ tag ≠ "file") ∧
        ((∃ type json, (services.endpointFields tag).lookup pair.key = some type ∧ fieldValue services type pair.value json ∧
            next = { params with config := Assoc.insert params.config (pair.key, json) }) ∨
          (driverOptions tag = true ∧
            ((services.endpointFields tag).lookup pair.key = none ∨ (services.endpointFields tag).lookup pair.key = some .object) ∧
            next = { params with driverParams := params.driverParams ++ [(pair.key, pair.value)] }))) := by
  unfold connectorParam at step
  split at step
  · next skipped => exact .inl ⟨skipped, (Except.ok.inj step).symm⟩
  · next notPath =>
    split at step
    · next isUrl => exact .inr (.inl ⟨isUrl, (Except.ok.inj step).symm⟩)
    · next notUrl =>
      refine .inr (.inr ⟨notPath, notUrl, ?_⟩)
      split at step
      · next known =>
        split at step
        · obtain ⟨json, parsed, rfl⟩ := map_ok.mp step
          rw [withContext_ok] at parsed
          refine .inl ⟨.object, json, known, ?_, rfl⟩
          cases result : services.parseJson pair.value with
          | error error => rw [result] at parsed; cases parsed
          | ok other => rw [result] at parsed; exact result.trans (congrArg _ (Except.ok.inj parsed))
        · next option =>
          obtain rfl := Except.ok.inj step
          refine .inr ⟨?_, .inr known, rfl⟩
          simp only [Bool.or_eq_true, Bool.not_eq_true', not_or, Bool.not_eq_false] at option
          exact option.1
      · next unknown =>
        split at step
        · next takes => exact .inr ⟨takes, .inl unknown, (Except.ok.inj step).symm⟩
        · cases step
      · next type other known =>
        obtain rfl := Except.ok.inj step
        refine .inl ⟨type, _, known, ?_, rfl⟩
        unfold fieldValue
        split
        · exact absurd rfl other
        · rfl

/-- Where a parameter has gone. -/
inductive Routed (services : UriServices) (tag : Text) (after : ConnectorParams) (pair : QueryPair bound) : Prop where
  | skipped (path : pair.key = "path" ∧ tag = "file")
  | escaped (url : pair.key = "url" ∧ tag ≠ "file") (set : after.escapedUrl = some pair.value)
  | field (notPath : ¬(pair.key = "path" ∧ tag = "file")) (notUrl : ¬(pair.key = "url" ∧ tag ≠ "file")) {type : FieldType}
      {json : Json} (known : (services.endpointFields tag).lookup pair.key = some type)
      (value : fieldValue services type pair.value json) (set : after.config.lookup pair.key = some json)
  | option (takes : driverOptions tag = true)
      (free : (services.endpointFields tag).lookup pair.key = none ∨ (services.endpointFields tag).lookup pair.key = some .object)
      (member : (pair.key, pair.value) ∈ after.driverParams)

/-- What a run over parameters does. Other fields stay, and each parameter is where it belongs when no later one has
its key. -/
structure ConnectorRun (services : UriServices) (tag : Text) (before : ConnectorParams) (pairs : List (QueryPair bound))
    (after : ConnectorParams) : Prop where
  frame : ∀ key, (∀ pair ∈ pairs, pair.key ≠ key) → after.config.lookup key = before.config.lookup key
  url : (∀ pair ∈ pairs, pair.key ≠ "url") → after.escapedUrl = before.escapedUrl
  options : ∃ added : List (Text × Text), after.driverParams = before.driverParams ++ added ∧
    added.Sublist (pairs.map fun pair => (pair.key, pair.value))
  routed : (pairs.map QueryPair.key).Nodup → ∀ pair ∈ pairs, Routed services tag after pair

theorem connectorRun_ok {pairs : List (QueryPair bound)} {before after : ConnectorParams}
    (run : pairs.foldlM (connectorParam services uri tag) before = .ok after) : ConnectorRun services tag before pairs after := by
  induction run using foldlM_induction with
  | nil =>
    exact ⟨fun _ _ => rfl, fun _ => rfl, ⟨[], (List.append_nil _).symm, .slnil⟩, nofun⟩
  | cons pair rest before next step _ ih =>
    obtain ⟨frame, url, ⟨added, options, given⟩, routed⟩ := ih
    rcases connectorParam_cases step with ⟨path, rfl⟩ | ⟨isUrl, rfl⟩ | ⟨notPath, notUrl, ⟨type, json, known, value, rfl⟩ |
      ⟨takes, free, rfl⟩⟩
    · exact
        { frame := fun key absent => frame key (List.forall_mem_cons.mp absent).2
          url := fun absent => url (List.forall_mem_cons.mp absent).2
          options := ⟨added, options, given.cons _⟩
          routed := fun distinct => List.forall_mem_cons.mpr ⟨.skipped path, routed (distinct_tail distinct)⟩ }
    · refine
        { frame := fun key absent => frame key (List.forall_mem_cons.mp absent).2
          url := fun absent => absurd isUrl.1 (absent pair List.mem_cons_self)
          options := ⟨added, options, given.cons _⟩
          routed := fun distinct => List.forall_mem_cons.mpr ⟨.escaped isUrl ?_, routed (distinct_tail distinct)⟩ }
      rw [url fun other member => by rw [← isUrl.1]; exact distinct_apart distinct other member]
    · refine
        { frame := fun key absent => ?_
          url := fun absent => url (List.forall_mem_cons.mp absent).2
          options := ⟨added, options, given.cons _⟩
          routed := fun distinct =>
            List.forall_mem_cons.mpr ⟨.field notPath notUrl known value ?_, routed (distinct_tail distinct)⟩ }
      · obtain ⟨here, others⟩ := List.forall_mem_cons.mp absent
        rw [frame key others, Assoc.lookup_insert_other (Ne.symm here)]
      · rw [frame pair.key (distinct_apart distinct), Assoc.lookup_insert_self]
    · refine
        { frame := fun key absent => frame key (List.forall_mem_cons.mp absent).2
          url := fun absent => url (List.forall_mem_cons.mp absent).2
          options := ⟨(pair.key, pair.value) :: added, ?_, given.cons_cons _⟩
          routed := fun distinct => List.forall_mem_cons.mpr ⟨.option takes free ?_, routed (distinct_tail distinct)⟩ }
      · rw [options, List.append_assoc]
        rfl
      · rw [options]
        simp

/-! ### The connection -/

theorem lookup_withConsume {config : List (Text × Json)} {key : Text} {json : Json} (set : config.lookup key = some json) :
    (withConsume tag config).lookup key = some json := by
  unfold withConsume
  split
  · next absent => exact Assoc.lookup_insert_free (Option.isNone_iff_eq_none.mp absent.2.1) set _
  · exact set

theorem withConnection_file {parsed : ParsedUri bound} {params : ConnectorParams} {config : List (Text × Json)}
    (isFile : tag = "file") (accepted : withConnection services uri tag parsed params = .ok config) :
    config = Assoc.insert (withConsume tag params.config) ("path", .str (filePath uri)) := by
  unfold withConnection at accepted
  simp only [isFile, if_true] at accepted
  split at accepted
  · cases accepted
  · rw [isFile]
    exact (Except.ok.inj accepted).symm

theorem withConnection_escaped {parsed : ParsedUri bound} {params : ConnectorParams} {config : List (Text × Json)} {url : Text}
    (other : tag ≠ "file") (escaped : params.escapedUrl = some url)
    (accepted : withConnection services uri tag parsed params = .ok config) :
    params.driverParams = [] ∧ config = Assoc.insert (withConsume tag params.config) ("url", .str url) := by
  unfold withConnection at accepted
  simp only [other, if_false, escaped] at accepted
  split at accepted
  · cases accepted
  · next none_ => exact ⟨none_, (Except.ok.inj accepted).symm⟩

theorem withConnection_plain {parsed : ParsedUri bound} {params : ConnectorParams} {config : List (Text × Json)}
    (other : tag ≠ "file") (plain : params.escapedUrl = none)
    (accepted : withConnection services uri tag parsed params = .ok config) :
    (∀ key json, params.config.lookup key = some json → key ≠ "url" → config.lookup key = some json) ∧
      (tag ≠ "aws" → config.lookup ("url" : Text) =
        some (.str (driverUrl tag (services.connectionUrl uri (decide (tag ≠ "nats")) params.driverParams)))) := by
  unfold withConnection at accepted
  simp only [other, if_false, plain] at accepted
  obtain rfl := Except.ok.inj accepted
  constructor
  · intro key json set notUrl
    have consumed : (withConsume tag params.config).lookup key = some json := lookup_withConsume set
    have subject : ∀ path : Text, (if tag = "nats" ∧ ¬path.isEmpty ∧
          ((withConsume tag params.config).lookup ("subject" : Text)).isNone then
        Assoc.insert (withConsume tag params.config) ("subject", .str path) else withConsume tag params.config).lookup key =
          some json := by
      intro path
      split
      · next absent => exact Assoc.lookup_insert_free (Option.isNone_iff_eq_none.mp absent.2.2) consumed _
      · exact consumed
    split
    · exact subject _
    · rw [Assoc.lookup_insert_other notUrl]
      exact subject _
  · intro notAws
    rw [if_neg notAws, Assoc.lookup_insert_self]

theorem buildFromUri_ok {config : List (Text × Json)} {base : Endpoint}
    (accepted : buildFromUri services tag uri config = .ok base) :
    services.buildEndpoint tag config = .ok base.endpointType := by
  obtain ⟨built, ok, rfl⟩ := map_ok.mp accepted
  rw [withContext_ok] at ok
  cases result : services.buildEndpoint tag config with
  | error error => rw [result] at ok; cases ok
  | ok other => rw [result] at ok; exact congrArg _ (Except.ok.inj ok)

/-- What is accepted for a field is a value of its type, unless a number is none that JSON can write. -/
theorem converts_of_fieldValue (typed : TypeChecked services) {config : List (Text × Json)} {built : EndpointType}
    (accepted : services.buildEndpoint tag config = .ok built) {key value : Text} {type : FieldType} {json : Json}
    (known : (services.endpointFields tag).lookup key = some type) (field : fieldValue services type value json)
    (set : config.lookup key = some json)
    (finite : type = .number → ∀ json, services.parseFloat value = some json → ∃ number, json = .num number) :
    Converts services type value json := by
  have noText : ∀ text, json = .str text → type = .object ∨ type = .stringLike := fun text same =>
    typed accepted (same ▸ set) known
  cases type with
  | object => exact field
  | stringLike => exact field
  | bool =>
    simp only [fieldValue, coerceScalar] at field
    split at field
    · next yes => exact .inl ⟨yes, field⟩
    · split at field
      · next no => exact .inr ⟨no, field⟩
      · rcases noText value field with wrong | wrong <;> cases wrong
  | integer =>
    simp only [fieldValue, coerceScalar] at field
    cases parsed : parseI64 value with
    | none =>
      rw [parsed] at field
      rcases noText value field with wrong | wrong <;> cases wrong
    | some number =>
      rw [parsed] at field
      exact ⟨number, parsed, field⟩
  | number =>
    simp only [fieldValue, coerceScalar] at field
    cases parsed : services.parseFloat value with
    | none =>
      rw [parsed] at field
      rcases noText value field with wrong | wrong <;> cases wrong
    | some other =>
      rw [parsed] at field
      obtain ⟨number, rfl⟩ := finite rfl other parsed
      exact ⟨number, parsed, field⟩

theorem placed_of_fits (typed : TypeChecked services) {parsed : ParsedUri bound} {config : List (Text × Json)}
    {built : EndpointType} (configured : connectorConfig services uri tag parsed = .ok config)
    (accepted : services.buildEndpoint tag config = .ok built) (distinct : (parsed.queryPairs.map QueryPair.key).Nodup)
    {pair : QueryPair bound} (member : pair ∈ parsed.queryPairs) (fits : ParamFits services uri tag pair) :
    Placed services uri tag parsed.queryPairs config pair := by
  obtain ⟨params, run, connected⟩ := bind_ok.mp configured
  have ran := connectorRun_ok run
  cases ran.routed distinct pair member with
  | skipped path =>
    obtain ⟨type, known, converts⟩ := fits.1 ⟨path.2, path.1⟩
    refine .field known ?_ converts
    rw [withConnection_file path.2 connected, path.1, Assoc.lookup_insert_self]
  | escaped url set =>
    refine .connectionUrl url.1 url.2 ?_
    rw [(withConnection_escaped url.2 set connected).2, Assoc.lookup_insert_self]
  | @field notPath notUrl type json known value set =>
    have stays : config.lookup pair.key = some json := by
      by_cases isFile : tag = "file"
      · have other : pair.key ≠ "path" := fun same => notPath ⟨same, isFile⟩
        rw [withConnection_file isFile connected, Assoc.lookup_insert_other other]
        exact lookup_withConsume set
      · have other : pair.key ≠ "url" := fun same => notUrl ⟨same, isFile⟩
        cases escaped : params.escapedUrl with
        | some url =>
          rw [(withConnection_escaped isFile escaped connected).2, Assoc.lookup_insert_other other]
          exact lookup_withConsume set
        | none => exact (withConnection_plain isFile escaped connected).1 _ _ set other
    refine .field known stays (converts_of_fieldValue typed accepted known value stays ?_)
    rintro rfl
    exact fits.2 (fun path => notPath path.symm) (fun url => notUrl url.symm) known
  | option takes free inside =>
    have notFile : tag ≠ "file" := by
      rintro rfl
      exact absurd takes (by decide)
    have notAws : tag ≠ "aws" := by
      rintro rfl
      exact absurd takes (by decide)
    obtain ⟨added, same, given⟩ := ran.options
    rw [List.nil_append] at same
    cases escaped : params.escapedUrl with
    | some url =>
      rw [(withConnection_escaped notFile escaped connected).1] at inside
      cases inside
    | none =>
      exact .driverOption takes free (same ▸ given) inside ((withConnection_plain notFile escaped connected).2 notAws)

theorem fits_of_placed {parsed : ParsedUri bound} {config : List (Text × Json)}
    (configured : connectorConfig services uri tag parsed = .ok config) {pair : QueryPair bound}
    (placed : Placed services uri tag parsed.queryPairs config pair) : ParamFits services uri tag pair := by
  obtain ⟨params, -, connected⟩ := bind_ok.mp configured
  constructor
  · rintro ⟨rfl, key⟩
    cases placed with
    | field known set converts =>
      rw [withConnection_file rfl connected, key, Assoc.lookup_insert_self, Option.some.injEq] at set
      subst set
      exact ⟨_, known, converts⟩
    | driverOption takes => exact absurd takes (by decide)
    | connectionUrl _ takes => exact absurd rfl takes
  · intro _ notUrl known json parsedFloat
    cases placed with
    | field known' _ converts =>
      obtain rfl := Option.some.inj (known'.symm.trans known)
      obtain ⟨number, found, -⟩ := converts
      exact ⟨number, Option.some.inj (parsedFloat.symm.trans found)⟩
    | driverOption _ free =>
      rw [known] at free
      rcases free with none_ | object
      · cases none_
      · cases object
    | connectionUrl key takes => exact absurd ⟨takes, key⟩ notUrl

/-! ### Memory -/

structure MemoryRun (before : List (Text × Json)) (pairs : List (QueryPair bound)) (after : List (Text × Json)) : Prop where
  frame : ∀ key, (∀ pair ∈ pairs, pair.key ≠ key) → after.lookup key = before.lookup key
  known : ∀ pair ∈ pairs, pair.key = "capacity" ∨ pair.key = "subscribe_mode"
  capacity : (pairs.map QueryPair.key).Nodup → ∀ pair ∈ pairs, pair.key = "capacity" → ∀ number,
    parseU64 pair.value = some number → after.lookup ("capacity" : Text) = some (.num (.ofNat number))
  subscribeMode : (pairs.map QueryPair.key).Nodup → ∀ pair ∈ pairs, pair.key = "subscribe_mode" →
    after.lookup ("subscribe_mode" : Text) = some (.bool (pair.value == ("true" : Text)))

theorem memoryRun_ok {pairs : List (QueryPair bound)} {before after : List (Text × Json)}
    (run : pairs.foldlM (memoryParam uri) before = .ok after) : MemoryRun before pairs after := by
  induction run using foldlM_induction with
  | nil =>
    exact ⟨fun _ _ => rfl, nofun, nofun, nofun⟩
  | cons pair rest before next step _ ih =>
    obtain ⟨frame, known, capacity, subscribeMode⟩ := ih
    unfold memoryParam at step
    split at step
    · next key =>
      have other : pair.key ≠ "subscribe_mode" := by
        rw [key]
        decide
      obtain rfl := Except.ok.inj step
      refine
        { frame := fun name absent => ?_
          known := List.forall_mem_cons.mpr ⟨.inl key, known⟩
          capacity := fun distinct => List.forall_mem_cons.mpr ⟨fun _ number parsed => ?_, capacity (distinct_tail distinct)⟩
          subscribeMode := fun distinct =>
            List.forall_mem_cons.mpr ⟨fun wrong => absurd wrong other, subscribeMode (distinct_tail distinct)⟩ }
      · obtain ⟨here, others⟩ := List.forall_mem_cons.mp absent
        rw [frame name others]
        cases parseU64 pair.value with
        | none => rfl
        | some number =>
          rw [key] at here
          rw [Option.map_some, Option.getD_some, Assoc.lookup_insert_other (Ne.symm here)]
      · rw [frame "capacity" (by rw [← key]; exact distinct_apart distinct), parsed, Option.map_some, Option.getD_some,
          Assoc.lookup_insert_self]
    · split at step
      · next notCapacity key =>
        obtain rfl := Except.ok.inj step
        refine
          { frame := fun name absent => ?_
            known := List.forall_mem_cons.mpr ⟨.inr key, known⟩
            capacity := fun distinct =>
              List.forall_mem_cons.mpr ⟨fun wrong => absurd wrong notCapacity, capacity (distinct_tail distinct)⟩
            subscribeMode := fun distinct => List.forall_mem_cons.mpr ⟨fun _ => ?_, subscribeMode (distinct_tail distinct)⟩ }
        · obtain ⟨here, others⟩ := List.forall_mem_cons.mp absent
          rw [key] at here
          rw [frame name others, Assoc.lookup_insert_other (Ne.symm here)]
        · rw [frame "subscribe_mode" (by rw [← key]; exact distinct_apart distinct), Assoc.lookup_insert_self]
      · cases step

theorem memory_placed_iff {parsed : ParsedUri bound} {config : List (Text × Json)}
    (configured : memoryConfig uri parsed = .ok config) (distinct : (parsed.queryPairs.map QueryPair.key).Nodup)
    {pair : QueryPair bound} (member : pair ∈ parsed.queryPairs) :
    MemoryPlaced config pair ↔ (pair.key = "capacity" → (parseU64 pair.value).isSome = true) ∧
      (pair.key = "subscribe_mode" → pair.value = "true" ∨ pair.value = "false") := by
  have ran := memoryRun_ok configured
  constructor
  · intro placed
    cases placed with
    | capacity key parsed =>
      refine ⟨fun _ => by rw [parsed]; rfl, fun wrong => ?_⟩
      rw [key] at wrong
      exact absurd wrong (by decide)
    | @subscribeMode key flag parsed =>
      refine ⟨fun wrong => ?_, fun _ => ?_⟩
      · rw [key] at wrong
        exact absurd wrong (by decide)
      · rw [parsed]
        cases flag
        · exact .inr rfl
        · exact .inl rfl
  · rintro ⟨number, flag⟩
    rcases ran.known pair member with key | key
    · obtain ⟨number, parsed⟩ := Option.isSome_iff_exists.mp (number key)
      exact .capacity key parsed (ran.capacity distinct pair member key number parsed)
    · have set := ran.subscribeMode distinct pair member key
      rcases flag key with value | value
      · exact @MemoryPlaced.subscribeMode _ _ _ key true value (by rw [set, value]; rfl)
      · exact @MemoryPlaced.subscribeMode _ _ _ key false value (by rw [set, value]; rfl)

theorem customParams_lookup {pairs : List (QueryPair bound)} {key : Text} (before : CustomParams)
    (absent : ∀ pair ∈ pairs, pair.key ≠ key) :
    ((pairs.foldl customParam before).config.lookup key = before.config.lookup key) ∧
      (key = "url" → (pairs.foldl customParam before).url = before.url) := by
  induction pairs generalizing before with
  | nil => exact ⟨rfl, fun _ => rfl⟩
  | cons pair rest ih =>
    obtain ⟨here, others⟩ := List.forall_mem_cons.mp absent
    obtain ⟨config, url⟩ := ih (customParam before pair) others
    rw [List.foldl_cons]
    refine ⟨config.trans ?_, fun same => (url same).trans ?_⟩
    · unfold customParam
      split
      · rfl
      · rw [Assoc.lookup_insert_other (Ne.symm here)]
    · unfold customParam
      rw [if_neg (by rw [← same]; exact here)]

theorem custom_placed {pairs : List (QueryPair bound)} (distinct : (pairs.map QueryPair.key).Nodup) (before : CustomParams)
    {pair : QueryPair bound} (member : pair ∈ pairs) :
    (Assoc.insert (pairs.foldl customParam before).config ("url", (pairs.foldl customParam before).url)).lookup pair.key =
      some pair.value := by
  rw [Assoc.lookup_insert]
  induction pairs generalizing before with
  | nil => cases member
  | cons first rest ih =>
    rw [List.foldl_cons]
    rcases List.mem_cons.mp member with rfl | later
    · obtain ⟨config, url⟩ := customParams_lookup (customParam before pair) (distinct_apart distinct)
      by_cases isUrl : pair.key = "url"
      · rw [if_pos (by simpa using isUrl), url isUrl, customParam, if_pos isUrl]
      · rw [if_neg (by simpa using isUrl), config, customParam, if_neg isUrl, Assoc.lookup_insert_self]
    · exact ih (distinct_tail distinct) _ later

end

/-! ### Whole URIs -/

section
variable {services : UriServices}

theorem connectorTag_direct {scheme : Text} (direct : scheme ∈ directSchemes) : connectorTag scheme = none := by
  simp only [directSchemes, List.mem_cons, List.not_mem_nil, or_false] at direct
  rcases direct with rfl | rfl | rfl | rfl | rfl | rfl | rfl <;> decide

section
variable {bound : Nat} {uri : Text} {parsed : ParsedUri bound}
variable {nested : (value : Text) → value.length < bound → Except Rejection Endpoint}

theorem parsedEndpoint_indirect (indirect : parsed.scheme ∉ directSchemes) :
    parsedEndpoint services uri parsed nested =
      match connectorTag parsed.scheme with
      | some tag => connectorEndpoint services uri tag parsed
      | none =>
        if services.isRegistered parsed.scheme then .ok (customEndpoint uri parsed.scheme parsed)
        else reject (.scheme parsed.scheme) uri [] := by
  simp only [directSchemes, List.mem_cons, List.not_mem_nil, or_false, not_or] at indirect
  obtain ⟨null, static, response, fanout, request, switch, memory⟩ := indirect
  unfold parsedEndpoint
  cases connectorTag parsed.scheme <;>
    exact (if_neg null).trans ((if_neg static).trans ((if_neg response).trans ((if_neg fanout).trans
      ((if_neg request).trans ((if_neg switch).trans (if_neg memory))))))

theorem parsedEndpoint_connector {tag : Text} (connector : connectorTag parsed.scheme = some tag) :
    parsedEndpoint services uri parsed nested = connectorEndpoint services uri tag parsed := by
  have indirect : parsed.scheme ∉ directSchemes := by
    intro direct
    rw [connectorTag_direct direct] at connector
    cases connector
  rw [parsedEndpoint_indirect indirect, connector]

theorem parsedEndpoint_memory (scheme : parsed.scheme = "memory") :
    parsedEndpoint services uri parsed nested = memoryEndpoint services uri parsed := by
  simp +decide [parsedEndpoint, scheme]

theorem parsedEndpoint_custom (custom : isCustom services parsed.scheme = true) :
    parsedEndpoint services uri parsed nested = .ok (customEndpoint uri parsed.scheme parsed) := by
  simp only [isCustom, Bool.and_eq_true, decide_eq_true_eq, Option.isNone_iff_eq_none] at custom
  obtain ⟨⟨indirect, none_⟩, registered⟩ := custom
  rw [parsedEndpoint_indirect indirect, none_, if_pos registered]

end

/-- An accepted connection URI accounts for its parameters exactly when they fit. -/
theorem accounts_iff_paramsFit (typed : TypeChecked services) {uri : Text} {endpoint : Endpoint}
    (accepted : endpointFromUri services uri = .ok endpoint) : Accounts services uri endpoint ↔ ParamsFit services uri := by
  obtain ⟨parsed, base, read, built, sameType⟩ := endpointFromUri_ok accepted
  constructor
  · intro accounts parsed' read'
    obtain rfl := Except.ok.inj (read.symm.trans read')
    obtain ⟨connectors, memory, custom⟩ := accounts parsed read
    refine ⟨fun tag connector => ?_, fun scheme => ?_, fun isCustom => ?_⟩
    · obtain ⟨config, configured, -, distinct, placed⟩ := connectors tag connector
      exact ⟨distinct, fun pair member => fits_of_placed configured (placed pair member)⟩
    · obtain ⟨config, configured, -, distinct, placed⟩ := memory scheme
      exact ⟨distinct, fun pair member => (memory_placed_iff configured distinct member).mp (placed pair member)⟩
    · obtain ⟨entries, -, distinct, -⟩ := custom isCustom
      exact distinct
  · intro fits parsed' read'
    obtain rfl := Except.ok.inj (read.symm.trans read')
    obtain ⟨connectors, memory, custom⟩ := fits parsed read
    refine ⟨fun tag connector => ?_, fun scheme => ?_, fun isCustom => ?_⟩
    · rw [parsedEndpoint_connector connector] at built
      obtain ⟨config, configured, built⟩ := bind_ok.mp built
      obtain ⟨distinct, each⟩ := connectors tag connector
      have accepted := buildFromUri_ok built
      refine ⟨config, configured, by rw [sameType]; exact accepted, distinct, fun pair member => ?_⟩
      exact placed_of_fits typed configured accepted distinct member (each pair member)
    · rw [parsedEndpoint_memory scheme] at built
      unfold memoryEndpoint at built
      dsimp only at built
      split at built
      · cases built
      · obtain ⟨config, configured, built⟩ := bind_ok.mp built
        obtain ⟨distinct, each⟩ := memory scheme
        refine ⟨config, configured, by rw [sameType]; exact buildFromUri_ok built, distinct, fun pair member => ?_⟩
        exact (memory_placed_iff configured distinct member).mpr (each pair member)
    · rw [parsedEndpoint_custom isCustom] at built
      obtain rfl := Except.ok.inj built
      have distinct := custom isCustom
      exact ⟨_, sameType, distinct, fun pair member => custom_placed distinct _ member⟩

end

/-- The scheme, the host and the parameters of a URI. -/
def parseHostUrl (uri : Text) : Except Text (ParsedUri uri.length) :=
  match splitAtText "://" uri with
  | none => .error "relative URL without a base"
  | some (scheme, rest) => .ok ⟨scheme, beforeQuery rest, [], ((splitOnce '?' rest).map fun parts => plainPairs _ parts.2).getD []⟩

def memoryServices : UriServices :=
  { natsServices with
    parseUrl := parseHostUrl
    buildEndpoint := fun tag config =>
      match tag == ("memory" : Text), config.lookup ("topic" : Text), config.lookup ("capacity" : Text) with
      | true, some (.str topic), none => .ok (.connector .memory (.record [("topic", .str topic)]))
      | true, some (.str topic), some (.num capacity) =>
        .ok (.connector .memory (.record [("topic", .str topic), ("capacity", .num capacity)]))
      | _, _, _ => .error "unknown variant" }

theorem memoryServices_typed : TypeChecked memoryServices := by
  intro tag config built _ key text type _ known
  have types : ∀ entry ∈ memoryServices.endpointFields tag, entry.2 = .stringLike := by
    simp [memoryServices, natsServices]
  exact .inr (types _ (Assoc.mem_of_lookup known))

def memoryEndpointOf (settings : List (Text × Data)) : Endpoint :=
  .new (.connector .memory (.record (("topic", .str "orders") :: settings)))

theorem accounts_iff_paramsFit_capacity :
    Accounts memoryServices "memory://orders?capacity=10" (memoryEndpointOf [("capacity", .num (.ofNat 10))]) ↔
      ParamsFit memoryServices "memory://orders?capacity=10" :=
  accounts_iff_paramsFit memoryServices_typed (by rw [endpointFromUri]; rfl)

/-- `capacity=ten` is accepted, and the endpoint has no capacity. -/
theorem capacity_dropped :
    endpointFromUri memoryServices "memory://orders?capacity=ten" = .ok (memoryEndpointOf []) ∧
      ¬Accounts memoryServices "memory://orders?capacity=ten" (memoryEndpointOf []) := by
  refine ⟨by rw [endpointFromUri]; rfl, fun accounts => ?_⟩
  have read : memoryServices.parseUrl (baseSegment "memory://orders?capacity=ten") =
      .ok ⟨"memory", "orders", [], [⟨"capacity", "ten", by decide⟩]⟩ := rfl
  obtain ⟨config, -, -, -, placed⟩ := (accounts _ read).2.1 rfl
  cases placed _ List.mem_cons_self with
  | capacity _ parsed =>
    have unparsable : parseU64 "ten" = none := by decide
    cases parsed.symm.trans unparsable
  | subscribeMode key => exact absurd key (by decide)

end MqBridge.Copy
