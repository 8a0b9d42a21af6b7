import MqBridgeApp.Copy.QueryParams

/-!
# URIs that are read alike

Two URIs make the same endpoint when their URLs have the same parts and the same connection string, and when they are
followed by the same middlewares. Their errors may differ, since an error quotes the URI.
-/

namespace MqBridge.Copy
open Text Fallible

def QueryPair.entry {bound : Nat} (pair : QueryPair bound) : Text × Text := (pair.key, pair.value)

structure SameParts {bound bound' : Nat} (parsed : ParsedUri bound) (parsed' : ParsedUri bound') : Prop where
  host : parsed.host = parsed'.host
  path : parsed.path = parsed'.path
  pairs : parsed.queryPairs.map QueryPair.entry = parsed'.queryPairs.map QueryPair.entry

@[simp] theorem toOption_withContext {α : Type} (message : ErrorMessage) (result : Except Rejection α) :
    (withContext message result).toOption = result.toOption := by
  cases result <;> rfl

@[simp] theorem toOption_orCause {α : Type} (result : Except Text α) : (orCause result).toOption = result.toOption := by
  cases result <;> rfl

@[simp] theorem toOption_reject {α : Type} (site : ErrorSite) (quoted value : Text) :
    (reject site quoted value : Except Rejection α).toOption = none := rfl

theorem toOption_buildFromUri (services : UriServices) (tag uri : Text) (config : List (Text × Json)) :
    (buildFromUri services tag uri config).toOption = (services.buildEndpoint tag config).toOption.map Endpoint.new := by
  simp [buildFromUri, toOption_map]

/-! ### One parameter -/

section
variable {services : UriServices} {uri uri' tag : Text} {bound bound' : Nat}
variable {pair : QueryPair bound} {pair' : QueryPair bound'}

theorem params_agree {σ : Type} {step : σ → QueryPair bound → Except Rejection σ}
    {step' : σ → QueryPair bound' → Except Rejection σ} {pairs : List (QueryPair bound)} {pairs' : List (QueryPair bound')}
    (same : pairs.map QueryPair.entry = pairs'.map QueryPair.entry)
    (agree : ∀ pair pair', pair.entry = pair'.entry → ∀ state, (step state pair).toOption = (step' state pair').toOption)
    (state : σ) : (pairs.foldlM step state).toOption = (pairs'.foldlM step' state).toOption :=
  toOption_foldlM agree (Blanking.map_eq_map_iff_forall₂.mp same) state

theorem staticParam_agree (same : pair.entry = pair'.entry) (params : StaticParams) :
    (staticParam services params pair).toOption = (staticParam services params pair').toOption := by
  obtain ⟨key, value⟩ := Prod.mk.inj same
  unfold staticParam
  rw [key, value]

theorem memoryParam_agree (uri uri' : Text) (same : pair.entry = pair'.entry) (config : List (Text × Json)) :
    (memoryParam uri config pair).toOption = (memoryParam uri' config pair').toOption := by
  obtain ⟨key, value⟩ := Prod.mk.inj same
  unfold memoryParam
  rw [key, value]
  split_ifs <;> rfl

theorem connectorParam_agree (same : pair.entry = pair'.entry) (params : ConnectorParams) :
    (connectorParam services uri tag params pair).toOption = (connectorParam services uri' tag params pair').toOption := by
  obtain ⟨key, value⟩ := Prod.mk.inj same
  unfold connectorParam
  rw [key, value]
  by_cases skipped : pair'.key = "path" ∧ tag = "file"
  · rw [if_pos skipped, if_pos skipped]
  by_cases escaped : pair'.key = "url" ∧ tag ≠ "file"
  · rw [if_neg skipped, if_neg skipped, if_pos escaped, if_pos escaped]
  rw [if_neg skipped, if_neg skipped, if_neg escaped, if_neg escaped]
  cases (services.endpointFields tag).lookup pair'.key with
  | none => cases takes : driverOptions tag <;> rfl
  | some type =>
    cases type with
    | object =>
      dsimp only
      split_ifs <;> simp [toOption_map]
    | _ => rfl

theorem customParam_agree (same : pair.entry = pair'.entry) (params : CustomParams) :
    customParam params pair = customParam params pair' := by
  obtain ⟨key, value⟩ := Prod.mk.inj same
  unfold customParam
  rw [key, value]

theorem nestedEndpoint_agree (uri uri' : Text) (nested : Text → Except Rejection Endpoint) (same : pair.entry = pair'.entry) :
    (nestedEndpoint uri (fun value _ => nested value) pair).toOption =
      (nestedEndpoint uri' (fun value _ => nested value) pair').toOption := by
  obtain ⟨key, value⟩ := Prod.mk.inj same
  simp [nestedEndpoint, value]

section
variable (nested : Text → Except Rejection Endpoint)

theorem fanoutBranch_agree (same : pair.entry = pair'.entry) (branches : List Endpoint) :
    (fanoutBranch uri (fun value _ => nested value) branches pair).toOption =
      (fanoutBranch uri' (fun value _ => nested value) branches pair').toOption := by
  have branch := nestedEndpoint_agree uri uri' nested same
  obtain ⟨key, -⟩ := Prod.mk.inj same
  unfold fanoutBranch
  rw [key]
  split_ifs <;> simp [toOption_map, branch]

theorem requestParam_agree (same : pair.entry = pair'.entry) (params : RequestParams) :
    (requestParam uri (fun value _ => nested value) params pair).toOption =
      (requestParam uri' (fun value _ => nested value) params pair').toOption := by
  have branch := nestedEndpoint_agree uri uri' nested same
  obtain ⟨key, -⟩ := Prod.mk.inj same
  unfold requestParam
  rw [key]
  split_ifs <;> simp [toOption_map, branch]

theorem switchParam_agree (same : pair.entry = pair'.entry) (params : SwitchParams) :
    (switchParam uri (fun value _ => nested value) params pair).toOption =
      (switchParam uri' (fun value _ => nested value) params pair').toOption := by
  have branch := nestedEndpoint_agree uri uri' nested same
  obtain ⟨key, value⟩ := Prod.mk.inj same
  unfold switchParam
  rw [key, value]
  split_ifs with isKey isWhen isTo isDefault
  · rfl
  · cases params.condition <;> rfl
  · cases params.condition with
    | none => rfl
    | some condition => simp [toOption_map, branch]
  · simp [toOption_map, branch]
  · cases stripPrefix "case." pair'.key with
    | none => rfl
    | some name => simp [toOption_map, branch]

theorem middlewareParam_agree (spec spec' : Text) {fields : List (Text × FieldType)} (same : pair.entry = pair'.entry)
    (config : List (Text × Json)) :
    (middlewareParam services spec tag fields (fun value _ => nested value) config pair).toOption =
      (middlewareParam services spec' tag fields (fun value _ => nested value) config pair').toOption := by
  obtain ⟨key, value⟩ := Prod.mk.inj same
  unfold middlewareParam
  rw [key]
  split_ifs with isDlq
  · simp [toOption_map, value]
  · rw [value]
    cases fields.lookup pair'.key with
    | none => rfl
    | some type =>
      cases type with
      | object => simp [toOption_map]
      | _ => rfl

end

end

/-! ### One endpoint -/

/-- Of these schemes the endpoint keeps the URI as it is written. -/
def keepsText (services : UriServices) (scheme : Text) : Bool := scheme == ("file" : Text) || isCustom services scheme

/-- Two URIs that the URL parser refuses, or reads as the same parts. -/
inductive ReadAlike (services : UriServices) (uri uri' : Text) : Prop where
  | refused {error error' : Text} (read : services.parseUrl uri = .error error)
      (read' : services.parseUrl uri' = .error error')
  | accepted {parsed : ParsedUri uri.length} {parsed' : ParsedUri uri'.length} (read : services.parseUrl uri = .ok parsed)
      (read' : services.parseUrl uri' = .ok parsed') (scheme : parsed.scheme = parsed'.scheme) (same : SameParts parsed parsed')

structure SameUrl (services : UriServices) (uri uri' : Text) : Prop where
  read : ReadAlike services uri uri'
  connection : services.connectionUrl uri = services.connectionUrl uri'
  written : ∀ {parsed}, services.parseUrl uri = .ok parsed → keepsText services parsed.scheme = true →
    beforeQuery uri = beforeQuery uri'

theorem SameUrl.refl (services : UriServices) (uri : Text) : SameUrl services uri uri where
  read := by
    cases read : services.parseUrl uri with
    | error error => exact .refused read read
    | ok parsed => exact .accepted read read rfl ⟨rfl, rfl, rfl⟩
  connection := rfl
  written := fun _ _ => rfl

theorem connectorTag_file {scheme : Text} (file : connectorTag scheme = some "file") : scheme = "file" := by
  obtain ⟨entry, found, tag⟩ := Option.map_eq_some_iff.mp file
  have only : ∀ entry ∈ connectorSchemes, entry.1 = "file" → entry.2 = ["file"] := by decide
  have inside := List.find?_some found
  rw [decide_eq_true_eq, only entry (List.mem_of_find?_eq_some found) tag] at inside
  exact List.mem_singleton.mp inside

section
variable {services : UriServices} {uri uri' : Text} {bound bound' : Nat}
variable {parsed : ParsedUri bound} {parsed' : ParsedUri bound'}

theorem staticEndpoint_agree (same : SameParts parsed parsed') :
    (staticEndpoint services uri parsed.queryPairs).toOption = (staticEndpoint services uri' parsed'.queryPairs).toOption := by
  unfold staticEndpoint
  rw [toOption_bind, toOption_bind, params_agree same.pairs (fun _ _ => staticParam_agree)]
  simp only [toOption_buildFromUri]

theorem responseEndpoint_agree (same : SameParts parsed parsed') :
    (responseEndpoint uri parsed.queryPairs).toOption = (responseEndpoint uri' parsed'.queryPairs).toOption := by
  have same := Blanking.map_eq_map_iff_forall₂.mp same.pairs
  revert same
  generalize parsed.queryPairs = pairs
  generalize parsed'.queryPairs = pairs'
  rintro (_ | _) <;> rfl

theorem memoryEndpoint_agree (same : SameParts parsed parsed') :
    (memoryEndpoint services uri parsed).toOption = (memoryEndpoint services uri' parsed').toOption := by
  unfold memoryEndpoint
  rw [same.host, same.path]
  dsimp only
  split
  · rfl
  · rw [toOption_bind, toOption_bind, params_agree same.pairs (fun _ _ => memoryParam_agree uri uri')]
    simp only [toOption_buildFromUri]

theorem connectorParams_agree (uri uri' : Text) (same : SameParts parsed parsed') (tag : Text) :
    (parsed.queryPairs.foldlM (connectorParam services uri tag) {}).toOption =
      (parsed'.queryPairs.foldlM (connectorParam services uri' tag) {}).toOption :=
  params_agree same.pairs (fun _ _ => connectorParam_agree) {}

theorem withConnection_agree (same : SameParts parsed parsed') {tag : Text} (params : ConnectorParams)
    (connection : services.connectionUrl uri = services.connectionUrl uri')
    (written : tag = "file" → beforeQuery uri = beforeQuery uri') :
    (withConnection services uri tag parsed params).toOption = (withConnection services uri' tag parsed' params).toOption := by
  unfold withConnection
  by_cases isFile : tag = "file"
  · simp only [isFile, if_true, written isFile]
    split <;> rfl
  · simp only [isFile, if_false]
    cases params.escapedUrl with
    | none => rw [same.path, connection]
    | some url => cases params.driverParams <;> rfl

theorem connectorEndpoint_agree (same : SameParts parsed parsed') {tag : Text}
    (connection : services.connectionUrl uri = services.connectionUrl uri')
    (written : tag = "file" → beforeQuery uri = beforeQuery uri') :
    (connectorEndpoint services uri tag parsed).toOption = (connectorEndpoint services uri' tag parsed').toOption := by
  unfold connectorEndpoint
  simp only [toOption_bind, toOption_buildFromUri, connectorParams_agree uri uri' same, withConnection_agree same _ connection written]

theorem customParams_agree {pairs : List (QueryPair bound)} {pairs' : List (QueryPair bound')}
    (same : List.Forall₂ (fun pair pair' => pair.entry = pair'.entry) pairs pairs') (before : CustomParams) :
    pairs.foldl customParam before = pairs'.foldl customParam before := by
  induction same generalizing before with
  | nil => rfl
  | cons here _ ih => rw [List.foldl_cons, List.foldl_cons, customParam_agree here, ih]

theorem customEndpoint_agree (same : SameParts parsed parsed') (written : beforeQuery uri = beforeQuery uri') (name : Text) :
    customEndpoint uri name parsed = customEndpoint uri' name parsed' := by
  unfold customEndpoint
  rw [written, customParams_agree (Blanking.map_eq_map_iff_forall₂.mp same.pairs)]

section
variable (nested : Text → Except Rejection Endpoint)

theorem fanoutEndpoint_agree (same : SameParts parsed parsed') :
    (fanoutEndpoint uri (fun value _ => nested value) parsed.queryPairs).toOption =
      (fanoutEndpoint uri' (fun value _ => nested value) parsed'.queryPairs).toOption := by
  unfold fanoutEndpoint
  rw [toOption_bind, toOption_bind, params_agree same.pairs fun _ _ => fanoutBranch_agree nested]
  refine congrArg _ (funext fun branches => ?_)
  split <;> rfl

theorem requestEndpoint_agree (same : SameParts parsed parsed') :
    (requestEndpoint uri (fun value _ => nested value) parsed.queryPairs).toOption =
      (requestEndpoint uri' (fun value _ => nested value) parsed'.queryPairs).toOption := by
  unfold requestEndpoint
  rw [toOption_bind, toOption_bind, params_agree same.pairs fun _ _ => requestParam_agree nested]
  refine congrArg _ (funext fun params => ?_)
  cases params.to_ <;> rfl

theorem switchEndpoint_agree (same : SameParts parsed parsed') :
    (switchEndpoint uri (fun value _ => nested value) parsed.queryPairs).toOption =
      (switchEndpoint uri' (fun value _ => nested value) parsed'.queryPairs).toOption := by
  unfold switchEndpoint
  rw [toOption_bind, toOption_bind, params_agree same.pairs fun _ _ => switchParam_agree nested]
  refine congrArg _ (funext fun params => ?_)
  cases params.condition with
  | some dangling => rfl
  | none => split_ifs <;> rfl

theorem parsedEndpoint_agree (scheme : parsed.scheme = parsed'.scheme) (same : SameParts parsed parsed')
    (connection : services.connectionUrl uri = services.connectionUrl uri')
    (written : keepsText services parsed.scheme = true → beforeQuery uri = beforeQuery uri') :
    (parsedEndpoint services uri parsed fun value _ => nested value).toOption =
      (parsedEndpoint services uri' parsed' fun value _ => nested value).toOption := by
  by_cases direct : parsed.scheme ∈ directSchemes
  · simp only [directSchemes, List.mem_cons, List.not_mem_nil, or_false] at direct
    unfold parsedEndpoint
    rw [← scheme]
    rcases direct with null | static | response | fanout | request | switch | memory
    · rw [null]
      rfl
    · rw [static]
      exact staticEndpoint_agree same
    · rw [response]
      exact responseEndpoint_agree same
    · rw [fanout]
      exact fanoutEndpoint_agree nested same
    · rw [request]
      exact requestEndpoint_agree nested same
    · rw [switch]
      exact switchEndpoint_agree nested same
    · rw [memory]
      exact memoryEndpoint_agree same
  · rw [parsedEndpoint_indirect direct, parsedEndpoint_indirect (scheme ▸ direct), ← scheme]
    cases tag : connectorTag parsed.scheme with
    | some tag =>
      refine connectorEndpoint_agree same connection fun file => written ?_
      rw [file] at tag
      simp [keepsText, connectorTag_file tag]
    | none =>
      dsimp only
      split
      · next registered =>
        have custom : keepsText services parsed.scheme = true := by simp [keepsText, isCustom, direct, tag, registered]
        rw [customEndpoint_agree same (written custom)]
      · rfl

end

end

section
variable {services : UriServices} {uri uri' : Text}

theorem baseEndpointFromUri_agree (nested : Text → Except Rejection Endpoint) (same : SameUrl services uri uri') :
    (baseEndpointFromUri services uri fun value _ => nested value).toOption =
      (baseEndpointFromUri services uri' fun value _ => nested value).toOption := by
  unfold baseEndpointFromUri
  cases same.read with
  | refused read read' => rw [read, read']; rfl
  | accepted read read' scheme parts =>
    rw [read, read']
    exact parsedEndpoint_agree nested scheme parts same.connection (same.written read)

def middlewareOf (services : UriServices) (spec : Text) : Except Rejection Middleware :=
  middlewareFromSpec services spec fun value _ => endpointFromUri services value

theorem middlewareOf_agree {spec spec' : Text} (name : middlewareName spec = middlewareName spec')
    (pairs : (services.formPairs (middlewareQuery spec)).map QueryPair.entry =
      (services.formPairs (middlewareQuery spec')).map QueryPair.entry) :
    (middlewareOf services spec).toOption = (middlewareOf services spec').toOption := by
  unfold middlewareOf middlewareFromSpec
  rw [name]
  dsimp only
  split
  · rfl
  · rw [toOption_bind, toOption_bind, params_agree pairs fun _ _ => middlewareParam_agree (endpointFromUri services) spec spec']
    simp only [toOption_withContext]

/-- The middlewares of these segments, after those that are there. -/
def middlewaresOf (services : UriServices) (specs : List Text) (before : List Middleware) : Except Rejection (List Middleware) :=
  specs.foldlM (fun middlewares spec => (middlewareOf services spec).map fun middleware => middlewares ++ [middleware]) before

theorem endpointFromUri_toOption (services : UriServices) (uri : Text) :
    (endpointFromUri services uri).toOption =
      (baseEndpointFromUri services (baseSegment uri) fun value _ => endpointFromUri services value).toOption.bind
        fun endpoint => (middlewaresOf services (middlewareSpecs uri) endpoint.middlewares).toOption.map
          fun middlewares => .mk middlewares endpoint.endpointType := by
  have attached : List.Forall₂ (fun attached spec => attached.1 = spec) (middlewareSpecs uri).attach (middlewareSpecs uri) := by
    rw [← List.forall₂_map_left_iff, List.attach_map_subtype_val]
    exact List.forall₂_refl _
  rw [endpointFromUri, toOption_bind]
  refine congrArg _ (funext fun endpoint => ?_)
  rw [toOption_map, middlewaresOf, toOption_foldlM _ attached]
  intro attached spec same middlewares
  obtain rfl := same
  simp only [pushMiddleware, toOption_map, toOption_withContext]
  rfl

theorem splitOn_segments (uri : Text) : uri.splitOn '|' = baseSegment uri :: middlewareSpecs uri := by
  unfold baseSegment middlewareSpecs
  cases split : splitOnce '|' uri with
  | none => exact List.splitOn_eq_singleton (splitOnce_eq_none.mp split)
  | some parts =>
    obtain ⟨base, rest⟩ := parts
    obtain ⟨rfl, absent⟩ := splitOnce_eq_some.mp split
    have after : ('|' :: rest).splitOn '|' = [] :: rest.splitOn '|' := by
      rw [List.splitOn_cons_eq_if_modifyHead, if_pos (beq_self_eq_true _)]
    rw [Blanking.splitOn_append_of_notMem absent after, List.append_nil]
    rfl

theorem endpointFromUri_agree (base : SameUrl services (baseSegment uri) (baseSegment uri'))
    (specs : List.Forall₂ (fun spec spec' => (middlewareOf services spec).toOption = (middlewareOf services spec').toOption)
      (middlewareSpecs uri) (middlewareSpecs uri')) :
    (endpointFromUri services uri).toOption = (endpointFromUri services uri').toOption := by
  rw [endpointFromUri_toOption, endpointFromUri_toOption, baseEndpointFromUri_agree (endpointFromUri services) base]
  refine congrArg _ (funext fun endpoint => ?_)
  rw [middlewaresOf, middlewaresOf, toOption_foldlM _ specs]
  intro spec spec' same middlewares
  rw [toOption_map, toOption_map, same]

end

end MqBridge.Copy
