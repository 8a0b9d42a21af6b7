import MqBridgeApp.Copy.Expansion
import MqBridgeApp.Lib.FormUrlEncoded

/-!
# The depth of endpoint URIs

An endpoint URI is read by recursion on the decoded values of its query. The URL parser encodes the query
before it is decoded, and invalid bytes are replaced, but a value never takes more bytes than its part of the
URI. Each recursive call is on a shorter text, so the depth is bounded by the length of the URI.
-/

namespace MqBridge.Copy
open Text

/-! ### The parameters of a URI -/

structure UrlParts where
  scheme : Text
  host : Text
  path : Text
  query : Option Text

/-- `query_pairs` -/
def UrlParts.queryPairs (parts : UrlParts) : List (Text × Text) := parts.query.elim [] (formEntries Form.decode)

/-- What is known of the URL parser: the query is a part of the URI after a question mark, without the
characters that are read over, and with the ones encoded that may not stand in a query. -/
structure EncodesQuery (parseUrl : Text → Except Text UrlParts) : Prop where
  query : ∀ {uri parts query}, parseUrl uri = .ok parts → parts.query = some query →
    ∃ set raw, Form.QuerySet set ∧ query = Percent.encode set raw ∧ ('?' :: raw).Sublist uri

section
variable {set : Char → Bool}

theorem notMem_encodeChar {sep : Char} (sign : Percent.isEscape sep = false) (c : Char) : sep ∉ Percent.encodeChar c := by
  intro member
  rw [Percent.isEscape_of_mem_encodeChar member] at sign
  cases sign

/-- A separator that is not encoded stays where it is. -/
theorem splitOn_encode {sep : Char} (sign : Percent.isEscape sep = false) (kept : set sep = false) (text : Text) :
    (Percent.encode set text).splitOn sep = (text.splitOn sep).map (Percent.encode set) := by
  induction text with
  | nil => rfl
  | cons c text ih =>
    rw [Percent.encode, List.flatMap_cons, ← Percent.encode]
    by_cases here : c = sep
    · subst here
      rw [if_neg (by simp [kept]), List.cons_append, List.nil_append, List.splitOn_cons_eq_if_modifyHead,
        if_pos (beq_self_eq_true _), List.splitOn_cons_eq_if_modifyHead, if_pos (beq_self_eq_true _), ih]
      rfl
    · obtain ⟨first, later, pieces⟩ := List.exists_cons_of_ne_nil (List.splitOn_ne_nil sep text)
      have whole : (c :: text).splitOn sep = (c :: first) :: later := by
        rw [List.splitOn_cons_eq_if_modifyHead, if_neg (by simpa using here), pieces]
        rfl
      rw [pieces, List.map_cons] at ih
      have absent : sep ∉ (if set c then Percent.encodeChar c else [c]) := by
        split
        · exact notMem_encodeChar sign c
        · simpa using fun same => here same.symm
      rw [Blanking.splitOn_append_of_notMem absent ih, whole]
      rfl

theorem splitOnce_encode {sep : Char} (sign : Percent.isEscape sep = false) (kept : set sep = false) (text : Text) :
    splitOnce sep (Percent.encode set text) =
      (splitOnce sep text).map fun parts => (Percent.encode set parts.1, Percent.encode set parts.2) := by
  have absent : ∀ {text : Text}, sep ∉ text → sep ∉ Percent.encode set text := by
    intro text plain member
    rcases Percent.mem_encode member with escape | ⟨inside, -⟩
    · rw [sign] at escape
      cases escape
    · exact plain inside
  cases split : splitOnce sep text with
  | none => exact splitOnce_eq_none.mpr (absent (splitOnce_eq_none.mp split))
  | some parts =>
    obtain ⟨before, after⟩ := parts
    obtain ⟨rfl, plain⟩ := splitOnce_eq_some.mp split
    have whole : Percent.encode set (before ++ sep :: after) =
        Percent.encode set before ++ sep :: Percent.encode set after := by simp [Percent.encode, kept]
    rw [whole, splitOnce_append (absent plain)]
    rfl

theorem encode_eq_nil {text : Text} : (Percent.encode set text).isEmpty = text.isEmpty := by
  cases text with
  | nil => rfl
  | cons c text =>
    obtain ⟨lead, inner, encoded, -⟩ := Form.utf8EncodeChar_cons c
    rw [Percent.encode, List.flatMap_cons]
    split
    · rw [Percent.encodeChar, encoded]
      rfl
    · rfl

theorem formEntries_encode (law : Form.QuerySet set) (query : Text) :
    formEntries Form.decode (Percent.encode set query) = formEntries Form.decode query := by
  have entry : ∀ pair : Text, formEntry Form.decode (Percent.encode set pair) = formEntry Form.decode pair := by
    intro pair
    rw [formEntry, formEntry, encode_eq_nil, splitOnce_encode rfl (law '=' (by decide))]
    cases splitOnce '=' pair with
    | none => rw [Option.map_none, Form.decode_encode law]
    | some parts => simp only [Option.map_some, Form.decode_encode law]
  rw [formEntries, formEntries, splitOn_encode rfl (law '&' (by decide)), List.filterMap_map]
  exact List.filterMap_congr fun pair _ => entry pair

end

/-! ### Values are short -/

section
variable {weight : Char → Nat} (law : Form.Weight weight)

theorem weigh_append (front back : Text) : Form.weigh weight (front ++ back) = Form.weigh weight front + Form.weigh weight back := by
  simp [Form.weigh]

theorem weigh_sublist {part text : Text} (sublist : part.Sublist text) : Form.weigh weight part ≤ Form.weigh weight text := by
  induction sublist with
  | slnil => exact Nat.le_refl _
  | cons c _ ih => exact Nat.le_trans ih (Nat.le_add_left ..)
  | cons_cons c _ ih => exact Nat.add_le_add_left ih _

theorem sublist_of_mem_splitOn {sep : Char} {text piece : Text} (member : piece ∈ text.splitOn sep) : piece.Sublist text := by
  rw [← @List.intercalate_splitOn _ text _ _ sep]
  generalize text.splitOn sep = all at member
  induction all with
  | nil => cases member
  | cons first rest ih =>
    cases rest with
    | nil =>
      obtain rfl := List.mem_singleton.mp member
      simp
    | cons second rest =>
      rw [List.intercalate_cons_cons]
      rcases List.mem_cons.mp member with rfl | later
      · exact (List.sublist_append_left ..).trans (List.sublist_append_left ..)
      · exact (ih later).trans (List.sublist_append_right ..)

include law in
theorem weigh_formEntries {query : Text} {pair : Text × Text} (member : pair ∈ formEntries Form.decode query) :
    Form.weigh weight pair.2 ≤ Form.weigh weight query := by
  obtain ⟨text, inside, read⟩ := List.mem_filterMap.mp member
  have within := @weigh_sublist weight _ _ (sublist_of_mem_splitOn inside)
  refine Nat.le_trans ?_ within
  unfold formEntry at read
  split at read
  · cases read
  split at read
  · next name value split =>
    obtain rfl := Option.some.inj read
    obtain ⟨rfl, -⟩ := splitOnce_eq_some.mp split
    rw [weigh_append]
    exact (Form.weigh_decode law value).trans ((weigh_sublist (List.sublist_cons_self '=' value)).trans (Nat.le_add_left _ _))
  · obtain rfl := Option.some.inj read
    exact Nat.zero_le _

include law in
/-- A value of the query is shorter than the URI. -/
theorem weigh_queryPairs {parseUrl : Text → Except Text UrlParts} (encodes : EncodesQuery parseUrl) {uri : Text} {parts : UrlParts}
    (parsed : parseUrl uri = .ok parts) {pair : Text × Text} (member : pair ∈ parts.queryPairs) :
    Form.weigh weight pair.2 < Form.weigh weight uri := by
  unfold UrlParts.queryPairs at member
  cases found : parts.query with
  | none => simp [found] at member
  | some query =>
    obtain ⟨set, raw, keeps, rfl, sublist⟩ := encodes.query parsed found
    rw [found, Option.elim_some, formEntries_encode keeps] at member
    have within := weigh_formEntries law member
    have whole := @weigh_sublist weight _ _ sublist
    have mark := law.pos '?'
    simp only [Form.weigh, List.map_cons, List.sum_cons] at within whole ⊢
    omega

end

theorem length_eq_weigh (text : Text) : Form.weigh (fun _ => 1) text = text.length := by simp [Form.weigh]

theorem weight_one : Form.Weight fun _ => 1 := ⟨fun _ => Nat.le_refl 1, fun c => c.utf8Size_pos⟩

theorem weight_size : Form.Weight Char.utf8Size := ⟨fun c => c.utf8Size_pos, fun _ => Nat.le_refl _⟩

theorem length_formEntries {query : Text} {pair : Text × Text} (member : pair ∈ formEntries Form.decode query) :
    pair.2.length ≤ query.length := by
  simpa only [length_eq_weigh] using weigh_formEntries weight_one member

theorem length_queryPairs {parseUrl : Text → Except Text UrlParts} (encodes : EncodesQuery parseUrl) {uri : Text}
    {parts : UrlParts} (parsed : parseUrl uri = .ok parts) {pair : Text × Text} (member : pair ∈ parts.queryPairs) :
    pair.2.length < uri.length := by
  simpa only [length_eq_weigh] using weigh_queryPairs weight_one encodes parsed member

/-- The services with a URL parser and a form parser of their own. -/
def UriServices.reading (services : UriServices) (parseUrl : Text → Except Text UrlParts) (encodes : EncodesQuery parseUrl) :
    UriServices :=
  { services with
    parseUrl := fun uri =>
      match parsed : parseUrl uri with
      | .error error => .error error
      | .ok parts => .ok
          { scheme := parts.scheme
            host := parts.host
            path := parts.path
            queryPairs := parts.queryPairs.attach.map fun ⟨pair, member⟩ =>
              { key := pair.1, value := pair.2, shorter := length_queryPairs encodes parsed member } }
    formPairs := fun query => (formEntries Form.decode query).attach.map fun ⟨pair, member⟩ =>
      { key := pair.1, value := pair.2, shorter := Nat.lt_succ_of_le (length_formEntries member) } }

section
variable (services : UriServices) (nested : Text → Except Rejection Endpoint)

/-- One call of `endpoint_from_uri`, in which the calls for nested endpoints are calls of `nested`. -/
def endpointFromUriStep (uri : Text) : Except Rejection Endpoint :=
  (baseEndpointFromUri services (baseSegment uri) fun value _ => nested value).bind fun endpoint =>
    ((middlewareSpecs uri).attach.foldlM (pushMiddleware services uri fun value _ => nested value)
      endpoint.middlewares).map fun middlewares => .mk middlewares endpoint.endpointType

/-- The values that a call of `endpoint_from_uri` decodes: those of the base URI and of each middleware. -/
def decodedValues (uri : Text) : List Text :=
  ((services.parseUrl (baseSegment uri)).toOption.elim [] fun parsed => parsed.queryPairs.map QueryPair.value) ++
    (middlewareSpecs uri).flatMap fun spec => (services.formPairs (middlewareQuery spec)).map QueryPair.value

/-- The recursion to a depth, below which the calls are answered by `nested`. -/
def endpointFromUriTo : Nat → Text → Except Rejection Endpoint
  | 0, uri => nested uri
  | depth + 1, uri => endpointFromUriStep services (endpointFromUriTo depth) uri

end

theorem foldlM_eq {σ α : Type} {step step' : σ → α → Except Rejection σ} {items : List α}
    (same : ∀ item ∈ items, ∀ state, step state item = step' state item) :
    ∀ state, items.foldlM step state = items.foldlM step' state := by
  induction items with
  | nil => exact fun _ => rfl
  | cons item items ih =>
    intro state
    rw [List.foldlM_cons, List.foldlM_cons, same item (.head _)]
    exact congrArg _ (funext (ih fun item member => same item (.tail _ member)))

section
variable {services : UriServices} {nested nested' : Text → Except Rejection Endpoint} {bound : Nat} {uri : Text}
  {pair : QueryPair bound}

theorem nestedEndpoint_eq (same : nested pair.value = nested' pair.value) :
    nestedEndpoint uri (fun value _ => nested value) pair = nestedEndpoint uri (fun value _ => nested' value) pair :=
  congrArg (withContext _) same

theorem fanoutBranch_eq (same : nested pair.value = nested' pair.value) (branches : List Endpoint) :
    fanoutBranch uri (fun value _ => nested value) branches pair = fanoutBranch uri (fun value _ => nested' value) branches pair := by
  simp only [fanoutBranch, nestedEndpoint_eq same]

theorem requestParam_eq (same : nested pair.value = nested' pair.value) (params : RequestParams) :
    requestParam uri (fun value _ => nested value) params pair = requestParam uri (fun value _ => nested' value) params pair := by
  simp only [requestParam, nestedEndpoint_eq same]

theorem switchParam_eq (same : nested pair.value = nested' pair.value) (params : SwitchParams) :
    switchParam uri (fun value _ => nested value) params pair = switchParam uri (fun value _ => nested' value) params pair := by
  simp only [switchParam, nestedEndpoint_eq same]

theorem middlewareParam_eq {spec tag : Text} {fields : List (Text × FieldType)} (same : nested pair.value = nested' pair.value)
    (config : List (Text × Json)) :
    middlewareParam services spec tag fields (fun value _ => nested value) config pair =
      middlewareParam services spec tag fields (fun value _ => nested' value) config pair := by
  simp only [middlewareParam, same]

theorem parsedEndpoint_eq {parsed : ParsedUri bound} (same : ∀ pair ∈ parsed.queryPairs, nested pair.value = nested' pair.value) :
    parsedEndpoint services uri parsed (fun value _ => nested value) =
      parsedEndpoint services uri parsed fun value _ => nested' value := by
  unfold parsedEndpoint fanoutEndpoint requestEndpoint switchEndpoint
  rw [foldlM_eq fun pair member => fanoutBranch_eq (same pair member),
    foldlM_eq fun pair member => requestParam_eq (same pair member),
    foldlM_eq fun pair member => switchParam_eq (same pair member)]

theorem middlewareFromSpec_eq {spec : Text}
    (same : ∀ pair ∈ services.formPairs (middlewareQuery spec), nested pair.value = nested' pair.value) :
    middlewareFromSpec services spec (fun value _ => nested value) = middlewareFromSpec services spec fun value _ => nested' value := by
  unfold middlewareFromSpec
  simp only [foldlM_eq fun pair member => middlewareParam_eq (same pair member)]

/-- A call depends on the calls for the values that it decodes, and on no other. -/
theorem endpointFromUriStep_eq (same : ∀ value ∈ decodedValues services uri, nested value = nested' value) :
    endpointFromUriStep services nested uri = endpointFromUriStep services nested' uri := by
  simp only [decodedValues, List.mem_append, or_imp, forall_and, List.mem_flatMap, List.mem_map] at same
  have base : baseEndpointFromUri services (baseSegment uri) (fun value _ => nested value) =
      baseEndpointFromUri services (baseSegment uri) fun value _ => nested' value := by
    unfold baseEndpointFromUri
    cases parsed : services.parseUrl (baseSegment uri) with
    | error => rfl
    | ok parts =>
      refine parsedEndpoint_eq fun pair member => same.1 _ ?_
      rw [parsed]
      exact List.mem_map_of_mem member
  have specs : ∀ spec ∈ (middlewareSpecs uri).attach, ∀ middlewares,
      pushMiddleware services uri (fun value _ => nested value) middlewares spec =
        pushMiddleware services uri (fun value _ => nested' value) middlewares spec := by
    intro spec _ middlewares
    unfold pushMiddleware
    rw [middlewareFromSpec_eq fun pair member => same.2 _ ⟨spec.1, spec.2, pair, member, rfl⟩]
  unfold endpointFromUriStep
  rw [base]
  exact congrArg _ (funext fun endpoint => by rw [foldlM_eq specs])

theorem endpointFromUri_step (services : UriServices) (uri : Text) :
    endpointFromUri services uri = endpointFromUriStep services (endpointFromUri services) uri := by
  rw [endpointFromUri]
  rfl

end

/-! ### The depth -/

section
variable {services : UriServices} {parseUrl : Text → Except Text UrlParts} {encodes : EncodesQuery parseUrl}

theorem queryPairs_reading {uri : Text} {parsed : ParsedUri uri.length}
    (read : (services.reading parseUrl encodes).parseUrl uri = .ok parsed) :
    ∃ parts, parseUrl uri = .ok parts ∧ parsed.queryPairs.map QueryPair.value = parts.queryPairs.map Prod.snd := by
  unfold UriServices.reading at read
  dsimp only at read
  split at read
  · cases read
  · next parts parsed' =>
    obtain rfl := Except.ok.inj read
    refine ⟨parts, parsed', ?_⟩
    rw [List.map_map]
    exact List.attach_map_val (f := Prod.snd)

theorem formPairs_reading (query : Text) :
    ((services.reading parseUrl encodes).formPairs query).map QueryPair.value = (formEntries Form.decode query).map Prod.snd := by
  unfold UriServices.reading
  dsimp only
  rw [List.map_map]
  exact List.attach_map_val (f := Prod.snd)

theorem sublist_baseSegment (uri : Text) : (baseSegment uri).Sublist uri := by
  unfold baseSegment
  cases split : splitOnce '|' uri with
  | none => exact List.Sublist.refl _
  | some parts =>
    obtain ⟨rfl, -⟩ := splitOnce_eq_some.mp split
    exact List.sublist_append_left ..

theorem sublist_middlewareQuery (spec : Text) : (middlewareQuery spec).Sublist spec := by
  unfold middlewareQuery
  cases split : splitOnce '?' spec with
  | none => exact List.nil_sublist _
  | some parts =>
    obtain ⟨rfl, -⟩ := splitOnce_eq_some.mp split
    exact (List.sublist_cons_self ..).trans (List.sublist_append_right ..)

theorem sublist_middlewareSpecs {uri spec : Text} (member : spec ∈ middlewareSpecs uri) : ('|' :: spec).Sublist uri := by
  unfold middlewareSpecs at member
  cases split : splitOnce '|' uri with
  | none => simp [split] at member
  | some parts =>
    rw [split] at member
    obtain ⟨rfl, -⟩ := splitOnce_eq_some.mp split
    exact ((sublist_of_mem_splitOn member).cons_cons _).trans (List.sublist_append_right ..)

/-- A value that a call decodes has fewer bytes than the URI. -/
theorem byteSize_decodedValues {uri value : Text} (member : value ∈ decodedValues (services.reading parseUrl encodes) uri) :
    Form.byteSize value < Form.byteSize uri := by
  rcases List.mem_append.mp member with inBase | inSpec
  · cases read : (services.reading parseUrl encodes).parseUrl (baseSegment uri) with
    | error => simp [read] at inBase
    | ok parsed =>
      obtain ⟨parts, parsed', values⟩ := queryPairs_reading read
      rw [read, Fallible.toOption_ok, Option.elim_some, values] at inBase
      obtain ⟨pair, inside, rfl⟩ := List.mem_map.mp inBase
      exact Nat.lt_of_lt_of_le (weigh_queryPairs weight_size encodes parsed' inside) (weigh_sublist (sublist_baseSegment uri))
  · obtain ⟨spec, specMember, inside⟩ := List.mem_flatMap.mp inSpec
    rw [formPairs_reading] at inside
    obtain ⟨pair, pairMember, rfl⟩ := List.mem_map.mp inside
    have within := weigh_formEntries weight_size pairMember
    have query := @weigh_sublist Char.utf8Size _ _ (sublist_middlewareQuery spec)
    have whole := @weigh_sublist Char.utf8Size _ _ (sublist_middlewareSpecs specMember)
    have bar := Char.utf8Size_pos '|'
    simp only [Form.byteSize, Form.weigh, List.map_cons, List.sum_cons] at within query whole ⊢
    omega

theorem endpointFromUriTo_eq (nested : Text → Except Rejection Endpoint) : ∀ (depth : Nat) (uri : Text), Form.byteSize uri < depth →
    endpointFromUriTo (services.reading parseUrl encodes) nested depth uri =
      endpointFromUri (services.reading parseUrl encodes) uri
  | depth + 1, uri, bounded => by
    rw [endpointFromUri_step, endpointFromUriTo]
    refine endpointFromUriStep_eq fun value member => ?_
    have shorter := byteSize_decodedValues member
    exact endpointFromUriTo_eq nested depth value (by omega)

end

/-- Every call that `endpoint_from_uri` makes is for a decoded value with fewer bytes than the URI, so it ends:
whatever is answered below the depth of the URI's length, the result is the same. -/
theorem endpointFromUri_depth (services : UriServices) (parseUrl : Text → Except Text UrlParts) (encodes : EncodesQuery parseUrl) :
    let reader := services.reading parseUrl encodes
    (∀ uri, ∀ value ∈ decodedValues reader uri, Form.byteSize value < Form.byteSize uri) ∧
      (∀ uri (nested nested' : Text → Except Rejection Endpoint), (∀ value ∈ decodedValues reader uri, nested value = nested' value) →
        endpointFromUriStep reader nested uri = endpointFromUriStep reader nested' uri) ∧
      (∀ uri, endpointFromUri reader uri = endpointFromUriStep reader (endpointFromUri reader) uri) ∧
      ∀ uri (nested : Text → Except Rejection Endpoint) depth, Form.byteSize uri < depth →
        endpointFromUriTo reader nested depth uri = endpointFromUri reader uri :=
  ⟨fun _ _ => byteSize_decodedValues, fun _ _ _ => endpointFromUriStep_eq, endpointFromUri_step _,
    fun uri nested depth => endpointFromUriTo_eq nested depth uri⟩

/-- The characters that may not stand in a query. -/
def isOutsideQuery (c : Char) : Bool := decide (c.toNat < 33) || decide (126 < c.toNat) || decide (c ∈ ("\"#<>" : Text))

/-- Scheme and query of a URI without authority, path and fragment. -/
def parseSchemeAndQuery (uri : Text) : Except Text UrlParts :=
  match splitOnce ':' uri with
  | none => .error "relative URL without a base"
  | some (scheme, rest) =>
    .ok ⟨scheme, [], [], (splitOnce '?' rest).map fun parts => Percent.encode isOutsideQuery parts.2⟩

theorem querySet_isOutsideQuery : Form.QuerySet isOutsideQuery := by
  have ascii : ∀ n : Fin 128, (Char.ofNat n).isAlphanum = true ∨ Char.ofNat n ∈ (['%', '&', '=', '+'] : Text) →
      isOutsideQuery (Char.ofNat n) = false := by decide
  intro c kept
  have small : c.toNat < 128 := by
    rcases kept with letter | sign
    · have bounds := isAlphanum_iff.mp letter
      omega
    · simp only [List.mem_cons, List.not_mem_nil, or_false] at sign
      rcases sign with rfl | rfl | rfl | rfl <;> decide
  revert kept
  exact Percent.of_toNat_lt small ascii

theorem parseSchemeAndQuery_encodes : EncodesQuery parseSchemeAndQuery where
  query {uri parts query} parsed found := by
    unfold parseSchemeAndQuery at parsed
    split at parsed
    · cases parsed
    · next scheme rest split =>
      obtain rfl := Except.ok.inj parsed
      obtain ⟨pieces, cut, rfl⟩ := Option.map_eq_some_iff.mp found
      obtain ⟨rfl, -⟩ := splitOnce_eq_some.mp split
      obtain ⟨rfl, -⟩ := splitOnce_eq_some.mp cut
      refine ⟨_, _, querySet_isOutsideQuery, rfl, ?_⟩
      exact (List.sublist_append_right ..).trans ((List.sublist_cons_self ..).trans (List.sublist_append_right ..))

/-- A fanout to a branch with a name outside of ASCII. -/
theorem endpointFromUri_depth_fanout :
    let reader := natsServices.reading parseSchemeAndQuery parseSchemeAndQuery_encodes
    let uri : Text := "fanout:?to=nats:?subject=b%C3%BCro-ä"
    (∀ value ∈ decodedValues reader uri, Form.byteSize value < Form.byteSize uri) ∧
      endpointFromUriTo reader (fun _ => .error []) 41 uri = endpointFromUri reader uri := by
  have bounded := endpointFromUri_depth natsServices parseSchemeAndQuery parseSchemeAndQuery_encodes
  exact ⟨bounded.1 _, bounded.2.2.2 _ _ _ (by decide)⟩

end MqBridge.Copy
