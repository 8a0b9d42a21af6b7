import MqBridgeApp.Copy.Agreement
import MqBridgeApp.Copy.LoggedSecrets
import MqBridgeApp.Lib.PercentEncoding

/-!
# Variables in copy URIs

A variable is replaced in the text of a copy URI, before that is split into segments and parsed. Its value is part of
the syntax: the endpoint is the one of the URI with the value percent-encoded only if no character of the value means
something where it stands.
-/

namespace MqBridge.Copy
open Text Fallible

/-- A piece of a template: text, or `$VAR` and its longer forms. -/
inductive TemplatePart where
  | literal (text : Text)
  | reference (name : Text)

section
variable (environment : Text → Option Text)

def TemplatePart.expanded : TemplatePart → Text
  | .literal text => text
  | .reference name => (environment name).getD []

def TemplatePart.missing : TemplatePart → Option Text
  | .literal _ => none
  | .reference name => if (environment name).isNone then some name else none

def expandedText (parts : List TemplatePart) : Text := parts.flatMap (TemplatePart.expanded environment)

def undefinedVariables (names : List Text) : Text :=
  "undefined environment variable `" ++ (lit "`, `").intercalate names ++
    "` in endpoint URI (write a literal `$` as `%24`)"

/-- Expands the variables of a copy URI from the environment. All of them have to be defined. -/
def expandUriVariables (templateParts : Text → List TemplatePart) (uri : Text) : Except Text Text :=
  let missing := (templateParts uri).filterMap (TemplatePart.missing environment)
  if missing.isEmpty then .ok (expandedText environment (templateParts uri)) else .error (undefinedVariables missing)

/-- The endpoint that a `--from` or `--to` value names. -/
def copyEndpoint (services : UriServices) (templateParts : Text → List TemplatePart) (uri : Text) : Except Rejection Endpoint :=
  (orCause (expandUriVariables environment templateParts uri)).bind (endpointFromUri services)

end

theorem expandedText_reference {environment : Text → Option Text} {name value : Text} (defined : environment name = some value)
    (before after : List TemplatePart) : expandedText environment (before ++ .reference name :: after) =
      expandedText environment before ++ value ++ expandedText environment after := by
  simp [expandedText, TemplatePart.expanded, defined]

theorem expandUriVariables_ok {environment : Text → Option Text} {templateParts : Text → List TemplatePart}
    {uri expanded : Text} (expansion : orCause (expandUriVariables environment templateParts uri) = .ok expanded) :
    expanded = expandedText environment (templateParts uri) := by
  unfold expandUriVariables at expansion
  dsimp only at expansion
  split at expansion
  · exact (Except.ok.inj expansion).symm
  · cases expansion

/-! ### What is known of the URL parser -/

def formEntry (decode : Text → Text) (pair : Text) : Option (Text × Text) :=
  if pair.isEmpty then none
  else
    match splitOnce '=' pair with
    | some (name, value) => some (decode name, decode value)
    | none => some (decode pair, [])

def formEntries (decode : Text → Text) (query : Text) : List (Text × Text) :=
  (query.splitOn '&').filterMap (formEntry decode)

def isTabOrNewline (c : Char) : Bool := c == '\t' || c == '\n' || c == '\r'

def isControlOrSpace (c : Char) : Bool := decide (c.toNat ≤ 32)

/-- What the URL parser makes of a query before it is split. -/
def queryText (query fragment : Text) : Text :=
  (if fragment.isEmpty then query.rdropWhile isControlOrSpace else query).filter fun c => !isTabOrNewline c

def StartsFragment (text : Text) : Prop := text = [] ∨ ∃ rest, text = '#' :: rest

/-- Delimiters of a user's name, and of the scheme before it. -/
def isUserDelimiter (c : Char) : Bool := decide (c ∈ (":/?#@\\" : Text))

def isSpecial (uri : Text) : Bool :=
  let scheme := ((splitOnce ':' (uri.dropWhile isControlOrSpace)).map Prod.fst).getD []
  decide (toAsciiLowercase (scheme.filter fun c => !isTabOrNewline c) ∈
    (["http", "https", "ws", "wss", "ftp", "file"] : List Text))

def endsAuthority (special : Bool) (c : Char) : Bool := c == '/' || c == '?' || c == '#' || (special && c == '\\')

/-- What the URL parser encodes in a user's name and a password. -/
def userinfoSet (c : Char) : Bool :=
  decide (c.toNat < 33) || decide (126 < c.toNat) || decide (c ∈ ("\"#<>?`\x7b\x7d/:;=@[\\]^|" : Text))

def passwordSet (c : Char) : Bool := c == '%' || userinfoSet c

def valueSet (c : Char) : Bool := !(c.isAlphanum || c == '-' || c == '.' || c == '_' || c == '~')

def OpensPassword (text : Text) : Prop :=
  ∃ scheme user : Text, text = scheme ++ "://" ++ user ++ ":" ∧ (∀ c ∈ scheme, isUserDelimiter c = false) ∧
    ∀ c ∈ user, isUserDelimiter c = false

/-- The text after a password: no later at sign is in the authority. -/
def ClosesPassword (special : Bool) (text : Text) : Prop :=
  ∃ host : Text, text = '@' :: host ∧ '@' ∉ host.takeWhile fun c => !endsAuthority special c

def InPassword (special : Bool) (text : Text) : Prop := ∀ c ∈ text, endsAuthority special c = false ∧ isTabOrNewline c = false

/-- What is known of the URL parser. The query stands between the first question mark and the fragment, and is a form.
A password is anything before the last at sign of the authority, and its characters are encoded one by one. -/
structure UrlGrammar (services : UriServices) (decode : Text → Text) : Prop where
  form : ∀ query, (services.formPairs query).map QueryPair.entry = formEntries decode query
  query : ∀ {head query fragment parsed}, '?' ∉ head → '#' ∉ head → '#' ∉ query → StartsFragment fragment →
    services.parseUrl (head ++ '?' :: (query ++ fragment)) = .ok parsed →
      parsed.queryPairs.map QueryPair.entry = formEntries decode (queryText query fragment)
  head : ∀ {head query query' fragment}, '?' ∉ head → '#' ∉ head → '#' ∉ query → '#' ∉ query' → StartsFragment fragment →
    (services.connectionUrl (head ++ '?' :: (query ++ fragment)) = services.connectionUrl (head ++ '?' :: (query' ++ fragment))) ∧
      ((∃ error error', services.parseUrl (head ++ '?' :: (query ++ fragment)) = .error error ∧
          services.parseUrl (head ++ '?' :: (query' ++ fragment)) = .error error') ∨
        ∃ parsed parsed', services.parseUrl (head ++ '?' :: (query ++ fragment)) = .ok parsed ∧
          services.parseUrl (head ++ '?' :: (query' ++ fragment)) = .ok parsed' ∧
          parsed.scheme = parsed'.scheme ∧ parsed.host = parsed'.host ∧ parsed.path = parsed'.path)
  password : ∀ {left right password password'}, OpensPassword left → ClosesPassword (isSpecial left) right →
    InPassword (isSpecial left) password → InPassword (isSpecial left) password' →
      ReadAlike services (left ++ password ++ right) (left ++ password' ++ right) ∧
      (Percent.encode userinfoSet password = Percent.encode userinfoSet password' →
        services.connectionUrl (left ++ password ++ right) = services.connectionUrl (left ++ password' ++ right))

/-- The text before a parameter's value: other parameters and the name. -/
def OpensValue (query : Text) : Prop :=
  ∃ params name : Text, query = params ++ (name ++ "=") ∧ '&' ∉ name ∧ '=' ∉ name ∧
    (params = [] ∨ ∃ earlier : Text, params = earlier ++ "&")

def ClosesValue (query : Text) : Prop := query = [] ∨ ∃ rest, query = '&' :: rest

inductive Slot where
  | password
  | value
  | middlewareValue

/-- The variable is a whole password or a whole query value: which segments come before its own, and what stands on
both sides of it in that. -/
inductive Slot.Stands : Slot → List Text → Text → Text → Prop where
  | password {left right : Text} (opens : OpensPassword left) (closes : ClosesPassword (isSpecial left) right) :
      Stands .password [] left right
  | value {head query query' fragment : Text} (noQuery : '?' ∉ head) (noFragment : '#' ∉ head) (inQuery : '#' ∉ query)
      (inQuery' : '#' ∉ query') (opens : OpensValue query) (closes : ClosesValue query') (fragment_ : StartsFragment fragment) :
      Stands .value [] (head ++ '?' :: query) (query' ++ fragment)
  | middlewareValue {base name query query' : Text} {between : List Text} (noQuery : '?' ∉ name) (opens : OpensValue query)
      (closes : ClosesValue query') : Stands .middlewareValue (base :: between) (name ++ '?' :: query) query'

def Slot.encode : Slot → Text → Text
  | .password => Percent.encode passwordSet
  | .value | .middlewareValue => Percent.encode valueSet

/-- No character of the value means something in its place. -/
def Slot.Inert (services : UriServices) (decode : Text → Text) (slot : Slot) (left right value : Text) : Prop :=
  '|' ∉ value ∧
    match slot with
    | .password => InPassword (isSpecial left) value ∧ '%' ∉ value ∧
      ∀ parsed, services.parseUrl (left ++ value ++ right) = .ok parsed → keepsText services parsed.scheme = true →
        slot.encode value = value
    | .value => '&' ∉ value ∧ '#' ∉ value ∧ (∀ c ∈ value, isTabOrNewline c = false) ∧
      (right = [] → ∀ c ∈ value.getLast?, isControlOrSpace c = false) ∧ decode value = value
    | .middlewareValue => '&' ∉ value ∧ decode value = value

/-! ### Forms -/

section
variable {decode : Text → Text}

theorem OpensValue.pieces {query : Text} (opens : OpensValue query) :
    ∃ (earlier : List Text) (name : Text), '=' ∉ name ∧ query.splitOn '&' = earlier ++ [name ++ "="] := by
  obtain ⟨params, name, rfl, noAmp, noEq, closed⟩ := opens
  have last : (name ++ "=" : Text).splitOn '&' = [name ++ "="] := List.splitOn_eq_singleton (by simpa [lit] using noAmp)
  rcases closed with rfl | ⟨earlier, rfl⟩
  · exact ⟨[], name, noEq, last⟩
  · obtain ⟨before, piece, pieces⟩ := (List.eq_nil_or_concat (earlier.splitOn '&')).resolve_left (List.splitOn_ne_nil _ _)
    rw [List.concat_eq_append] at pieces
    have rest : (lit "&" ++ (name ++ lit "=")).splitOn '&' = [] :: [name ++ lit "="] := by
      rw [← last]
      exact (List.splitOn_cons_eq_if_modifyHead ..).trans (if_pos (beq_self_eq_true _))
    refine ⟨before ++ [piece], name, noEq, ?_⟩
    rw [List.append_assoc, Blanking.splitOn_append pieces rest]
    simp

theorem ClosesValue.pieces {query : Text} (closes : ClosesValue query) : ∃ later : List Text, query.splitOn '&' = [] :: later := by
  rcases closes with rfl | ⟨rest, rfl⟩
  · exact ⟨[], List.splitOn_nil _⟩
  · refine ⟨rest.splitOn '&', ?_⟩
    rw [List.splitOn_cons_eq_if_modifyHead, if_pos (beq_self_eq_true _)]

/-- Two values that decode alike give a form the same pairs. -/
theorem formEntries_value {query query' value value' : Text} (opens : OpensValue query) (closes : ClosesValue query')
    (noAmp : '&' ∉ value) (noAmp' : '&' ∉ value') (same : decode value = decode value') :
    formEntries decode (query ++ value ++ query') = formEntries decode (query ++ value' ++ query') := by
  obtain ⟨earlier, name, noEq, before⟩ := opens.pieces
  obtain ⟨later, after⟩ := closes.pieces
  have entries : ∀ value, '&' ∉ value → formEntries decode (query ++ value ++ query') =
      earlier.filterMap (formEntry decode) ++ (decode name, decode value) :: later.filterMap (formEntry decode) := by
    intro value noAmp
    have entry : formEntry decode (name ++ lit "=" ++ (value ++ [])) = some (decode name, decode value) := by
      have split : splitOnce '=' (name ++ lit "=" ++ (value ++ [])) = some (name, value) := by
        have := splitOnce_append (b := value) noEq
        simpa [lit] using this
      rw [formEntry, if_neg (by simp [lit]), split]
    rw [formEntries, List.append_assoc, Blanking.splitOn_append before (Blanking.splitOn_append_of_notMem noAmp after),
      List.filterMap_append, List.filterMap_cons, entry]
  rw [entries value noAmp, entries value' noAmp', same]

theorem OpensValue.filtered {query : Text} (opens : OpensValue query) :
    OpensValue (query.filter fun c => !isTabOrNewline c) := by
  obtain ⟨params, name, rfl, noAmp, noEq, closed⟩ := opens
  refine ⟨params.filter fun c => !isTabOrNewline c, name.filter fun c => !isTabOrNewline c, ?_, ?_, ?_, ?_⟩
  · rw [List.filter_append, List.filter_append]
    rfl
  · exact fun inside => noAmp (List.mem_of_mem_filter inside)
  · exact fun inside => noEq (List.mem_of_mem_filter inside)
  · rcases closed with rfl | ⟨earlier, rfl⟩
    · exact .inl rfl
    · refine .inr ⟨earlier.filter fun c => !isTabOrNewline c, ?_⟩
      rw [List.filter_append]
      rfl

theorem ClosesValue.read {query : Text} (closes : ClosesValue query) (fragment : Text) :
    ClosesValue (queryText query fragment) := by
  rcases closes with rfl | ⟨rest, rfl⟩
  · left
    unfold queryText
    split <;> rfl
  · right
    unfold queryText
    split
    · have stop := rdropWhile_append (p := isControlOrSpace) (c := '&') rfl [] rest
      exact ⟨_, congrArg (List.filter fun c => !isTabOrNewline c) stop⟩
    · exact ⟨_, rfl⟩

theorem queryText_value {query query' fragment value : Text} (opens : OpensValue query) (closes : ClosesValue query')
    (plain : ∀ c ∈ value, isTabOrNewline c = false)
    (ends : query' ++ fragment = [] → ∀ c ∈ value.getLast?, isControlOrSpace c = false) :
    queryText (query ++ value ++ query') fragment =
      (query.filter fun c => !isTabOrNewline c) ++ value ++ queryText query' fragment := by
  have kept : value.filter (fun c => !isTabOrNewline c) = value :=
    List.filter_eq_self.mpr fun c member => by rw [plain c member]; rfl
  have stays : fragment.isEmpty = true → (query ++ value ++ query').rdropWhile isControlOrSpace =
      query ++ value ++ query'.rdropWhile isControlOrSpace := by
    intro empty
    rcases closes with rfl | ⟨rest, rfl⟩
    · have blankless := ends (by simpa using empty)
      rw [List.append_nil, List.rdropWhile_nil, List.append_nil]
      rcases List.eq_nil_or_concat value with rfl | ⟨front, last, rfl⟩
      · obtain ⟨params, name, rfl, -⟩ := opens
        have stop := rdropWhile_append (p := isControlOrSpace) (c := '=') rfl (params ++ name) []
        simpa [lit] using stop
      · have stop := rdropWhile_append (blankless last (by simp)) (query ++ front) []
        simpa using stop
    · have stop := rdropWhile_append (p := isControlOrSpace) (c := '&') rfl [] rest
      rw [rdropWhile_append rfl]
      exact congrArg (query ++ value ++ ·) stop.symm
  unfold queryText
  split
  · next empty => rw [stays empty, List.filter_append, List.filter_append, kept]
  · rw [List.filter_append, List.filter_append, kept]

end

theorem control_encoded {c : Char} (control : isControlOrSpace c = true) :
    Percent.isEscape c = false ∧ valueSet c = true ∧ passwordSet c = true := by
  have all : ∀ n : Fin 33, Percent.isEscape (Char.ofNat n) = false ∧ valueSet (Char.ofNat n) = true ∧
      passwordSet (Char.ofNat n) = true := by decide
  have small : c.toNat < 33 := Nat.lt_succ_of_le (by simpa [isControlOrSpace] using control)
  exact Percent.of_toNat_lt small all

theorem isControlOrSpace_of_tab {c : Char} (tab : isTabOrNewline c = true) : isControlOrSpace c = true := by
  simp only [isTabOrNewline, Bool.or_eq_true, beq_iff_eq] at tab
  rcases tab with (rfl | rfl) | rfl <;> rfl

theorem value_encoded (value : Text) {c : Char} (member : c ∈ Percent.encode valueSet value) : isControlOrSpace c = false := by
  by_contra control
  obtain ⟨sign, inSet, -⟩ := control_encoded (by simpa using control)
  exact Percent.notMem_encode sign inSet value member

theorem userinfoSet_escape {c : Char} (escape : Percent.isEscape c = true) : userinfoSet c = false := by
  have all : ∀ n : Fin 128, Percent.isEscape (Char.ofNat n) = true → userinfoSet (Char.ofNat n) = false := by decide
  have small := Percent.toNat_lt_of_isEscape escape
  revert escape
  exact Percent.of_toNat_lt small all

theorem inPassword_encode (special : Bool) (value : Text) : InPassword special (Percent.encode passwordSet value) := by
  intro c member
  constructor
  · by_contra ends
    have outside : Percent.isEscape c = false ∧ passwordSet c = true := by
      simp only [endsAuthority, Bool.not_eq_false, Bool.or_eq_true, Bool.and_eq_true, beq_iff_eq] at ends
      rcases ends with ((rfl | rfl) | rfl) | ⟨-, rfl⟩ <;> decide
    exact Percent.notMem_encode outside.1 outside.2 value member
  · by_contra tab
    obtain ⟨sign, -, inSet⟩ := control_encoded (isControlOrSpace_of_tab (by simpa using tab))
    exact Percent.notMem_encode sign inSet value member

theorem userinfo_password {value : Text} (noPercent : '%' ∉ value) :
    Percent.encode userinfoSet value = Percent.encode userinfoSet (Percent.encode passwordSet value) := by
  rw [Percent.encode_encode (fun _ => userinfoSet_escape) (by simp [passwordSet])]
  refine Percent.encode_congr fun c member => ?_
  have other : (c == '%') = false := by
    rw [beq_eq_false_iff_ne]
    rintro rfl
    exact noPercent member
  rw [passwordSet, other, Bool.false_or]

/-! ### A value in its place -/

section
variable {services : UriServices} {decode : Text → Text} {left right value : Text}

theorem password_sameUrl (grammar : UrlGrammar services decode) (opens : OpensPassword left)
    (closes : ClosesPassword (isSpecial left) right) (inert : Slot.password.Inert services decode left right value) :
    SameUrl services (left ++ value ++ right) (left ++ Slot.password.encode value ++ right) := by
  obtain ⟨-, plain, noPercent, kept⟩ := inert
  obtain ⟨read, connection⟩ := grammar.password opens closes plain (inPassword_encode _ value)
  exact ⟨read, connection (userinfo_password noPercent), fun parsed text => by rw [kept _ parsed text]⟩

theorem value_sameUrl (grammar : UrlGrammar services decode) (decoded : decode (Percent.encode valueSet value) = value)
    {head query query' fragment : Text} (noQuery : '?' ∉ head) (noFragment : '#' ∉ head) (inQuery : '#' ∉ query)
    (inQuery' : '#' ∉ query') (opens : OpensValue query) (closes : ClosesValue query') (fragment_ : StartsFragment fragment)
    (inert : Slot.value.Inert services decode (head ++ '?' :: query) (query' ++ fragment) value) :
    SameUrl services (head ++ '?' :: query ++ value ++ (query' ++ fragment))
      (head ++ '?' :: query ++ Slot.value.encode value ++ (query' ++ fragment)) := by
  obtain ⟨-, noAmp, noHash, plain, ends, same⟩ := inert
  have shape : ∀ value, head ++ '?' :: query ++ value ++ (query' ++ fragment) =
      head ++ '?' :: ((query ++ value ++ query') ++ fragment) := by simp
  rw [shape, shape, Slot.encode]
  have noAmp' : '&' ∉ Percent.encode valueSet value := Percent.notMem_encode rfl rfl value
  have noHash' : '#' ∉ Percent.encode valueSet value := Percent.notMem_encode rfl rfl value
  have inWhole : '#' ∉ query ++ value ++ query' := by simp [inQuery, inQuery', noHash]
  have inWhole' : '#' ∉ query ++ Percent.encode valueSet value ++ query' := by simp [inQuery, inQuery', noHash']
  have plain' : ∀ c ∈ Percent.encode valueSet value, isTabOrNewline c = false := by
    intro c member
    by_contra tab
    have control := isControlOrSpace_of_tab (by simpa using tab)
    rw [value_encoded value member] at control
    cases control
  have ends' : ∀ c ∈ (Percent.encode valueSet value).getLast?, isControlOrSpace c = false := fun c last =>
    value_encoded value (List.mem_of_getLast? last)
  have pairs : formEntries decode (queryText (query ++ value ++ query') fragment) =
      formEntries decode (queryText (query ++ Percent.encode valueSet value ++ query') fragment) := by
    rw [queryText_value opens closes plain ends, queryText_value opens closes plain' fun _ => ends']
    exact formEntries_value opens.filtered (closes.read fragment) noAmp noAmp' (same.trans decoded.symm)
  obtain ⟨connection, alike⟩ := grammar.head noQuery noFragment inWhole inWhole' fragment_
  refine ⟨?_, connection, fun _ _ => ?_⟩
  · rcases alike with ⟨_, _, read, read'⟩ | ⟨parsed, parsed', read, read', scheme, host, path⟩
    · exact .refused read read'
    · refine .accepted read read' scheme ⟨host, path, ?_⟩
      rw [grammar.query noQuery noFragment inWhole fragment_ read, grammar.query noQuery noFragment inWhole' fragment_ read',
        pairs]
  · unfold beforeQuery
    rw [splitOnce_append noQuery, splitOnce_append noQuery]
    rfl

theorem middlewareValue_agree (grammar : UrlGrammar services decode)
    (decoded : decode (Percent.encode valueSet value) = value) {name query : Text} (noQuery : '?' ∉ name)
    (opens : OpensValue query) (closes : ClosesValue right)
    (inert : Slot.middlewareValue.Inert services decode (name ++ '?' :: query) right value) :
    (middlewareOf services (name ++ '?' :: query ++ value ++ right)).toOption =
      (middlewareOf services (name ++ '?' :: query ++ Slot.middlewareValue.encode value ++ right)).toOption := by
  obtain ⟨-, noAmp, same⟩ := inert
  have shape : ∀ value, splitOnce '?' (name ++ '?' :: query ++ value ++ right) = some (name, query ++ value ++ right) := by
    intro value
    have split := splitOnce_append (b := query ++ value ++ right) noQuery
    simpa using split
  refine middlewareOf_agree ?_ ?_
  · simp only [middlewareName, beforeQuery, shape]
    rfl
  · simp only [middlewareQuery, shape, Option.map_some, Option.getD_some, grammar.form]
    exact formEntries_value opens closes noAmp (Percent.notMem_encode rfl rfl value) (same.trans decoded.symm)

theorem Slot.encode_noBar (slot : Slot) (value : Text) : '|' ∉ slot.encode value := by
  cases slot <;> exact Percent.notMem_encode rfl rfl value

/-- Two texts of one variable, in segments that agree, make one endpoint. -/
theorem endpointFromUri_spliced {front back : Text} {earlier later : List Text} {value' : Text}
    (opened : front.splitOn '|' = earlier ++ [left]) (closed : back.splitOn '|' = right :: later) (noBar : '|' ∉ value)
    (noBar' : '|' ∉ value') (base : earlier = [] → SameUrl services (left ++ value ++ right) (left ++ value' ++ right))
    (spec : earlier ≠ [] → (middlewareOf services (left ++ value ++ right)).toOption =
      (middlewareOf services (left ++ value' ++ right)).toOption) :
    (endpointFromUri services (front ++ value ++ back)).toOption = (endpointFromUri services (front ++ value' ++ back)).toOption := by
  have segments : ∀ value, '|' ∉ value → baseSegment (front ++ value ++ back) :: middlewareSpecs (front ++ value ++ back) =
      earlier ++ (left ++ value ++ right) :: later := by
    intro value noBar
    rw [← splitOn_segments, List.append_assoc,
      Blanking.splitOn_append opened (Blanking.splitOn_append_of_notMem noBar closed), List.append_assoc]
  have first := segments value noBar
  have second := segments value' noBar'
  cases earlier with
  | nil =>
    obtain ⟨base₁, specs₁⟩ := List.cons.inj first
    obtain ⟨base₂, specs₂⟩ := List.cons.inj second
    refine endpointFromUri_agree ?_ ?_
    · rw [base₁, base₂]
      exact base rfl
    · rw [specs₁, specs₂]
      exact List.forall₂_same.mpr fun _ _ => rfl
  | cons segment between =>
    obtain ⟨base₁, specs₁⟩ := List.cons.inj first
    obtain ⟨base₂, specs₂⟩ := List.cons.inj second
    refine endpointFromUri_agree ?_ ?_
    · rw [base₁, base₂]
      exact .refl services segment
    · rw [specs₁, specs₂]
      refine Blanking.map_eq_map_iff_forall₂.mp ?_
      show (between ++ _).map _ = (between ++ _).map _
      rw [List.map_append, List.map_append, List.map_cons, List.map_cons, spec (by simp)]

end

/-- An accepted copy URI names the endpoint of the URI with the value percent-encoded, if no character of the value means
something where it stands. -/
theorem expansion_encoded {services : UriServices} {decode : Text → Text} (grammar : UrlGrammar services decode)
    {templateParts : Text → List TemplatePart} {environment : Text → Option Text} {template name value : Text}
    {before after : List TemplatePart} (parts : templateParts template = before ++ .reference name :: after)
    (defined : environment name = some value) (decoded : decode (Percent.encode valueSet value) = value)
    {earlier later : List Text} {left right : Text}
    (opened : (expandedText environment before).splitOn '|' = earlier ++ [left])
    (closed : (expandedText environment after).splitOn '|' = right :: later) {slot : Slot}
    (stands : slot.Stands earlier left right) (inert : slot.Inert services decode left right value) {endpoint : Endpoint}
    (accepted : copyEndpoint environment services templateParts template = .ok endpoint) :
    endpointFromUri services (expandedText environment before ++ slot.encode value ++ expandedText environment after) =
      .ok endpoint := by
  obtain ⟨expanded, expansion, accepted⟩ := bind_ok.mp accepted
  obtain rfl := expandUriVariables_ok expansion
  rw [parts, expandedText_reference defined] at accepted
  rw [← toOption_eq_some, ← endpointFromUri_spliced opened closed inert.1 (slot.encode_noBar value) ?_ ?_, toOption_eq_some]
  · exact accepted
  · rintro rfl
    cases stands with
    | password opens closes => exact password_sameUrl grammar opens closes inert
    | value noQuery noFragment inQuery inQuery' opens closes fragment_ =>
      exact value_sameUrl grammar decoded noQuery noFragment inQuery inQuery' opens closes fragment_ inert
  · intro notBase
    cases stands with
    | password => exact absurd rfl notBase
    | value => exact absurd rfl notBase
    | middlewareValue noQuery opens closes => exact middlewareValue_agree grammar decoded noQuery opens closes inert

/-! ### A value that adds a middleware -/

def upperHexValue (c : Char) : Nat := if c.isDigit then c.toNat - 48 else c.toNat - 55

def asciiDecode : Text → Text
  | '%' :: a :: b :: rest =>
    if Percent.isUpperHex a && Percent.isUpperHex b then Char.ofNat (16 * upperHexValue a + upperHexValue b) :: asciiDecode rest
    else '%' :: asciiDecode (a :: b :: rest)
  | '+' :: rest => ' ' :: asciiDecode rest
  | c :: rest => c :: asciiDecode rest
  | [] => []

theorem asciiDecode_length (text : Text) : (asciiDecode text).length ≤ text.length := by
  fun_induction asciiDecode text with
  | case1 a b rest hex ih => simp only [List.length_cons]; omega
  | case2 a b rest hex ih => simp only [List.length_cons] at ih ⊢; omega
  | case3 rest ih => simp only [List.length_cons]; omega
  | case4 c rest _ _ ih => simp only [List.length_cons]; omega
  | case5 => exact Nat.le_refl _

def formPairsWithin (bound : Nat) (query : Text) : List (QueryPair bound) :=
  (formEntries asciiDecode query).filterMap fun entry =>
    if shorter : entry.2.length < bound then some ⟨entry.1, entry.2, shorter⟩ else none

theorem formEntries_length {query : Text} {entry : Text × Text} (member : entry ∈ formEntries asciiDecode query) :
    entry.2.length ≤ query.length := by
  obtain ⟨pair, inside, found⟩ := List.mem_filterMap.mp member
  have within := Blanking.length_le_of_mem_splitOn inside
  unfold formEntry at found
  split at found
  · cases found
  · cases split : splitOnce '=' pair with
    | none =>
      rw [split] at found
      obtain rfl := Option.some.inj found
      exact Nat.zero_le _
    | some parts =>
      obtain ⟨name, value⟩ := parts
      rw [split] at found
      obtain rfl := Option.some.inj found
      obtain ⟨rfl, -⟩ := splitOnce_eq_some.mp split
      have decoded := asciiDecode_length value
      simp only [List.length_append, List.length_cons] at within ⊢
      omega

theorem formPairsWithin_entry {bound : Nat} {query : Text} (short : query = [] ∨ query.length < bound) :
    (formPairsWithin bound query).map QueryPair.entry = formEntries asciiDecode query := by
  rcases short with rfl | short
  · rfl
  · unfold formPairsWithin
    rw [List.map_filterMap]
    have each : ∀ entry ∈ formEntries asciiDecode query, (if shorter : entry.2.length < bound then
        some (⟨entry.1, entry.2, shorter⟩ : QueryPair bound) else none).map QueryPair.entry = some entry := by
      intro entry member
      have within := formEntries_length member
      rw [dif_pos (by omega)]
      rfl
    rw [List.filterMap_congr each]
    exact List.filterMap_some

def headText (uri : Text) : Text := uri.takeWhile fun c => c != '?' && c != '#'

def uriQuery (uri : Text) : Text :=
  match uri.dropWhile fun c => c != '?' && c != '#' with
  | '?' :: rest => queryText (rest.takeWhile (· != '#')) (rest.dropWhile (· != '#'))
  | _ => []

def withoutUserinfo (head : Text) : Text := ((rsplitOnce '@' head).map Prod.snd).getD head

/-- The host and the path in the text after a scheme. -/
def hostAndPath (special : Bool) (rest : Text) : Text × Text :=
  match stripPrefix "//" rest with
  | some authority =>
    ((withoutUserinfo (authority.takeWhile fun c => !endsAuthority special c)).takeWhile (· != ':'),
      authority.dropWhile fun c => !endsAuthority special c)
  | none => ([], rest)

def parseFormUrl (uri : Text) : Except Text (ParsedUri uri.length) :=
  match splitOnce ':' (headText uri) with
  | none => .error "relative URL without a base"
  | some (scheme, rest) =>
    let (host, path) := hostAndPath (isSpecial (headText uri)) rest
    .ok ⟨scheme, host, path, formPairsWithin _ (uriQuery uri)⟩

def expansionServices : UriServices :=
  { natsServices with
    parseUrl := parseFormUrl
    formPairs := fun query => formPairsWithin _ query
    connectionUrl := fun uri _ _ => withoutUserinfo (headText uri)
    buildEndpoint := fun tag config =>
      match tag == ("nats" : Text), config.lookup ("url" : Text), config.lookup ("subject" : Text) with
      | true, some (.str url), some (.str subject) =>
        .ok (.connector .nats (.record [("url", .str url), ("subject", .str subject)]))
      | _, _, _ => .error "unknown variant"
    buildMiddleware := fun tag _ =>
      if tag = "metrics" then .ok (.other "metrics" (.record []) (by decide)) else .error "unknown variant" }

theorem queryText_length (query fragment : Text) : (queryText query fragment).length ≤ query.length := by
  unfold queryText
  refine (List.length_filter_le _ _).trans ?_
  split
  · exact (List.rdropWhile_prefix _ _).length_le
  · exact Nat.le_refl _

theorem uriQuery_length (uri : Text) : uriQuery uri = [] ∨ (uriQuery uri).length < uri.length := by
  unfold uriQuery
  split
  · next rest found =>
    have whole := (List.dropWhile_suffix (fun c => c != '?' && c != '#') (l := uri)).length_le
    have part := (List.takeWhile_prefix (· != '#') (l := rest)).length_le
    have read := queryText_length (rest.takeWhile (· != '#')) (rest.dropWhile (· != '#'))
    rw [found, List.length_cons] at whole
    exact .inr (by omega)
  · exact .inl rfl

theorem headText_append {head : Text} (noQuery : '?' ∉ head) (noFragment : '#' ∉ head) (rest : Text) :
    headText (head ++ rest) = head ++ headText rest ∧ uriQuery (head ++ rest) = uriQuery rest := by
  have plain : ∀ c ∈ head, (c != '?' && c != '#') = true := by
    intro c member
    simp only [Bool.and_eq_true, bne_iff_ne]
    exact ⟨fun same => noQuery (same ▸ member), fun same => noFragment (same ▸ member)⟩
  unfold headText uriQuery
  rw [List.takeWhile_append_of_pos plain, List.dropWhile_append_of_pos plain]
  exact ⟨rfl, rfl⟩

theorem fragment_split {query fragment : Text} (inQuery : '#' ∉ query) (starts : StartsFragment fragment) :
    (query ++ fragment).takeWhile (· != '#') = query ∧ (query ++ fragment).dropWhile (· != '#') = fragment := by
  have plain : ∀ c ∈ query, (c != '#') = true := fun c member => by
    simp only [bne_iff_ne]
    exact fun same => inQuery (same ▸ member)
  rw [List.takeWhile_append_of_pos plain, List.dropWhile_append_of_pos plain]
  rcases starts with rfl | ⟨rest, rfl⟩ <;> simp

theorem headText_query {head query fragment : Text} (noQuery : '?' ∉ head) (noFragment : '#' ∉ head) (inQuery : '#' ∉ query)
    (starts : StartsFragment fragment) : headText (head ++ '?' :: (query ++ fragment)) = head ∧
      uriQuery (head ++ '?' :: (query ++ fragment)) = queryText query fragment := by
  obtain ⟨taken, dropped⟩ := fragment_split inQuery starts
  obtain ⟨text, read⟩ := headText_append noQuery noFragment ('?' :: (query ++ fragment))
  refine ⟨by rw [text]; simp [headText], ?_⟩
  rw [read]
  simp [uriQuery, taken, dropped]

theorem parseFormUrl_ok {uri : Text} {parsed : ParsedUri uri.length} (read : parseFormUrl uri = .ok parsed) :
    parsed.queryPairs.map QueryPair.entry = formEntries asciiDecode (uriQuery uri) := by
  unfold parseFormUrl at read
  split at read
  · cases read
  · obtain rfl := Except.ok.inj read
    exact formPairsWithin_entry (uriQuery_length uri)

theorem withoutUserinfo_at (userinfo host : Text) : withoutUserinfo (userinfo ++ '@' :: host) = withoutUserinfo host := by
  unfold withoutUserinfo
  cases split : rsplitOnce '@' host with
  | none =>
    rw [rsplitOnce_append (rsplitOnce_eq_none.mp split)]
    rfl
  | some parts =>
    obtain ⟨before, after⟩ := parts
    obtain ⟨rfl, absent⟩ := rsplitOnce_eq_some.mp split
    have shape : userinfo ++ '@' :: (before ++ '@' :: after) = (userinfo ++ '@' :: before) ++ '@' :: after := by simp
    rw [shape, rsplitOnce_append absent]
    rfl

theorem headText_password {special : Bool} {scheme user password host : Text} (plain : ∀ c ∈ scheme, isUserDelimiter c = false)
    (plain' : ∀ c ∈ user, isUserDelimiter c = false) (inPassword : InPassword special password) :
    headText (scheme ++ "://" ++ user ++ ":" ++ password ++ '@' :: host) =
        scheme ++ ':' :: ("//" ++ user ++ ":" ++ password ++ '@' :: headText host) ∧
      uriQuery (scheme ++ "://" ++ user ++ ":" ++ password ++ '@' :: host) = uriQuery host := by
  have outside : ∀ c, isUserDelimiter c = true → c ∉ scheme ∧ c ∉ user := fun c delimiter =>
    ⟨fun member => by simp [plain c member] at delimiter, fun member => by simp [plain' c member] at delimiter⟩
  have inside : ∀ c, endsAuthority special c = true → c ∉ password := fun c ends member => by
    simp [(inPassword c member).1] at ends
  have shape : scheme ++ lit "://" ++ user ++ lit ":" ++ password ++ '@' :: host =
      (scheme ++ lit "://" ++ user ++ lit ":" ++ password ++ ['@']) ++ host := by simp
  obtain ⟨text, query⟩ := @headText_append (scheme ++ lit "://" ++ user ++ lit ":" ++ password ++ ['@'])
    (by simp [outside '?' rfl, inside '?' rfl, lit]) (by simp [outside '#' rfl, inside '#' rfl, lit]) host
  rw [shape]
  exact ⟨by rw [text]; simp [lit], query⟩

theorem isSpecial_scheme {scheme : Text} (noColon : ':' ∉ scheme) (rest rest' : Text) :
    isSpecial (scheme ++ ':' :: rest) = isSpecial (scheme ++ ':' :: rest') := by
  have front : ∀ rest : Text, ((splitOnce ':' ((scheme ++ ':' :: rest).dropWhile isControlOrSpace)).map Prod.fst).getD [] =
      scheme.dropWhile isControlOrSpace := by
    intro rest
    have kept : (scheme ++ ':' :: rest).dropWhile isControlOrSpace = scheme.dropWhile isControlOrSpace ++ ':' :: rest := by
      rw [List.dropWhile_append]
      split
      · next empty =>
        rw [List.isEmpty_iff.mp empty, List.dropWhile_cons_of_neg (by decide)]
        rfl
      · rfl
    rw [kept, splitOnce_append fun member => noColon (List.dropWhile_subset _ member)]
    rfl
  unfold isSpecial
  rw [front, front]

/-- The password is no part of the host or the path. -/
theorem hostAndPath_password {special : Bool} {user password : Text} (plain : ∀ c ∈ user, isUserDelimiter c = false)
    (inPassword : InPassword special password) (host : Text) :
    hostAndPath special ("//" ++ user ++ ":" ++ password ++ '@' :: host) = hostAndPath special ("//" ++ host) := by
  have inUser : ∀ c ∈ user, endsAuthority special c = false := by
    intro c member
    have other := plain c member
    cases ends : endsAuthority special c with
    | false => rfl
    | true =>
      simp only [endsAuthority, Bool.or_eq_true, beq_iff_eq, Bool.and_eq_true] at ends
      rcases ends with ((rfl | rfl) | rfl) | ⟨-, rfl⟩ <;> exact absurd other (by decide)
  have userinfo : ∀ c ∈ user ++ (":" ++ (password ++ ['@'])), (!endsAuthority special c) = true := by
    intro c member
    rw [Bool.not_eq_true']
    rcases List.mem_append.mp member with inside | later
    · exact inUser c inside
    rcases List.mem_append.mp later with colon | later
    · obtain rfl := List.mem_singleton.mp colon
      cases special <;> rfl
    rcases List.mem_append.mp later with inside | at_
    · exact (inPassword c inside).1
    · obtain rfl := List.mem_singleton.mp at_
      cases special <;> rfl
  have shape : ("//" : Text) ++ user ++ ":" ++ password ++ '@' :: host =
      "//" ++ ((user ++ (":" ++ (password ++ ['@']))) ++ host) := by simp
  have dropped : withoutUserinfo ((user ++ (":" ++ (password ++ ['@']))) ++ host.takeWhile fun c => !endsAuthority special c) =
      withoutUserinfo (host.takeWhile fun c => !endsAuthority special c) := by
    have at_ : (user ++ (":" ++ (password ++ ['@']))) ++ (host.takeWhile fun c => !endsAuthority special c) =
        (user ++ ":" ++ password) ++ '@' :: (host.takeWhile fun c => !endsAuthority special c) := by simp
    rw [at_, withoutUserinfo_at]
  simp only [shape, hostAndPath, stripPrefix_append, List.takeWhile_append_of_pos userinfo,
    List.dropWhile_append_of_pos userinfo, dropped]

theorem expansionServices_grammar : UrlGrammar expansionServices asciiDecode where
  form query := formPairsWithin_entry (.inr (Nat.lt_succ_self _))
  query noQuery noFragment inQuery starts read := by
    rw [parseFormUrl_ok read, (headText_query noQuery noFragment inQuery starts).2]
  head := by
    intro head query query' fragment noQuery noFragment inQuery inQuery' starts
    have text := (headText_query noQuery noFragment inQuery starts).1
    have text' := (headText_query noQuery noFragment inQuery' starts).1
    constructor
    · simp only [expansionServices, text, text']
    · simp only [expansionServices, parseFormUrl]
      rw [text, text']
      cases splitOnce ':' head with
      | none => exact .inl ⟨_, _, rfl, rfl⟩
      | some parts => exact .inr ⟨_, _, rfl, rfl, rfl, rfl, rfl⟩
  password := by
    rintro _ _ password password' ⟨scheme, user, rfl, inScheme, inUser⟩ ⟨host, rfl, -⟩ plain plain'
    obtain ⟨text, query⟩ := @headText_password _ scheme user password host inScheme inUser plain
    obtain ⟨text', query'⟩ := @headText_password _ scheme user password' host inScheme inUser plain'
    have noColon : ':' ∉ scheme := fun member => by simpa [isUserDelimiter, lit] using inScheme ':' member
    constructor
    · have same : ∀ rest : Text, isSpecial (scheme ++ ':' :: rest) = isSpecial (scheme ++ "://" ++ user ++ ":") := by
        intro rest
        have shape : scheme ++ lit "://" ++ user ++ lit ":" = scheme ++ ':' :: ("//" ++ user ++ ":") := by simp [lit]
        rw [shape]
        exact isSpecial_scheme noColon _ _
      have read : ∀ {uri password}, InPassword (isSpecial (scheme ++ "://" ++ user ++ ":")) password →
          headText uri = scheme ++ ':' :: ("//" ++ user ++ ":" ++ password ++ '@' :: headText host) →
          parseFormUrl uri = .ok
            { scheme
              host := (hostAndPath (isSpecial (scheme ++ "://" ++ user ++ ":")) ("//" ++ headText host)).1
              path := (hostAndPath (isSpecial (scheme ++ "://" ++ user ++ ":")) ("//" ++ headText host)).2
              queryPairs := formPairsWithin _ (uriQuery uri) } := by
        intro uri password plain text
        unfold parseFormUrl
        rw [text, splitOnce_append noColon]
        dsimp only
        rw [same, hostAndPath_password inUser plain]
      refine .accepted (read plain text) (read plain' text') rfl ⟨rfl, rfl, ?_⟩
      rw [formPairsWithin_entry (uriQuery_length _), formPairsWithin_entry (uriQuery_length _), query, query']
    · intro _
      have dropped : ∀ password, withoutUserinfo (scheme ++ ':' :: ("//" ++ user ++ ":" ++ password ++ '@' :: headText host)) =
          withoutUserinfo (headText host) := by
        intro password
        rw [← withoutUserinfo_at (scheme ++ ':' :: ("//" ++ user ++ ":" ++ password)) (headText host)]
        simp
      simp only [expansionServices, text, text', dropped]

def subjectTemplate : Text := "nats://h:4222?subject=$\x7bSUBJECT\x7d"

def subjectParts (_ : Text) : List TemplatePart := [.literal "nats://h:4222?subject=", .reference "SUBJECT"]

def subjectIs (subject name : Text) : Option Text := if name = "SUBJECT" then some subject else none

def subjectEndpoint (middlewares : List Middleware) (subject : Text) : Endpoint :=
  .mk middlewares (.connector .nats (.record [("url", .str "nats://h:4222"), ("subject", .str subject)]))

theorem expansion_encoded_space : endpointFromUri expansionServices
    (expandedText (subjectIs "orders eu") [.literal "nats://h:4222?subject="] ++ Slot.value.encode "orders eu" ++
      expandedText (subjectIs "orders eu") []) = .ok (subjectEndpoint [] "orders eu") := by
  have opens : OpensValue "subject=" := ⟨[], "subject", rfl, by decide, by decide, .inl rfl⟩
  have stands : Slot.value.Stands [] ("nats://h:4222" ++ '?' :: "subject=") ([] ++ []) :=
    .value (by decide) (by decide) (by decide) (by decide) opens (.inl rfl) (.inl rfl)
  have parts : subjectParts subjectTemplate = [.literal "nats://h:4222?subject="] ++ .reference "SUBJECT" :: [] := rfl
  have defined : subjectIs "orders eu" "SUBJECT" = some "orders eu" := rfl
  have decoded : asciiDecode (Percent.encode valueSet "orders eu") = "orders eu" := by decide
  have opened : (expandedText (subjectIs "orders eu") [.literal "nats://h:4222?subject="]).splitOn '|' =
      [] ++ ["nats://h:4222" ++ '?' :: "subject="] := by decide
  have closed : (expandedText (subjectIs "orders eu") []).splitOn '|' = ([] ++ []) :: [] := by decide
  have accepted : copyEndpoint (subjectIs "orders eu") expansionServices subjectParts subjectTemplate =
      .ok (subjectEndpoint [] "orders eu") := by
    show endpointFromUri expansionServices "nats://h:4222?subject=orders eu" = _
    rw [endpointFromUri]
    rfl
  have plain : (lit "orders eu").all (fun c => !isTabOrNewline c) = true := by decide
  have ends : (lit "orders eu").getLast? = some 'u' := by decide
  have inert : Slot.value.Inert expansionServices asciiDecode ("nats://h:4222" ++ '?' :: "subject=") ([] ++ []) "orders eu" :=
    ⟨by decide, by decide, by decide, fun c member => by simpa using List.all_eq_true.mp plain c member,
      fun _ c last => by
        obtain rfl := Option.some.inj (ends.symm.trans last)
        decide, by decide⟩
  exact expansion_encoded expansionServices_grammar parts defined decoded opened closed stands inert accepted

/-- `orders|metrics` for the subject is a subject and a middleware. -/
theorem middleware_added :
    copyEndpoint (subjectIs "orders|metrics") expansionServices subjectParts subjectTemplate =
        .ok (subjectEndpoint [.other "metrics" (.record []) (by decide)] "orders") ∧
      endpointFromUri expansionServices ("nats://h:4222?subject=" ++ Slot.value.encode "orders|metrics") =
        .ok (subjectEndpoint [] "orders|metrics") ∧
      subjectEndpoint [.other "metrics" (.record []) (by decide)] "orders" ≠ subjectEndpoint [] "orders|metrics" := by
  refine ⟨?_, ?_, by simp [subjectEndpoint]⟩
  · show endpointFromUri expansionServices "nats://h:4222?subject=orders|metrics" = _
    rw [endpointFromUri]
    rfl
  · show endpointFromUri expansionServices "nats://h:4222?subject=orders%7Cmetrics" = _
    rw [endpointFromUri]
    rfl

end MqBridge.Copy
