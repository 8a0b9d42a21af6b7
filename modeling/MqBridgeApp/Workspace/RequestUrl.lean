import MqBridgeApp.Workspace.InFlightHistory

/-!
# The URL of an `http` request

A URL that is entered is kept in two parts, its origin and its path with the query, and the two are put
together again where the URL is shown and sent.
-/

namespace MqBridge.Workspace
open Text

namespace ParsedUrl

def IsHttp (url : ParsedUrl) : Prop := url.protocol = "http:" ∨ url.protocol = "https:"

def origin (url : ParsedUrl) : Text := url.protocol ++ '/' :: '/' :: url.host

def target (url : ParsedUrl) : Text := url.pathname ++ url.search

end ParsedUrl

/-- What `new URL` does with the parts of an `http` URL: they are written without blanks, a host has no
slash, a path begins with one, and reading the parts again gives the same URL. -/
structure UrlParser (parseUrl : Text → Option ParsedUrl) : Prop where
  host : ∀ {value url}, parseUrl value = some url → url.IsHttp → url.host ≠ [] ∧ '/' ∉ url.host
  path : ∀ {value url}, parseUrl value = some url → url.IsHttp → ∃ rest, url.pathname = '/' :: rest
  written : ∀ {value url}, parseUrl value = some url → url.IsHttp →
    ∀ c ∈ url.origin ++ url.target, isJsSpace c = false
  again : ∀ {value url}, parseUrl value = some url → url.IsHttp → parseUrl (url.origin ++ url.target) = some url
  root : ∀ {value url}, parseUrl value = some url → url.IsHttp →
    parseUrl url.origin = some { url with pathname := "/", search := [] }

/-- A publisher whose connector is `http`, with an object for its configuration. -/
def IsHttpPublisher (publisher : Record) : Prop :=
  endpointTypeOf publisher = "http" ∧ ∃ config, (endpointOf publisher).lookup ("http" : Text) = some (.obj config)

section
variable {publisher : Record} {key : Text} {value : Json}

theorem getEndpointType_congr {endpoint other : Record} (keys : endpoint.map Prod.fst = other.map Prod.fst) :
    getEndpointType endpoint = getEndpointType other := by
  have held : ∀ name : Text, (endpoint.lookup name).isSome = (other.lookup name).isSome := by
    intro name
    rw [Bool.eq_iff_iff, Option.isSome_iff_exists, Option.isSome_iff_exists, ← Assoc.mem_keys, ← Assoc.mem_keys, keys]
  unfold getEndpointType
  simp only [held, keys]

/-- A connector's configuration with a property set, where it is an object. -/
def setProperty (key : Text) (value : Json) : Json → Json
  | .obj config => .obj (Record.assign config key value)
  | other => other

theorem endpointOf_setEndpointConfig : endpointOf (setEndpointConfig publisher key value) =
    (endpointOf publisher).map fun property =>
      (property.1, if property.1 = endpointTypeOf publisher then setProperty key value property.2 else property.2) := by
  show Json.asObject ((Record.assign _ _ _).lookup _) = _
  rw [Record.lookup_assign, if_pos (by decide), Json.asObject]
  apply List.map_congr_left
  rintro ⟨kind, config⟩ _
  cases config with
  | obj config =>
    dsimp only
    split <;> rfl
  | _ => exact congrArg (Prod.mk kind) (ite_self _).symm

theorem endpointTypeOf_setEndpointConfig :
    endpointTypeOf (setEndpointConfig publisher key value) = endpointTypeOf publisher := by
  apply getEndpointType_congr
  rw [endpointOf_setEndpointConfig, List.map_map]
  rfl

theorem lookup_setEndpointConfig :
    (endpointOf (setEndpointConfig publisher key value)).lookup (endpointTypeOf publisher) =
      ((endpointOf publisher).lookup (endpointTypeOf publisher)).map (setProperty key value) := by
  rw [endpointOf_setEndpointConfig, Assoc.lookup_mapWithKey fun kind config =>
    if kind = endpointTypeOf publisher then setProperty key value config else config]
  simp only [if_true]

theorem IsHttpPublisher.set (http : IsHttpPublisher publisher) : IsHttpPublisher (setEndpointConfig publisher key value) := by
  obtain ⟨kind, config, held⟩ := http
  refine ⟨endpointTypeOf_setEndpointConfig.trans kind, Record.assign config key value, ?_⟩
  rw [← kind, lookup_setEndpointConfig, kind, held]
  rfl

theorem IsHttpPublisher.config_set (http : IsHttpPublisher publisher) (other : Text) :
    (endpointConfigOf (setEndpointConfig publisher key value)).prop other =
      if other == key then some value else (endpointConfigOf publisher).prop other := by
  obtain ⟨kind, config, held⟩ := http
  unfold endpointConfigOf
  rw [endpointTypeOf_setEndpointConfig, lookup_setEndpointConfig, kind, held]
  exact Record.lookup_assign config key other value

end

/-! ### Putting a URL together -/

section
variable {panel : Panel} {publisher : Record} {value : Text} {url : ParsedUrl}

/-- What follows the host of an origin is found at its end only where it is the host itself, after one slash or
both. -/
theorem suffix_origin_iff {protocol host rest : Text} (plain : '/' ∉ protocol) (bare : '/' ∉ host) :
    '/' :: rest <:+ protocol ++ '/' :: '/' :: host ↔ rest = host ∨ rest = '/' :: host := by
  constructor
  · rintro ⟨before, same⟩
    rcases List.append_eq_append_iff.mp same with ⟨middle, rfl, there⟩ | ⟨middle, rfl, there⟩
    · cases middle with
      | nil => exact .inr (List.cons.inj there).2
      | cons c middle =>
        obtain ⟨rfl, -⟩ := List.cons.inj there
        exact absurd (List.mem_append_right _ List.mem_cons_self) plain
    · match middle with
      | [] => exact .inr (List.cons.inj there).2.symm
      | [c] => exact .inl (List.cons.inj (List.cons.inj there).2).2.symm
      | c :: d :: middle =>
        have split := (List.cons.inj (List.cons.inj there).2).2
        exact absurd (split ▸ List.mem_append_right _ List.mem_cons_self) bare
  · rintro (rfl | rfl)
    · exact ⟨protocol ++ ['/'], by simp⟩
    · exact ⟨protocol, rfl⟩

theorem ParsedUrl.IsHttp.noSlash (http : url.IsHttp) : '/' ∉ url.protocol := by
  rcases http with same | same <;> rw [same] <;> decide

theorem ParsedUrl.origin_slashes {url : ParsedUrl} (full : url.host ≠ []) (bare : '/' ∉ url.host) :
    url.origin.rdropWhile (· == '/') = url.origin := by
  have last : url.host.getLast full ≠ '/' := fun slash => bare (slash ▸ List.getLast_mem full)
  have split : url.origin = (url.protocol ++ '/' :: '/' :: url.host.dropLast) ++ [url.host.getLast full] := by
    rw [ParsedUrl.origin, List.append_assoc, List.cons_append, List.cons_append, List.dropLast_append_getLast]
  rw [split]
  exact List.rdropWhile_concat_neg _ _ _ (by simpa using last)

/-- The path with the query of a URL that cannot be told from the end of its origin. -/
def ParsedUrl.LooksLikeHost (url : ParsedUrl) : Prop := url.target = '/' :: url.host ∨ url.target = '/' :: '/' :: url.host

instance : Decidable url.LooksLikeHost := inferInstanceAs (Decidable (_ ∨ _))

theorem composeHttpRequestUrl_eq (laws : UrlParser panel.parseUrl) (parsed : panel.parseUrl value = some url)
    (absolute : url.IsHttp) {config : Record} (origin : config.prop "url" = some (.str url.origin))
    (target : config.prop "path" = some (.str url.target)) :
    composeHttpRequestUrl config = if url.target = "/" ∨ url.LooksLikeHost then url.origin else url.origin ++ url.target := by
  obtain ⟨full, bare⟩ := laws.host parsed absolute
  obtain ⟨rest, rooted⟩ := laws.path parsed absolute
  have start : url.target = '/' :: (rest ++ url.search) := by rw [ParsedUrl.target, rooted, List.cons_append]
  have atEnd : url.target <:+ url.origin ↔ url.LooksLikeHost := by
    rw [ParsedUrl.LooksLikeHost, start, List.cons.injEq, List.cons.injEq, and_iff_right rfl, and_iff_right rfl]
    exact suffix_origin_iff absolute.noSlash bare
  unfold composeHttpRequestUrl
  rw [origin, target, Json.textOr_str, Json.textOr_str]
  dsimp only
  rw [url.origin_slashes full bare, if_pos (show ['/'] <+: url.target from ⟨_, start.symm⟩)]
  have there : url.target ≠ [] := by
    rw [start]
    exact List.cons_ne_nil _ _
  by_cases slash : url.target = "/"
  · rw [if_pos (.inr slash), if_pos (.inl slash)]
  · rw [if_neg (not_or.mpr ⟨there, slash⟩)]
    by_cases looks : url.LooksLikeHost
    · rw [if_pos (atEnd.mpr looks), if_pos (.inr looks)]
    · rw [if_neg fun ends => looks (atEnd.mp ends), if_neg (not_or.mpr ⟨slash, looks⟩)]

theorem requestBarValue_http (bar : panel.requestBarFields "http" = [{ inputId := .url, field := "url" }])
    (http : IsHttpPublisher publisher) :
    requestBarValue panel publisher .url = composeHttpRequestUrl (endpointConfigOf publisher) := by
  unfold requestBarValue currentRequestBarValues
  rw [http.1]
  dsimp only
  rw [bar]
  rfl

theorem applyHttpUrl_http (http : IsHttpPublisher publisher) : IsHttpPublisher (applyHttpUrlToEndpoint panel publisher value) := by
  unfold applyHttpUrlToEndpoint
  split <;> exact http.set.set

theorem applyHttpUrl_config (laws : UrlParser panel.parseUrl) (http : IsHttpPublisher publisher)
    (parsed : panel.parseUrl value = some url) (absolute : url.IsHttp) :
    (endpointConfigOf (applyHttpUrlToEndpoint panel publisher value)).prop "url" = some (.str url.origin) ∧
      (endpointConfigOf (applyHttpUrlToEndpoint panel publisher value)).prop "path" = some (.str url.target) := by
  obtain ⟨rest, rooted⟩ := laws.path parsed absolute
  have path : orText url.pathname "/" ++ url.search = url.target := by rw [ParsedUrl.target, rooted, orText, List.isEmpty_cons]; rfl
  unfold applyHttpUrlToEndpoint
  rw [parsed]
  dsimp only
  rw [path, http.set.config_set, http.set.config_set, http.config_set]
  exact ⟨rfl, rfl⟩

/-- The URL that is shown is read as the one that was entered, and the request says its path and its query. -/
structure KeepsUrl (panel : Panel) (publisher : Record) (url : ParsedUrl) : Prop where
  shown : panel.parseUrl (requestBarValue panel publisher .url) = some url
  path : (httpMetadata panel publisher).lookup ("http_path" : Text) = some url.pathname
  query : (httpMetadata panel publisher).lookup ("http_query" : Text) =
    if url.search.drop 1 = [] then none else some (url.search.drop 1)

/-- Where the URL that is shown has no blanks and can be read, its parts are what the request says. -/
theorem httpMetadata_parsed (http : IsHttpPublisher publisher) (rooted : url.pathname ≠ [])
    (plain : ∀ c ∈ requestBarValue panel publisher .url, isJsSpace c = false)
    (full : requestBarValue panel publisher .url ≠ [])
    (shown : panel.parseUrl (requestBarValue panel publisher .url) = some url) :
    (httpMetadata panel publisher).lookup ("http_path" : Text) = some url.pathname ∧
      (httpMetadata panel publisher).lookup ("http_query" : Text) =
        if url.search.drop 1 = [] then none else some (url.search.drop 1) := by
  have pieces : parsePathAndQuery panel (requestBarValue panel publisher .url) = (url.pathname, url.search.drop 1) := by
    unfold parsePathAndQuery
    rw [shown]
    dsimp only
    rw [orText, if_neg (by simpa using rooted)]
  unfold httpMetadata
  rw [if_pos http.1, jsTrim_of_plain plain]
  dsimp only
  rw [if_neg (by simpa using full), pieces]
  dsimp only
  generalize jsTrim (Json.textOr "POST" ((endpointConfigOf publisher).prop "method")) = method
  have there : (!url.pathname.isEmpty) = true := by simpa using rooted
  cases method <;> cases url.search.drop 1 <;> simp [there, lit, List.lookup_cons]

theorem ParsedUrl.eq_root {url : ParsedUrl} {rest : Text} (rooted : url.pathname = '/' :: rest) (slash : url.target = "/") :
    { url with pathname := "/", search := [] } = url := by
  obtain ⟨protocol, host, pathname, search⟩ := url
  obtain rfl : pathname = '/' :: rest := rooted
  have empty : rest ++ search = [] := (List.cons.inj slash).2
  obtain ⟨rfl, rfl⟩ := List.append_eq_nil_iff.mp empty
  rfl

/-- A URL that was entered is shown and sent exactly when its path with the query is not its host after one slash or
both. -/
theorem http_url_kept_iff (panel : Panel) (laws : UrlParser panel.parseUrl)
    (bar : panel.requestBarFields "http" = [{ inputId := .url, field := "url" }]) (publisher : Record)
    (http : IsHttpPublisher publisher) (value : Text) (url : ParsedUrl) (parsed : panel.parseUrl value = some url)
    (absolute : url.IsHttp) :
    KeepsUrl panel (applyHttpUrlToEndpoint panel publisher value) url ↔ ¬url.LooksLikeHost := by
  obtain ⟨full, bare⟩ := laws.host parsed absolute
  obtain ⟨rest, rooted⟩ := laws.path parsed absolute
  have after : IsHttpPublisher (applyHttpUrlToEndpoint panel publisher value) := applyHttpUrl_http http
  obtain ⟨origin, target⟩ := applyHttpUrl_config laws http parsed absolute
  have shown := (requestBarValue_http bar after).trans (composeHttpRequestUrl_eq laws parsed absolute origin target)
  by_cases looks : url.LooksLikeHost
  · refine iff_of_false (fun keeps => ?_) (not_not.mpr looks)
    have read := keeps.shown
    rw [shown, if_pos (.inr looks), laws.root parsed absolute] at read
    have pathname : ("/" : Text) = url.pathname := congrArg ParsedUrl.pathname (Option.some.inj read)
    have search : [] = url.search := congrArg ParsedUrl.search (Option.some.inj read)
    rw [ParsedUrl.LooksLikeHost, ParsedUrl.target, ← pathname, ← search] at looks
    rcases looks with one | both
    · exact full (List.cons.inj one).2.symm
    · cases (List.cons.inj both).2
  · have read : panel.parseUrl (requestBarValue panel (applyHttpUrlToEndpoint panel publisher value) .url) = some url := by
      rw [shown]
      by_cases slash : url.target = "/"
      · rw [if_pos (.inl slash), laws.root parsed absolute, ParsedUrl.eq_root rooted slash]
      · rw [if_neg (not_or.mpr ⟨slash, looks⟩), laws.again parsed absolute]
    have written : ∀ c ∈ requestBarValue panel (applyHttpUrlToEndpoint panel publisher value) .url, isJsSpace c = false := by
      intro c member
      apply laws.written parsed absolute c
      rw [shown] at member
      split at member
      · exact List.mem_append_left _ member
      · exact member
    have there : requestBarValue panel (applyHttpUrlToEndpoint panel publisher value) .url ≠ [] := by
      rw [shown]
      split <;> simp [ParsedUrl.origin]
    obtain ⟨path, query⟩ := httpMetadata_parsed after (by rw [rooted]; exact List.cons_ne_nil _ _) written there read
    exact iff_of_true ⟨read, path, query⟩ looks

end

/-! ### URLs of letters and slashes -/

def isPlainUrlChar (c : Char) : Bool := c.isLower || c == '/'

/-- `new URL` where nothing of an `http` URL is written otherwise. -/
def parsePlainUrl (value : Text) : Option ParsedUrl :=
  (stripPrefix "http://" value).bind fun rest =>
    let host := rest.takeWhile (· != '/')
    if host.isEmpty || !rest.all isPlainUrlChar then none
    else some { protocol := "http:", host, pathname := orText (rest.dropWhile (· != '/')) "/", search := [] }

theorem parsePlainUrl_append {host path : Text} (full : host ≠ []) (bare : '/' ∉ host)
    (rooted : path = [] ∨ ∃ rest, path = '/' :: rest) (plain : ∀ c ∈ host ++ path, isPlainUrlChar c = true) :
    parsePlainUrl (("http://" : Text) ++ (host ++ path)) =
      some { protocol := "http:", host, pathname := orText path "/", search := [] } := by
  have noSlash : ∀ c ∈ host, (c != '/') = true := by
    intro c member
    exact bne_iff_ne.mpr fun same => bare (same ▸ member)
  have start : path.takeWhile (· != '/') = [] ∧ path.dropWhile (· != '/') = path := by
    rcases rooted with rfl | ⟨rest, rfl⟩
    · exact ⟨rfl, rfl⟩
    · exact ⟨rfl, rfl⟩
  unfold parsePlainUrl
  rw [stripPrefix_append, Option.bind_some]
  dsimp only
  rw [List.takeWhile_append_of_pos noSlash, List.dropWhile_append_of_pos noSlash, start.1, start.2, List.append_nil,
    List.all_eq_true.mpr plain, if_neg (by simpa using full)]

theorem parsePlainUrl_eq {value : Text} {url : ParsedUrl} (parsed : parsePlainUrl value = some url) :
    ∃ host path, host ≠ [] ∧ '/' ∉ host ∧ (path = [] ∨ ∃ rest, path = '/' :: rest) ∧
      (∀ c ∈ host ++ path, isPlainUrlChar c = true) ∧
      url = { protocol := "http:", host, pathname := orText path "/", search := [] } := by
  obtain ⟨rest, -, read⟩ := Option.bind_eq_some_iff.mp parsed
  dsimp only at read
  split at read
  · cases read
  · rename_i good
    simp only [Bool.or_eq_true, List.isEmpty_iff, Bool.not_eq_true', not_or, Bool.not_eq_false, List.all_eq_true] at good
    refine ⟨rest.takeWhile (· != '/'), rest.dropWhile (· != '/'), good.1, ?_, ?_, ?_, (Option.some.inj read).symm⟩
    · intro member
      have apart := List.mem_takeWhile_imp member
      simp at apart
    · cases slash : rest.dropWhile (· != '/') with
      | nil => exact .inl rfl
      | cons c tail =>
        have first := List.head?_dropWhile_not (· != '/') rest
        rw [slash] at first
        have same : c = '/' := by simpa using first
        exact .inr ⟨tail, by rw [same]⟩
    · rw [List.takeWhile_append_dropWhile]
      exact good.2

theorem isPlainUrlChar_not_blank {c : Char} (plain : isPlainUrlChar c = true) : isJsSpace c = false := by
  simp only [isPlainUrlChar, Bool.or_eq_true, isLower_iff, beq_iff_eq] at plain
  rcases plain with lower | rfl
  · exact isJsSpace_visible (by omega) (by omega)
  · rfl

theorem parsePlainUrl_laws : UrlParser parsePlainUrl where
  host parsed _ := by
    obtain ⟨host, path, full, bare, -, -, rfl⟩ := parsePlainUrl_eq parsed
    exact ⟨full, bare⟩
  path parsed _ := by
    obtain ⟨host, path, -, -, rooted, -, rfl⟩ := parsePlainUrl_eq parsed
    rcases rooted with rfl | ⟨rest, rfl⟩ <;> exact ⟨_, rfl⟩
  written parsed _ := by
    obtain ⟨host, path, -, -, rooted, plain, rfl⟩ := parsePlainUrl_eq parsed
    intro c member
    have known : c ∈ ("http://" : Text) ∨ c ∈ host ++ path ∨ c = '/' := by
      rcases List.mem_append.mp member with inOrigin | inTarget
      · rcases List.mem_append.mp inOrigin with inProtocol | inHost
        · exact .inl (List.mem_append_left ("//" : Text) inProtocol)
        · simp only [List.mem_cons] at inHost
          rcases inHost with slash | slash | inside
          · exact .inr (.inr slash)
          · exact .inr (.inr slash)
          · exact .inr (.inl (List.mem_append_left _ inside))
      · rw [ParsedUrl.target, List.append_nil] at inTarget
        rcases rooted with rfl | ⟨rest, rfl⟩
        · exact .inr (.inr (List.mem_singleton.mp inTarget))
        · exact .inr (.inl (List.mem_append_right _ inTarget))
    rcases known with scheme | inside | rfl
    · have visible : (("http://" : Text).all fun c => !isJsSpace c) = true := by decide
      simpa using List.all_eq_true.mp visible c scheme
    · exact isPlainUrlChar_not_blank (plain c inside)
    · rfl
  again parsed _ := by
    obtain ⟨host, path, full, bare, rooted, plain, rfl⟩ := parsePlainUrl_eq parsed
    have target : ∃ rest, orText path "/" = '/' :: rest := by
      rcases rooted with rfl | ⟨rest, rfl⟩ <;> exact ⟨_, rfl⟩
    have same : orText (orText path "/") "/" = orText path "/" := by
      obtain ⟨rest, start⟩ := target
      rw [start]
      rfl
    have written : ∀ c ∈ host ++ orText path "/", isPlainUrlChar c = true := by
      intro c member
      rcases rooted with rfl | ⟨rest, rfl⟩
      · rcases List.mem_append.mp member with inside | slash
        · exact plain c (List.mem_append_left _ inside)
        · obtain rfl := List.mem_singleton.mp slash
          rfl
      · exact plain c member
    have read := parsePlainUrl_append full bare (.inr target) written
    rw [same] at read
    rw [ParsedUrl.origin, ParsedUrl.target, List.append_nil]
    exact read
  root parsed _ := by
    obtain ⟨host, path, full, bare, rooted, plain, rfl⟩ := parsePlainUrl_eq parsed
    have read := parsePlainUrl_append full bare (.inl rfl) fun c member =>
      plain c (List.mem_append_left _ (by rwa [List.append_nil] at member))
    rw [List.append_nil] at read
    exact read

def plainUrlPanel : Panel := { plainPanel with parseUrl := parsePlainUrl }

def httpPublisher : Record := [("id", .str "p1"), ("endpoint", .obj [("http", .obj [])])]

theorem http_url_kept_iff_orders :
    KeepsUrl plainUrlPanel (applyHttpUrlToEndpoint plainUrlPanel httpPublisher "http://host/orders")
        ⟨"http:", "host", "/orders", []⟩ ↔ ¬ParsedUrl.LooksLikeHost ⟨"http:", "host", "/orders", []⟩ :=
  http_url_kept_iff plainUrlPanel parsePlainUrl_laws rfl httpPublisher ⟨rfl, _, rfl⟩ "http://host/orders" _ rfl (.inl rfl)

/-- The path is the host again, and is not put back. -/
theorem host_path_lost :
    ¬∀ publisher value url, IsHttpPublisher publisher → plainUrlPanel.parseUrl value = some url → url.IsHttp →
      KeepsUrl plainUrlPanel (applyHttpUrlToEndpoint plainUrlPanel publisher value) url := by
  intro keeps
  have shown := (keeps httpPublisher "http://host/host" ⟨"http:", "host", "/host", []⟩ ⟨rfl, _, rfl⟩ rfl (.inl rfl)).shown
  have pathname := congrArg (Option.map ParsedUrl.pathname) shown
  revert pathname
  decide +kernel

end MqBridge.Workspace
