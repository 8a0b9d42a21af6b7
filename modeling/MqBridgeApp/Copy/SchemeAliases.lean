import MqBridgeApp.Copy.Agreement
import MqBridgeApp.Copy.LoggedSecrets

/-!
# Scheme aliases

Some schemes only select the endpoint, and have a second spelling. The endpoint of a URI does not tell the spellings
apart when the scheme is replaced in its connection URL. It is for `rabbitmq:`, `pgcdc:`, `zmq:` and `gcs:` if the URI
has an authority, and it never is for `ibm-mq:`.
-/

namespace MqBridge.Copy
open Text Fallible

structure SchemeAlias where
  tag : Text
  spelling : Text
  scheme : Text
deriving DecidableEq

def schemeAliases : List SchemeAlias :=
  [⟨"ibmmq", "ibm-mq", "ibmmq"⟩, ⟨"amqp", "rabbitmq", "amqp"⟩, ⟨"amqp", "rabbitmqs", "amqps"⟩,
    ⟨"postgres_cdc", "pgcdc", "postgres-cdc"⟩, ⟨"zeromq", "zmq", "zeromq"⟩, ⟨"object_store", "gcs", "gs"⟩,
    ⟨"aws", "aws-sqs", "aws"⟩]

def spelled (scheme rest : Text) : Text := scheme ++ ':' :: rest

/-- What is known of the URL parser: it treats these schemes alike. A connection URL is the scheme and a rest, which
starts with two slashes if the URI has an authority. -/
structure SchemeBlind (services : UriServices) (connectionRest : Text → Bool → List (Text × Text) → Text)
    (hasAuthority : Text → Bool) : Prop where
  connection : ∀ names ∈ schemeAliases, ∀ scheme, scheme = names.spelling ∨ scheme = names.scheme →
    ∀ rest keepPath params, services.connectionUrl (spelled scheme rest) keepPath params =
      spelled scheme (connectionRest rest keepPath params)
  authority : ∀ rest keepPath params, ("//" : Text) <+: connectionRest rest keepPath params ↔ hasAuthority rest = true
  read : ∀ names ∈ schemeAliases, ∀ rest,
    (∃ error error', services.parseUrl (spelled names.spelling rest) = .error error ∧
        services.parseUrl (spelled names.scheme rest) = .error error') ∨
      ∃ parsed parsed', services.parseUrl (spelled names.spelling rest) = .ok parsed ∧
        services.parseUrl (spelled names.scheme rest) = .ok parsed' ∧ parsed.scheme = names.spelling ∧
        parsed'.scheme = names.scheme ∧ SameParts parsed parsed'

/-- What is known of the configuration types: `url` is any text, which the endpoint keeps. -/
structure UrlVerbatim (services : UriServices) : Prop where
  accepted : ∀ names ∈ schemeAliases, ∀ config url url',
    (services.buildEndpoint names.tag (Assoc.insert config ("url", .str url))).isOk =
      (services.buildEndpoint names.tag (Assoc.insert config ("url", .str url'))).isOk
  kept : ∀ names ∈ schemeAliases, ∀ config url url' built,
    services.buildEndpoint names.tag (Assoc.insert config ("url", .str url)) = .ok built →
      services.buildEndpoint names.tag (Assoc.insert config ("url", .str url')) = .ok built → url = url'

/-- The connection URL is given as a parameter of its own. -/
def GivesUrl (services : UriServices) (uri : Text) : Prop :=
  ∃ parsed, services.parseUrl uri = .ok parsed ∧ ∃ pair ∈ parsed.queryPairs, pair.key = "url"

/-! ### Connection URLs -/

theorem splitOnce_spelled {scheme : Text} {c : Char} (other : c ≠ ':') (absent : c ∉ scheme) (rest : Text) :
    splitOnce c (spelled scheme rest) = (splitOnce c rest).map fun parts => (spelled scheme parts.1, parts.2) := by
  have before : c ∉ scheme ++ [':'] := by simp [other, absent]
  cases split : splitOnce c rest with
  | none =>
    have := splitOnce_eq_none.mp split
    exact splitOnce_eq_none.mpr (by simp [spelled, absent, other, this])
  | some parts =>
    obtain ⟨rfl, inside⟩ := splitOnce_eq_some.mp split
    refine splitOnce_eq_some.mpr ⟨by simp [spelled], ?_⟩
    simp [spelled, absent, other, inside]

theorem spelled_injective {scheme scheme' rest rest' : Text} (plain : ':' ∉ scheme) (plain' : ':' ∉ scheme')
    (same : spelled scheme rest = spelled scheme' rest') : scheme = scheme' ∧ rest = rest' := by
  have split := splitOnce_append (b := rest) plain
  rw [← spelled, same, spelled, splitOnce_append plain', Option.some.injEq, Prod.mk.injEq] at split
  exact ⟨split.1.symm, split.2.symm⟩

theorem stripPrefix_spelled {scheme scheme' : Text} (plain : ':' ∉ scheme) (plain' : ':' ∉ scheme') (rest : Text) :
    stripPrefix (scheme ++ "://") (spelled scheme' rest) = if scheme = scheme' then stripPrefix "//" rest else none := by
  have opened : scheme ++ ("://" : Text) = spelled scheme "//" := rfl
  have starts : spelled scheme "//" <+: spelled scheme' rest ↔ scheme = scheme' ∧ ("//" : Text) <+: rest := by
    constructor
    · rintro ⟨tail, same⟩
      have whole : spelled scheme ("//" ++ tail) = spelled scheme' rest := by
        rw [← same]
        simp [spelled]
      obtain ⟨schemes, rests⟩ := spelled_injective plain plain' whole
      exact ⟨schemes, tail, rests⟩
    · rintro ⟨rfl, tail, rfl⟩
      exact ⟨tail, by simp [spelled]⟩
  rw [opened]
  unfold stripPrefix
  by_cases same : scheme = scheme'
  · subst same
    simp only [starts, true_and, if_true]
    congr 1
    simp [spelled]
  · rw [if_neg fun prefix_ => same (starts.mp prefix_).1, if_neg same]

def openingUrl (names : Text × Text) : Text × Text := (names.1 ++ "://", names.2 ++ "://")

/-- Rewriting a scheme does nothing to a URL without an authority. -/
theorem replacePrefix_spelled {names : List (Text × Text)} (plain : ∀ name ∈ names, ':' ∉ name.1) {scheme : Text}
    (plain' : ':' ∉ scheme) (rest : Text) :
    replacePrefix (names.map openingUrl) (spelled scheme rest) =
      spelled (if ("//" : Text) <+: rest then (names.lookup scheme).getD scheme else scheme) rest := by
  induction names with
  | nil => simp [replacePrefix]
  | cons name others ih =>
    obtain ⟨before, after⟩ := name
    obtain ⟨here, plain⟩ := List.forall_mem_cons.mp plain
    rw [List.map_cons, openingUrl, replacePrefix, stripPrefix_spelled here plain', List.lookup_cons]
    by_cases same : before = scheme
    · subst same
      by_cases slashes : ("//" : Text) <+: rest
      · obtain ⟨tail, rfl⟩ := slashes
        rw [if_pos rfl, stripPrefix_append, if_pos (List.prefix_append _ _)]
        simp [spelled, lit]
      · simp only [if_true, stripPrefix, if_neg slashes]
        rw [ih plain, if_neg slashes]
    · rw [if_neg same]
      have other : (scheme == before) = false := by simpa using Ne.symm same
      simp only [other]
      exact ih plain

/-- What the driver is given in place of a scheme. -/
def driverSchemes (tag : Text) : List (Text × Text) :=
  (([("amqp", [("rabbitmqs", "amqps"), ("rabbitmq", "amqp")]),
    ("postgres_cdc", [("postgres-cdc", "postgres"), ("pgcdc", "postgres")]),
    ("zeromq", [("zeromq", "tcp"), ("zmq", "tcp")]),
    ("object_store", [("gcs", "gs")])] : List (Text × List (Text × Text))).lookup tag).getD []

def driverScheme (tag scheme : Text) : Text := ((driverSchemes tag).lookup scheme).getD scheme

section
variable {names : SchemeAlias}

theorem schemeAliases_plain (known : names ∈ schemeAliases) :
    (':' ∉ names.spelling ∧ ':' ∉ names.scheme) ∧ names.spelling ≠ names.scheme ∧ '|' ∉ names.spelling ∧ '|' ∉ names.scheme := by
  revert names
  decide

theorem schemeAliases_tag (known : names ∈ schemeAliases) :
    (connectorTag names.spelling = some names.tag ∧ connectorTag names.scheme = some names.tag) ∧ names.tag ≠ "file" ∧
      names.tag ≠ "nats" ∧ names.tag ≠ "kafka" := by
  revert names
  decide

theorem driverSchemes_rewrites (known : names ∈ schemeAliases) :
    schemeRewrites names.tag = (driverSchemes names.tag).map openingUrl ∧
      ∀ name ∈ driverSchemes names.tag, ':' ∉ name.1 := by
  revert names
  decide

theorem driverScheme_same (known : names ∈ schemeAliases) (notIbm : names.tag ≠ "ibmmq") (notAws : names.tag ≠ "aws") :
    driverScheme names.tag names.spelling = driverScheme names.tag names.scheme := by
  revert names
  decide

theorem driverUrl_spelled (known : names ∈ schemeAliases) (notIbm : names.tag ≠ "ibmmq") {scheme : Text}
    (plain : ':' ∉ scheme) (rest : Text) :
    driverUrl names.tag (spelled scheme rest) =
      spelled (if ("//" : Text) <+: rest then driverScheme names.tag scheme else scheme) rest := by
  obtain ⟨rewrites, plains⟩ := driverSchemes_rewrites known
  obtain ⟨-, -, -, notKafka⟩ := schemeAliases_tag known
  unfold driverUrl
  rw [rewrites, replacePrefix_spelled plains plain]
  simp only [if_neg notKafka, if_neg notIbm]
  rfl

theorem driverUrl_ibmmq_other {url : Text} (other : stripPrefix "ibmmq://" url = none) : driverUrl "ibmmq" url = url := by
  have rewrites : schemeRewrites "ibmmq" = [] := by decide
  unfold driverUrl
  rw [rewrites, replacePrefix, if_neg (by decide), if_pos rfl, other]

/-- `host(port)` is no longer than the URL without its scheme. -/
theorem driverUrl_ibmmq (tail : Text) : (driverUrl "ibmmq" (spelled "ibmmq" ("//" ++ tail))).length ≤ tail.length + 1 := by
  have stripped : stripPrefix "ibmmq://" (spelled "ibmmq" ("//" ++ tail)) = some tail := stripPrefix_append "ibmmq://" tail
  have short : (trimEndSlashes tail).length ≤ tail.length := (List.rdropWhile_prefix _ _).length_le
  have rewrites : schemeRewrites "ibmmq" = [] := by decide
  unfold driverUrl
  rw [rewrites, replacePrefix, if_neg (by decide), if_pos rfl, stripped]
  dsimp only
  split
  · next host port split =>
    obtain ⟨whole, -⟩ := rsplitOnce_eq_some.mp split
    have closing : (lit ")").length = 1 := rfl
    rw [whole] at short
    simp only [List.length_append, List.length_cons, closing] at short ⊢
    omega
  · omega

theorem driverUrl_same_iff (known : names ∈ schemeAliases) (notAws : names.tag ≠ "aws") (rest : Text) :
    driverUrl names.tag (spelled names.spelling rest) = driverUrl names.tag (spelled names.scheme rest) ↔
      names.tag ≠ "ibmmq" ∧ ("//" : Text) <+: rest := by
  obtain ⟨⟨plain, plain'⟩, other, -⟩ := schemeAliases_plain known
  by_cases ibm : names.tag = "ibmmq"
  · have names_ : names = ⟨"ibmmq", "ibm-mq", "ibmmq"⟩ := by
      revert names
      decide
    subst names_
    simp only [ne_eq, not_true_eq_false, false_and, iff_false]
    have opened : lit "ibmmq://" = lit "ibmmq" ++ lit "://" := rfl
    rw [driverUrl_ibmmq_other (by rw [opened, stripPrefix_spelled (by decide) plain, if_neg (by decide)])]
    intro same
    by_cases slashes : ("//" : Text) <+: rest
    · obtain ⟨tail, rfl⟩ := slashes
      have short := driverUrl_ibmmq tail
      have long : (spelled "ibm-mq" (lit "//" ++ tail)).length = tail.length + 9 := by
        simp [spelled, lit]
      rw [← same, long] at short
      omega
    · have none_ : stripPrefix "ibmmq://" (spelled "ibmmq" rest) = none := by
        rw [opened, stripPrefix_spelled (by decide) plain', if_pos rfl, stripPrefix, if_neg slashes]
      rw [driverUrl_ibmmq_other none_] at same
      exact other (spelled_injective plain plain' same).1
  · rw [driverUrl_spelled known ibm plain, driverUrl_spelled known ibm plain']
    constructor
    · intro same
      refine ⟨ibm, ?_⟩
      by_contra path
      rw [if_neg path, if_neg path] at same
      exact other (spelled_injective plain plain' same).1
    · rintro ⟨-, slashes⟩
      rw [if_pos slashes, if_pos slashes, driverScheme_same known ibm notAws]

end

section
variable {services : UriServices} {uri uri' tag : Text} {bound bound' : Nat}

theorem escapedUrl_isSome (notFile : tag ≠ "file") {pairs : List (QueryPair bound)} {before after : ConnectorParams}
    (run : pairs.foldlM (connectorParam services uri tag) before = .ok after) :
    after.escapedUrl.isSome = true ↔ before.escapedUrl.isSome = true ∨ ∃ pair ∈ pairs, pair.key = "url" := by
  induction run using foldlM_induction with
  | nil =>
    simp
  | cons pair rest before next step _ ih =>
    rw [ih, List.exists_mem_cons_iff]
    rcases connectorParam_cases step with ⟨path, -⟩ | ⟨isUrl, rfl⟩ | ⟨-, notUrl, ⟨type, json, -, -, rfl⟩ | ⟨-, -, rfl⟩⟩
    · exact absurd path.2 notFile
    · simp [isUrl.1]
    · have other : pair.key ≠ "url" := fun same => notUrl ⟨same, notFile⟩
      simp [other]
    · have other : pair.key ≠ "url" := fun same => notUrl ⟨same, notFile⟩
      simp [other]

/-- The configuration of a connector that has its URL, when the connection URL is this one. -/
def connected (tag url : Text) (params : ConnectorParams) : Option (List (Text × Json)) :=
  let config := withConsume tag params.config
  match params.escapedUrl, params.driverParams with
  | some _, _ :: _ => none
  | some escaped, [] => some (Assoc.insert config ("url", .str escaped))
  | none, _ => some (if tag = "aws" then config else Assoc.insert config ("url", .str url))

theorem withConnection_connected {parsed : ParsedUri bound} (notFile : tag ≠ "file") (notNats : tag ≠ "nats")
    (params : ConnectorParams) :
    (withConnection services uri tag parsed params).toOption =
      connected tag (driverUrl tag (services.connectionUrl uri true params.driverParams)) params := by
  unfold withConnection connected
  simp only [notFile, notNats, if_false, false_and, ne_eq, not_false_eq_true, decide_true]
  cases params.escapedUrl with
  | none => rfl
  | some url => cases params.driverParams <;> rfl

def builtType (services : UriServices) (uri tag : Text) (parsed : ParsedUri bound) : Option EndpointType :=
  (connectorConfig services uri tag parsed).toOption.bind fun config => (services.buildEndpoint tag config).toOption

theorem connectorEndpoint_built (parsed : ParsedUri bound) :
    (connectorEndpoint services uri tag parsed).toOption = (builtType services uri tag parsed).map Endpoint.new := by
  unfold connectorEndpoint builtType
  rw [toOption_bind, Option.map_bind]
  simp only [toOption_buildFromUri]
  rfl

theorem builtType_connected {parsed : ParsedUri bound} (notFile : tag ≠ "file") (notNats : tag ≠ "nats") :
    builtType services uri tag parsed = (parsed.queryPairs.foldlM (connectorParam services uri tag) {}).toOption.bind
      fun params => (connected tag (driverUrl tag (services.connectionUrl uri true params.driverParams)) params).bind
        fun config => (services.buildEndpoint tag config).toOption := by
  unfold builtType connectorConfig
  rw [toOption_bind, Option.bind_assoc]
  simp only [withConnection_connected notFile notNats]

end

/-! ### Two spellings -/

def SpellingDropped (services : UriServices) (hasAuthority : Text → Bool) (names : SchemeAlias) (rest : Text) : Prop :=
  names.tag = "aws" ∨ GivesUrl services (spelled names.spelling (baseSegment rest)) ∨
    (names.tag ≠ "ibmmq" ∧ hasAuthority (baseSegment rest) = true)

section
variable {services : UriServices} {connectionRest : Text → Bool → List (Text × Text) → Text} {hasAuthority : Text → Bool}
variable {names : SchemeAlias} {bound bound' : Nat}

theorem baseSegment_spelled {scheme : Text} (plain : '|' ∉ scheme) (rest : Text) :
    baseSegment (spelled scheme rest) = spelled scheme (baseSegment rest) := by
  unfold baseSegment
  rw [splitOnce_spelled (by decide) plain]
  cases splitOnce '|' rest <;> rfl

theorem middlewareSpecs_spelled {scheme : Text} (plain : '|' ∉ scheme) (rest : Text) :
    middlewareSpecs (spelled scheme rest) = middlewareSpecs rest := by
  unfold middlewareSpecs
  rw [splitOnce_spelled (by decide) plain]
  cases splitOnce '|' rest <;> rfl

/-- Both spellings build an endpoint or none does, and it is the same one when the connection URLs are. -/
theorem builtType_spelled (blind : SchemeBlind services connectionRest hasAuthority) (verbatim : UrlVerbatim services)
    (known : names ∈ schemeAliases) (base : Text) {parsed : ParsedUri bound} {parsed' : ParsedUri bound'}
    (same : SameParts parsed parsed') :
    (builtType services (spelled names.spelling base) names.tag parsed).isSome =
        (builtType services (spelled names.scheme base) names.tag parsed').isSome ∧
      ∀ built, builtType services (spelled names.spelling base) names.tag parsed = some built →
        (builtType services (spelled names.scheme base) names.tag parsed' = some built ↔
          names.tag = "aws" ∨ (∃ pair ∈ parsed.queryPairs, pair.key = "url") ∨
            (names.tag ≠ "ibmmq" ∧ hasAuthority base = true)) := by
  obtain ⟨-, notFile, notNats, -⟩ := schemeAliases_tag known
  rw [builtType_connected notFile notNats, builtType_connected notFile notNats,
    ← connectorParams_agree (spelled names.spelling base) (spelled names.scheme base) same names.tag]
  cases run : (parsed.queryPairs.foldlM (connectorParam services (spelled names.spelling base) names.tag) {}).toOption with
  | none => exact ⟨rfl, nofun⟩
  | some params =>
    have given := escapedUrl_isSome notFile (toOption_eq_some.mp run)
    simp only [Option.bind_some, blind.connection names known _ (.inl rfl), blind.connection names known _ (.inr rfl)]
    unfold connected
    cases escaped : params.escapedUrl with
    | some url =>
      have isUrl : ∃ pair ∈ parsed.queryPairs, pair.key = "url" := by simpa [escaped] using given
      cases params.driverParams with
      | nil => exact ⟨rfl, fun built one => iff_of_true one (.inr (.inl isUrl))⟩
      | cons _ _ => exact ⟨rfl, nofun⟩
    | none =>
      have noUrl : ¬∃ pair ∈ parsed.queryPairs, pair.key = "url" := by simpa [escaped] using given
      by_cases isAws : names.tag = "aws"
      · simp only [if_pos isAws]
        exact ⟨trivial, fun built one => iff_of_true one (.inl isAws)⟩
      · simp only [isAws, if_false, Option.bind_some, noUrl, false_or, ← blind.authority base true params.driverParams,
          ← driverUrl_same_iff known isAws]
        refine ⟨?_, fun built one => ⟨fun other => ?_, fun urls => urls ▸ one⟩⟩
        · rw [isSome_toOption, isSome_toOption]
          exact verbatim.accepted names known _ _ _
        · exact verbatim.kept names known _ _ _ _ (toOption_eq_some.mp one) (toOption_eq_some.mp other)

/-- The endpoint of a URI whose scheme is one of two spellings. -/
theorem endpointFromUri_spelled {scheme tag : Text} (plain : '|' ∉ scheme) (connector : connectorTag scheme = some tag)
    (rest : Text)
    {parsed : ParsedUri (spelled scheme (baseSegment rest)).length}
    (read : services.parseUrl (spelled scheme (baseSegment rest)) = .ok parsed) (isScheme : parsed.scheme = scheme) :
    (endpointFromUri services (spelled scheme rest)).toOption =
      (builtType services (spelled scheme (baseSegment rest)) tag parsed).bind fun built =>
        (middlewaresOf services (middlewareSpecs rest) []).toOption.map fun middlewares => .mk middlewares built := by
  have base : (baseEndpointFromUri services (spelled scheme (baseSegment rest)) fun value _ => endpointFromUri services value) =
      connectorEndpoint services (spelled scheme (baseSegment rest)) tag parsed := by
    unfold baseEndpointFromUri
    rw [read]
    exact parsedEndpoint_connector (by rw [isScheme]; exact connector)
  rw [endpointFromUri_toOption, baseSegment_spelled plain, middlewareSpecs_spelled plain, base, connectorEndpoint_built]
  cases builtType services (spelled scheme (baseSegment rest)) tag parsed <;> rfl

theorem endpointFromUri_unread {uri error : Text} (read : services.parseUrl (baseSegment uri) = .error error) :
    (endpointFromUri services uri).toOption = none := by
  rw [endpointFromUri_toOption]
  unfold baseEndpointFromUri
  rw [read]
  rfl

/-- Both spellings are refused or accepted, and accepted ones give one endpoint exactly when the spelling is dropped. -/
theorem spellings_agree_iff (blind : SchemeBlind services connectionRest hasAuthority) (verbatim : UrlVerbatim services)
    (known : names ∈ schemeAliases) (rest : Text) :
    (endpointFromUri services (spelled names.spelling rest)).isOk = (endpointFromUri services (spelled names.scheme rest)).isOk ∧
      ((endpointFromUri services (spelled names.spelling rest)).isOk = true →
        ((endpointFromUri services (spelled names.spelling rest)).toOption =
            (endpointFromUri services (spelled names.scheme rest)).toOption ↔
          SpellingDropped services hasAuthority names rest)) := by
  obtain ⟨-, -, noBar, noBar'⟩ := schemeAliases_plain known
  obtain ⟨⟨connector, connector'⟩, -⟩ := schemeAliases_tag known
  simp only [← isSome_toOption]
  rcases blind.read names known (baseSegment rest) with ⟨_, _, read, read'⟩ |
    ⟨parsed, parsed', read, read', isScheme, isScheme', same⟩
  · rw [endpointFromUri_unread (by rw [baseSegment_spelled noBar]; exact read),
      endpointFromUri_unread (by rw [baseSegment_spelled noBar']; exact read')]
    exact ⟨rfl, nofun⟩
  · have givesUrl : GivesUrl services (spelled names.spelling (baseSegment rest)) ↔
        ∃ pair ∈ parsed.queryPairs, pair.key = "url" := by
      simp [GivesUrl, read]
    obtain ⟨accepted, alike⟩ := builtType_spelled blind verbatim known (baseSegment rest) same
    rw [endpointFromUri_spelled noBar connector rest read isScheme,
      endpointFromUri_spelled noBar' connector' rest read' isScheme', SpellingDropped, givesUrl]
    cases (middlewaresOf services (middlewareSpecs rest) []).toOption with
    | none =>
      simp only [Option.map_none, Option.bind_fun_none]
      exact ⟨trivial, nofun⟩
    | some middlewares =>
      cases built : builtType services (spelled names.spelling (baseSegment rest)) names.tag parsed with
      | none =>
        have none_ : builtType services (spelled names.scheme (baseSegment rest)) names.tag parsed' = none := by
          simpa [built] using accepted
        rw [none_]
        exact ⟨rfl, nofun⟩
      | some endpointType =>
        obtain ⟨other, built'⟩ := Option.isSome_iff_exists.mp (accepted.symm.trans (by rw [built]; rfl))
        refine ⟨by rw [built']; rfl, fun _ => ?_⟩
        rw [← alike endpointType built, built']
        simp [eq_comm]

end

/-! ### An alias that reaches the endpoint -/

def aliasServices : UriServices :=
  { natsServices with
    connectionUrl := fun uri _ _ => beforeQuery uri
    buildEndpoint := fun tag config =>
      match tag == ("amqp" : Text), tag == ("ibmmq" : Text), config.lookup ("url" : Text) with
      | true, _, some (.str url) => .ok (.connector .amqp (.record [("url", .str url)]))
      | _, true, some (.str url) => .ok (.connector .ibmmq (.record [("url", .str url)]))
      | _, _, _ => .error "unknown variant" }

def brokerEndpoint (kind : Connector) (url : Text) : Endpoint := .new (.connector kind (.record [("url", .str url)]))

theorem beforeQuery_spelled {scheme : Text} (plain : '?' ∉ scheme) (rest : Text) :
    beforeQuery (spelled scheme rest) = spelled scheme (beforeQuery rest) := by
  unfold beforeQuery
  rw [splitOnce_spelled (by decide) plain]
  cases splitOnce '?' rest <;> rfl

theorem plainPairs_entry {bound : Nat} {query : Text} (short : query.length ≤ bound) :
    (plainPairs bound query).map QueryPair.entry = (query.splitOn '&').filterMap (splitOnce '=') := by
  unfold plainPairs
  rw [List.map_filterMap]
  refine List.filterMap_congr fun pair inside => ?_
  have within := Blanking.length_le_of_mem_splitOn inside
  cases split : splitOnce '=' pair with
  | none => rfl
  | some parts =>
    obtain ⟨key, value⟩ := parts
    obtain ⟨rfl, -⟩ := splitOnce_eq_some.mp split
    simp only [List.length_append, List.length_cons] at within
    have shorter : value.length < bound := by omega
    simp [shorter, QueryPair.entry]

theorem parsePlainUrl_spelled {scheme : Text} (plain : ':' ∉ scheme) (rest : Text) :
    parsePlainUrl (spelled scheme rest) =
      .ok ⟨scheme, [], [], ((splitOnce '?' rest).map fun parts => plainPairs _ parts.2).getD []⟩ := by
  unfold parsePlainUrl
  rw [show splitOnce ':' (spelled scheme rest) = some (scheme, rest) from splitOnce_append plain]

theorem aliasServices_blind :
    SchemeBlind aliasServices (fun rest _ _ => beforeQuery rest) fun rest => decide (("//" : Text) <+: beforeQuery rest) where
  connection names known scheme either rest _ _ := by
    have plain : ∀ names ∈ schemeAliases, '?' ∉ names.spelling ∧ '?' ∉ names.scheme := by decide
    rcases either with rfl | rfl
    · exact beforeQuery_spelled (plain names known).1 rest
    · exact beforeQuery_spelled (plain names known).2 rest
  authority rest _ _ := by rw [decide_eq_true_eq]
  read names known rest := by
    obtain ⟨⟨plain, plain'⟩, -⟩ := schemeAliases_plain known
    refine .inr ⟨_, _, parsePlainUrl_spelled plain rest, parsePlainUrl_spelled plain' rest, rfl, rfl, ⟨rfl, rfl, ?_⟩⟩
    cases split : splitOnce '?' rest with
    | none => rfl
    | some parts =>
      obtain ⟨head, query⟩ := parts
      obtain ⟨rfl, -⟩ := splitOnce_eq_some.mp split
      have short : ∀ scheme, query.length ≤ (spelled scheme (head ++ '?' :: query)).length := by
        intro scheme
        simp only [spelled, List.length_append, List.length_cons]
        omega
      exact (plainPairs_entry (short names.spelling)).trans (plainPairs_entry (short names.scheme)).symm

theorem aliasServices_verbatim : UrlVerbatim aliasServices where
  accepted names _ config url url' := by
    simp only [aliasServices, Assoc.lookup_insert]
    cases names.tag == ("amqp" : Text) <;> cases names.tag == ("ibmmq" : Text) <;> rfl
  kept names _ config url url' built one other := by
    simp only [aliasServices, Assoc.lookup_insert] at one other
    cases isAmqp : names.tag == ("amqp" : Text) <;> cases isIbm : names.tag == ("ibmmq" : Text) <;>
      simp [isAmqp, isIbm] at one other
    all_goals
      subst one
      simpa using other.symm

theorem spellings_agree_iff_rabbitmq :
    (endpointFromUri aliasServices (spelled "rabbitmq" "//host:5672")).isOk =
        (endpointFromUri aliasServices (spelled "amqp" "//host:5672")).isOk ∧
      ((endpointFromUri aliasServices (spelled "rabbitmq" "//host:5672")).isOk = true →
        ((endpointFromUri aliasServices (spelled "rabbitmq" "//host:5672")).toOption =
            (endpointFromUri aliasServices (spelled "amqp" "//host:5672")).toOption ↔
          SpellingDropped aliasServices (fun rest => decide (("//" : Text) <+: beforeQuery rest))
            ⟨"amqp", "rabbitmq", "amqp"⟩ "//host:5672")) :=
  @spellings_agree_iff _ _ _ ⟨"amqp", "rabbitmq", "amqp"⟩ aliasServices_blind aliasServices_verbatim (by decide) _

/-- `ibm-mq://host:1414` is not rewritten to the `host(1414)` that the driver expects. -/
theorem ibm_mq_kept :
    endpointFromUri aliasServices (spelled "ibm-mq" "//host:1414") = .ok (brokerEndpoint .ibmmq "ibm-mq://host:1414") ∧
      endpointFromUri aliasServices (spelled "ibmmq" "//host:1414") = .ok (brokerEndpoint .ibmmq "host(1414)") ∧
      (endpointFromUri aliasServices (spelled "ibm-mq" "//host:1414")).toOption ≠
        (endpointFromUri aliasServices (spelled "ibmmq" "//host:1414")).toOption := by
  have alias_ : endpointFromUri aliasServices (spelled "ibm-mq" "//host:1414") =
      .ok (brokerEndpoint .ibmmq "ibm-mq://host:1414") := by
    rw [endpointFromUri]
    rfl
  have scheme : endpointFromUri aliasServices (spelled "ibmmq" "//host:1414") = .ok (brokerEndpoint .ibmmq "host(1414)") := by
    rw [endpointFromUri]
    rfl
  refine ⟨alias_, scheme, ?_⟩
  rw [alias_, scheme]
  simp [brokerEndpoint, Endpoint.new, lit]

end MqBridge.Copy
