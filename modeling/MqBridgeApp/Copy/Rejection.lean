import MqBridgeApp.Copy.EndpointUri
import MqBridgeApp.Copy.Redaction
import MqBridgeApp.Lib.Fallible

/-!
# Rejected URIs

A rejection shows its URI as it was given: the text before the middlewares when that is refused, and the whole of
it when a middleware is. Credentials in that part are in the report.
-/

namespace MqBridge.Copy
open Text Fallible

/-! ### What the first message quotes -/

/-- The message is about a URI without its middlewares. -/
def ErrorSite.inSegment : ErrorSite → Bool
  | .bodyFile | .middleware | .unsupportedMiddleware _ | .dlqEndpoint | .middlewareLiteral _
  | .couldNotBuildMiddleware _ | .cause => false
  | _ => true

def ErrorSite.quotesNothing : ErrorSite → Bool
  | .unsupportedMiddleware _ => true
  | _ => false

theorem infix_text {site : ErrorSite} (quotes : site.quotesNothing = false) (uri value : Text) :
    uri <:+: site.text uri value := by
  cases site with
  | unsupportedMiddleware other => cases quotes
  | cause => exact List.infix_rfl
  | _ =>
    unfold ErrorSite.text
    repeat first
      | with_reducible exact List.infix_append_right
      | apply List.infix_append_of_infix_left

theorem text_injective {site : ErrorSite} (quotes : site.quotesNothing = false) {uri uri' value : Text}
    (same : site.text uri value = site.text uri' value) : uri = uri' := by
  cases site with
  | unsupportedMiddleware other => cases quotes
  | cause => exact same
  | _ =>
    unfold ErrorSite.text at same
    simpa only [List.append_cancel_right_eq, List.append_cancel_left_eq] using same

/-- The first message quotes `uri`. -/
def Quotes (uri : Text) (rejection : Rejection) : Prop :=
  ∃ site value causes, rejection = ⟨site, uri, value⟩ :: causes ∧ site.inSegment = true

section
variable {α : Type} {uri value : Text} {site : ErrorSite} {rejection : Rejection}

theorem quotes_reject (inSegment : site.inSegment = true) (failed : (reject site uri value : Except Rejection α) = .error rejection) :
    Quotes uri rejection := by
  obtain rfl := Except.error.inj failed
  exact ⟨site, value, [], rfl, inSegment⟩

theorem withContext_error {message : ErrorMessage} {result : Except Rejection α}
    (failed : withContext message result = .error rejection) :
    ∃ causes, result = .error causes ∧ rejection = message :: causes := by
  cases result with
  | ok a => cases failed
  | error causes => exact ⟨causes, rfl, (Except.error.inj failed).symm⟩

theorem quotes_withContext {result : Except Rejection α} (inSegment : site.inSegment = true)
    (failed : withContext ⟨site, uri, value⟩ result = .error rejection) : Quotes uri rejection := by
  obtain ⟨causes, -, rfl⟩ := withContext_error failed
  exact ⟨site, value, causes, rfl, inSegment⟩

end

section
variable {services : UriServices} {bound : Nat} {uri : Text} {rejection : Rejection} {pairs : List (QueryPair bound)}
  {nested : (value : Text) → value.length < bound → Except Rejection Endpoint} {parsed : ParsedUri bound} {tag : Text}

theorem buildFromUri_error {config : List (Text × Json)}
    (failed : buildFromUri services tag uri config = .error rejection) : Quotes uri rejection :=
  quotes_withContext rfl (map_error.mp failed)

theorem nestedEndpoint_error {pair : QueryPair bound} (failed : nestedEndpoint uri nested pair = .error rejection) :
    Quotes uri rejection :=
  quotes_withContext rfl failed

theorem responseEndpoint_error (failed : responseEndpoint uri pairs = .error rejection) : Quotes uri rejection := by
  cases pairs with
  | nil => cases failed
  | cons pair rest => exact quotes_reject rfl failed

theorem fanoutBranch_error {branches : List Endpoint} {pair : QueryPair bound}
    (failed : fanoutBranch uri nested branches pair = .error rejection) : Quotes uri rejection := by
  unfold fanoutBranch at failed
  split at failed
  · exact nestedEndpoint_error (map_error.mp failed)
  split at failed
  · exact nestedEndpoint_error (map_error.mp failed)
  · exact quotes_reject rfl failed

theorem fanoutEndpoint_error (failed : fanoutEndpoint uri nested pairs = .error rejection) : Quotes uri rejection := by
  rcases bind_error.mp failed with inLoop | ⟨branches, -, after⟩
  · apply foldlM_error _ inLoop
    intro branches pair rejection _
    exact fanoutBranch_error
  · split at after
    · exact quotes_reject rfl after
    · cases after

theorem requestParam_error {params : RequestParams} {pair : QueryPair bound}
    (failed : requestParam uri nested params pair = .error rejection) : Quotes uri rejection := by
  unfold requestParam at failed
  split at failed
  · split at failed
    · exact quotes_reject rfl failed
    · exact nestedEndpoint_error (map_error.mp failed)
  split at failed
  · split at failed
    · exact quotes_reject rfl failed
    · exact nestedEndpoint_error (map_error.mp failed)
  · exact quotes_reject rfl failed

theorem requestEndpoint_error (failed : requestEndpoint uri nested pairs = .error rejection) : Quotes uri rejection := by
  rcases bind_error.mp failed with inLoop | ⟨params, -, after⟩
  · apply foldlM_error _ inLoop
    intro params pair rejection _
    exact requestParam_error
  · split at after
    · exact quotes_reject rfl after
    · cases after

theorem switchParam_error {params : SwitchParams} {pair : QueryPair bound}
    (failed : switchParam uri nested params pair = .error rejection) : Quotes uri rejection := by
  unfold switchParam at failed
  split at failed
  · cases failed
  split at failed
  · split at failed
    · exact quotes_reject rfl failed
    · cases failed
  split at failed
  · split at failed
    · exact quotes_reject rfl failed
    · exact nestedEndpoint_error (map_error.mp failed)
  split at failed
  · exact nestedEndpoint_error (map_error.mp failed)
  split at failed
  · exact nestedEndpoint_error (map_error.mp failed)
  · exact quotes_reject rfl failed

theorem switchEndpoint_error (failed : switchEndpoint uri nested pairs = .error rejection) : Quotes uri rejection := by
  rcases bind_error.mp failed with inLoop | ⟨params, -, after⟩
  · apply foldlM_error _ inLoop
    intro params pair rejection _
    exact switchParam_error
  · split at after
    · exact quotes_reject rfl after
    split at after
    · exact quotes_reject rfl after
    split at after
    · exact quotes_reject rfl after
    split at after
    · exact quotes_reject rfl after
    · cases after

theorem memoryParam_error {config : List (Text × Json)} {pair : QueryPair bound}
    (failed : memoryParam uri config pair = .error rejection) : Quotes uri rejection := by
  unfold memoryParam at failed
  split at failed
  · cases failed
  split at failed
  · cases failed
  · exact quotes_reject rfl failed

theorem memoryEndpoint_error (failed : memoryEndpoint services uri parsed = .error rejection) : Quotes uri rejection := by
  unfold memoryEndpoint at failed
  dsimp only at failed
  split at failed
  · exact quotes_reject rfl failed
  rcases bind_error.mp failed with inLoop | ⟨config, -, after⟩
  · apply foldlM_error _ inLoop
    intro config pair rejection _
    exact memoryParam_error
  · exact buildFromUri_error after

theorem connectorParam_error {params : ConnectorParams} {pair : QueryPair bound}
    (failed : connectorParam services uri tag params pair = .error rejection) : Quotes uri rejection := by
  unfold connectorParam at failed
  split at failed
  · cases failed
  split at failed
  · cases failed
  split at failed
  · split at failed
    · exact quotes_withContext rfl (map_error.mp failed)
    · cases failed
  · split at failed
    · cases failed
    · exact quotes_reject rfl failed
  · cases failed

theorem withConnection_error {params : ConnectorParams}
    (failed : withConnection services uri tag parsed params = .error rejection) : Quotes uri rejection := by
  unfold withConnection at failed
  dsimp only at failed
  split at failed
  · split at failed
    · exact quotes_reject rfl failed
    · cases failed
  split at failed
  · split at failed
    · exact quotes_reject rfl failed
    · cases failed
  · cases failed

theorem connectorEndpoint_error (failed : connectorEndpoint services uri tag parsed = .error rejection) :
    Quotes uri rejection := by
  rcases bind_error.mp failed with before | ⟨config, -, after⟩
  · rcases bind_error.mp before with inLoop | ⟨params, -, connection⟩
    · apply foldlM_error _ inLoop
      intro params pair rejection _
      exact connectorParam_error
    · exact withConnection_error connection
  · exact buildFromUri_error after

/-! ### Files of static endpoints -/

def isUnreadable (services : UriServices) (pair : QueryPair bound) : Bool :=
  decide (pair.key = "body_file") && !(services.readFile pair.value).isOk

/-- The first file that a static endpoint takes its body from and that cannot be read. -/
def unreadableFile (services : UriServices) (pairs : List (QueryPair bound)) : Option Text :=
  (pairs.find? (isUnreadable services)).map QueryPair.value

def FileError (services : UriServices) (path : Text) (rejection : Rejection) : Prop :=
  ∃ error, services.readFile path = .error error ∧ rejection = [⟨.bodyFile, path, []⟩, ⟨.cause, error, []⟩]

theorem unreadableFile_cons (pair : QueryPair bound) (rest : List (QueryPair bound)) :
    unreadableFile services (pair :: rest) =
      if isUnreadable services pair then some pair.value
      else unreadableFile services rest := by
  unfold unreadableFile
  rw [List.find?_cons]
  split
  · next unreadable => rw [if_pos unreadable, Option.map_some]
  · next readable => rw [if_neg (by rw [readable]; exact Bool.false_ne_true)]

theorem staticParam_cases (params : StaticParams) (pair : QueryPair bound) :
    (isUnreadable services pair = false ∧
        ∃ next, staticParam services params pair = .ok next) ∨
      (isUnreadable services pair = true ∧
        ∃ rejection, staticParam services params pair = .error rejection ∧ FileError services pair.value rejection) := by
  unfold staticParam isUnreadable
  split
  · next body =>
    left
    rw [body]
    exact ⟨rfl, _, rfl⟩
  split
  · next file =>
    rw [decide_eq_true file, Bool.true_and]
    cases read : services.readFile pair.value with
    | ok body => exact .inl ⟨rfl, _, rfl⟩
    | error error => exact .inr ⟨rfl, _, rfl, error, read, rfl⟩
  · next other =>
    left
    rw [decide_eq_false other, Bool.false_and]
    refine ⟨rfl, ?_⟩
    split <;> exact ⟨_, rfl⟩

theorem staticParams_cases (params : StaticParams) :
    (unreadableFile services pairs = none ∧ ∃ after, pairs.foldlM (staticParam services) params = .ok after) ∨
      ∃ path rejection, unreadableFile services pairs = some path ∧
        pairs.foldlM (staticParam services) params = .error rejection ∧ FileError services path rejection := by
  induction pairs generalizing params with
  | nil => exact .inl ⟨rfl, params, rfl⟩
  | cons pair rest ih =>
    rw [unreadableFile_cons, foldlM_cons]
    rcases @staticParam_cases services bound params pair with ⟨readable, next, took⟩ | ⟨unreadable, rejection, failed, report⟩
    · rw [took, if_neg (by rw [readable]; exact Bool.false_ne_true)]
      exact ih next
    · rw [failed, if_pos unreadable]
      exact .inr ⟨_, rejection, rfl, rfl, report⟩

/-- The file that keeps a URI from naming an endpoint. -/
def bodyFile (services : UriServices) (parsed : ParsedUri bound) : Option Text :=
  if parsed.scheme = "static" then unreadableFile services parsed.queryPairs else none

theorem bodyFile_other (other : ¬ parsed.scheme = "static") : bodyFile services parsed = none := if_neg other

/-- An endpoint is refused for a file it names, or by a message that quotes the URI. -/
theorem parsedEndpoint_error (failed : parsedEndpoint services uri parsed nested = .error rejection) :
    (∃ path, bodyFile services parsed = some path ∧ FileError services path rejection) ∨
      (bodyFile services parsed = none ∧ Quotes uri rejection) := by
  unfold parsedEndpoint at failed
  split at failed
  · cases failed
  split at failed
  · next isStatic =>
    unfold bodyFile
    rw [if_pos isStatic]
    unfold staticEndpoint at failed
    rcases @staticParams_cases services bound parsed.queryPairs {} with
      ⟨readable, params, took⟩ | ⟨path, rejection', unreadable, inLoop, report⟩
    · rw [took] at failed
      exact .inr ⟨readable, buildFromUri_error failed⟩
    · rw [inLoop] at failed
      obtain rfl := Except.error.inj failed
      exact .inl ⟨path, unreadable, report⟩
  next other =>
  refine .inr ⟨bodyFile_other other, ?_⟩
  split at failed
  · exact responseEndpoint_error failed
  split at failed
  · exact fanoutEndpoint_error failed
  split at failed
  · exact requestEndpoint_error failed
  split at failed
  · exact switchEndpoint_error failed
  split at failed
  · exact memoryEndpoint_error failed
  split at failed
  · exact connectorEndpoint_error failed
  split at failed
  · cases failed
  · exact quotes_reject rfl failed

theorem parsedEndpoint_ok {endpoint : Endpoint} (accepted : parsedEndpoint services uri parsed nested = .ok endpoint) :
    bodyFile services parsed = none := by
  by_cases isStatic : parsed.scheme = "static"
  · unfold bodyFile
    rw [if_pos isStatic]
    unfold parsedEndpoint staticEndpoint at accepted
    rw [if_neg (by rw [isStatic]; decide), if_pos isStatic] at accepted
    rcases @staticParams_cases services bound parsed.queryPairs {} with
      ⟨readable, -⟩ | ⟨path, rejection, -, inLoop, -⟩
    · exact readable
    · rw [inLoop] at accepted
      cases accepted
  · exact bodyFile_other isStatic

end

/-! ### The part that is shown -/

section
variable (services : UriServices)

def uriFile (uri : Text) : Option Text := (services.parseUrl uri).toOption.bind (bodyFile services)

def baseAccepted (uri : Text) : Bool :=
  (baseEndpointFromUri services (baseSegment uri) fun value _ => endpointFromUri services value).isOk

/-- What the report of a rejected URI shows: the file that cannot be read, else the URI up to its middlewares
when that is refused, else all of it. -/
def shownPart (uri : Text) : Text :=
  match uriFile services (baseSegment uri) with
  | some path => path
  | none => if baseAccepted services uri then uri else baseSegment uri

/-- The three ways in which a URI is rejected. -/
inductive RejectedBy (uri : Text) (rejection : Rejection) : Prop where
  | file (shown : FileError services (shownPart services uri) rejection)
  | base (refused : baseEndpointFromUri services (baseSegment uri) (fun value _ => endpointFromUri services value) =
      .error rejection)
    (shown : shownPart services uri = baseSegment uri) (quotes : Quotes (baseSegment uri) rejection)
  | middleware (shown : shownPart services uri = uri)
    (quotes : ∃ value causes, rejection = ⟨.middleware, uri, value⟩ :: causes)

end

section
variable {services : UriServices} {uri uri' : Text} {rejection rejection' : Rejection}

theorem baseEndpointFromUri_error {nested : (value : Text) → value.length < uri.length → Except Rejection Endpoint}
    (failed : baseEndpointFromUri services uri nested = .error rejection) :
    (∃ path, uriFile services uri = some path ∧ FileError services path rejection) ∨
      (uriFile services uri = none ∧ Quotes uri rejection) := by
  unfold baseEndpointFromUri at failed
  unfold uriFile
  cases parsed : services.parseUrl uri with
  | error error =>
    rw [parsed] at failed
    obtain rfl := Except.error.inj failed
    exact .inr ⟨rfl, _, _, _, rfl, rfl⟩
  | ok result =>
    rw [parsed] at failed
    exact parsedEndpoint_error failed

theorem baseEndpointFromUri_ok {nested : (value : Text) → value.length < uri.length → Except Rejection Endpoint}
    {endpoint : Endpoint} (accepted : baseEndpointFromUri services uri nested = .ok endpoint) :
    uriFile services uri = none := by
  obtain ⟨result, parsed, built⟩ := bind_ok.mp accepted
  unfold uriFile
  cases parse : services.parseUrl uri with
  | error error => rfl
  | ok result' =>
    rw [parse] at parsed
    obtain rfl := Except.ok.inj parsed
    exact parsedEndpoint_ok built

theorem rejectedBy (rejected : endpointFromUri services uri = .error rejection) : RejectedBy services uri rejection := by
  rw [endpointFromUri] at rejected
  rcases bind_error.mp rejected with refused | ⟨endpoint, accepted, after⟩
  · rcases baseEndpointFromUri_error refused with ⟨path, unreadable, report⟩ | ⟨readable, quotes⟩
    · apply RejectedBy.file
      unfold shownPart
      rw [unreadable]
      exact report
    · refine .base refused ?_ quotes
      unfold shownPart baseAccepted
      rw [readable, refused]
      rfl
  · apply RejectedBy.middleware
    · unfold shownPart baseAccepted
      rw [baseEndpointFromUri_ok accepted, accepted]
      rfl
    · apply foldlM_error _ (map_error.mp after)
      intro middlewares spec rejection _ failed
      obtain ⟨causes, -, rfl⟩ := withContext_error (map_error.mp failed)
      exact ⟨spec.1, causes, rfl⟩

theorem RejectedBy.quotes (rejected : RejectedBy services uri rejection) :
    ∃ site value causes, rejection = ⟨site, shownPart services uri, value⟩ :: causes ∧ site.quotesNothing = false := by
  cases rejected with
  | file report =>
    obtain ⟨error, -, rfl⟩ := report
    exact ⟨_, _, _, rfl, rfl⟩
  | base _ shown quotes =>
    obtain ⟨site, value, causes, rfl, inSegment⟩ := quotes
    refine ⟨site, value, causes, by rw [shown], ?_⟩
    cases site <;> first | rfl | cases inSegment
  | middleware shown quotes =>
    obtain ⟨value, causes, rfl⟩ := quotes
    exact ⟨_, value, causes, by rw [shown], rfl⟩

theorem shownPart_infix (rejected : endpointFromUri services uri = .error rejection) :
    ∃ message causes, rejection = message :: causes ∧ shownPart services uri <:+: message.text := by
  obtain ⟨site, value, causes, here, quotes⟩ := (rejectedBy rejected).quotes
  exact ⟨_, causes, here, infix_text quotes _ value⟩

/-- The shown part settles the error of a URI, among those that fail for the same reason. -/
theorem RejectedBy.determined (rejected : RejectedBy services uri rejection)
    (rejected' : RejectedBy services uri' rejection')
    (refuses : endpointFromUri services uri = .error rejection)
    (refuses' : endpointFromUri services uri' = .error rejection')
    (reason : rejection.map ErrorMessage.site = rejection'.map ErrorMessage.site)
    (same : shownPart services uri = shownPart services uri') : rejection = rejection' := by
  have heads : ∀ {message message' : ErrorMessage} {causes causes' : Rejection},
      (message :: causes).map ErrorMessage.site = (message' :: causes').map ErrorMessage.site →
        message.site = message'.site := fun equal => (List.cons.inj equal).1
  cases rejected with
  | file report =>
    obtain ⟨error, read, rfl⟩ := report
    cases rejected' with
    | file report' =>
      obtain ⟨error', read', rfl⟩ := report'
      rw [same] at read
      obtain rfl := Except.error.inj (read.symm.trans read')
      rw [same]
    | base _ _ quotes =>
      obtain ⟨site, value, causes, rfl, inSegment⟩ := quotes
      cases heads reason
      cases inSegment
    | middleware _ quotes =>
      obtain ⟨value, causes, rfl⟩ := quotes
      cases heads reason
  | base refused shown quotes =>
    obtain ⟨site, value, causes, here, inSegment⟩ := quotes
    cases rejected' with
    | file report' =>
      obtain ⟨error', -, rfl⟩ := report'
      rw [here] at reason
      cases heads reason
      cases inSegment
    | base refused' shown' _ =>
      have bases : baseSegment uri = baseSegment uri' := shown.symm.trans (same.trans shown')
      rw [bases] at refused
      exact Except.error.inj (refused.symm.trans refused')
    | middleware _ quotes' =>
      obtain ⟨value', causes', rfl⟩ := quotes'
      rw [here] at reason
      cases heads reason
      cases inSegment
  | middleware shown quotes =>
    obtain ⟨value, causes, rfl⟩ := quotes
    cases rejected' with
    | file report' =>
      obtain ⟨error', -, rfl⟩ := report'
      cases heads reason
    | base _ _ quotes' =>
      obtain ⟨site, value', causes', rfl, inSegment⟩ := quotes'
      cases heads reason
      cases inSegment
    | middleware shown' _ =>
      have whole : uri = uri' := shown.symm.trans (same.trans shown')
      subst whole
      exact Except.error.inj (refuses.symm.trans refuses')

end

/-- Two URIs that are rejected for the same reason have the same messages when the parts that are shown are the
same, and only then. Messages that quote the same values beside these parts read the same only then, too. -/
theorem rejection_eq_iff (services : UriServices) (uri uri' : Text) (rejection rejection' : Rejection)
    (rejected : endpointFromUri services uri = .error rejection)
    (rejected' : endpointFromUri services uri' = .error rejection')
    (reason : rejection.map ErrorMessage.site = rejection'.map ErrorMessage.site) :
    (rejection = rejection' ↔ shownPart services uri = shownPart services uri') ∧
      (shownPart services uri = shownPart services uri' →
        ∀ context, errorText context rejection = errorText context rejection') ∧
      (rejection.map ErrorMessage.value = rejection'.map ErrorMessage.value →
        rejection.map ErrorMessage.text = rejection'.map ErrorMessage.text →
          shownPart services uri = shownPart services uri') := by
  have determined := (rejectedBy rejected).determined (rejectedBy rejected') rejected rejected' reason
  obtain ⟨site, value, causes, here, quotes⟩ := (rejectedBy rejected).quotes
  obtain ⟨site', value', causes', here', -⟩ := (rejectedBy rejected').quotes
  refine ⟨⟨?messages, determined⟩, fun same context => by rw [determined same], ?texts⟩
  case messages =>
    rintro rfl
    have first := (List.cons.inj (here.symm.trans here')).1
    exact congrArg ErrorMessage.quoted first
  case texts =>
    intro values texts
    rw [here, here'] at reason values texts
    obtain rfl : site = site' := (List.cons.inj reason).1
    obtain rfl : value = value' := (List.cons.inj values).1
    exact text_injective quotes (List.cons.inj texts).1

/-- A parser for URLs of an authority and a path, which wants a numeric port. -/
def parseAuthorityUrl (uri : Text) : Except Text (ParsedUri uri.length) :=
  match splitAtText "://" uri with
  | none => .error "relative URL without a base"
  | some (scheme, rest) =>
    let authority := rest.takeWhile isAuthorityChar
    let host := ((rsplitOnce '@' authority).map Prod.snd).getD authority
    match splitOnce ':' host with
    | none => .ok ⟨scheme, host, rest.dropWhile isAuthorityChar, []⟩
    | some (name, port) =>
      if port.all Char.isDigit then .ok ⟨scheme, name, rest.dropWhile isAuthorityChar, []⟩
      else .error "invalid port number"

def bareServices : UriServices where
  parseUrl := parseAuthorityUrl
  formPairs _ := []
  connectionUrl uri _ _ := uri
  parseFloat _ := none
  parseJson _ := .error "expected value at line 1 column 1"
  endpointFields _ := []
  middlewareFields _ := []
  buildEndpoint _ _ := .error "unknown variant"
  buildMiddleware _ _ := .error "unknown variant"
  readFile _ := .error "No such file or directory (os error 2)"
  isRegistered _ := false

def withPassword (password : Text) : Text := "postgres://alice:" ++ password ++ "@db:port/shop"

def portRejection (password : Text) : Rejection :=
  [⟨.notAUri, withPassword password, []⟩, ⟨.cause, "invalid port number", []⟩]

theorem portRejection_reason (password password' : Text) :
    (portRejection password).map ErrorMessage.site = (portRejection password').map ErrorMessage.site := rfl

theorem withPassword_rejected : endpointFromUri bareServices (withPassword "hunter2") = .error (portRejection "hunter2") ∧
    endpointFromUri bareServices (withPassword "letmein") = .error (portRejection "letmein") := by
  constructor <;> rw [endpointFromUri] <;> rfl

theorem rejection_eq_iff_port :
    (portRejection "hunter2" = portRejection "letmein" ↔
        shownPart bareServices (withPassword "hunter2") = shownPart bareServices (withPassword "letmein")) ∧
      (shownPart bareServices (withPassword "hunter2") = shownPart bareServices (withPassword "letmein") →
        ∀ context, errorText context (portRejection "hunter2") = errorText context (portRejection "letmein")) ∧
      ((portRejection "hunter2").map ErrorMessage.value = (portRejection "letmein").map ErrorMessage.value →
        (portRejection "hunter2").map ErrorMessage.text = (portRejection "letmein").map ErrorMessage.text →
          shownPart bareServices (withPassword "hunter2") = shownPart bareServices (withPassword "letmein")) :=
  rejection_eq_iff bareServices _ _ _ _ withPassword_rejected.1 withPassword_rejected.2
    (portRejection_reason _ _)

theorem password_in_report :
    LoggedAlike (withPassword "hunter2") (withPassword "letmein") ∧
      endpointFromUri bareServices (withPassword "hunter2") = .error (portRejection "hunter2") ∧
      endpointFromUri bareServices (withPassword "letmein") = .error (portRejection "letmein") ∧
      (portRejection "hunter2").map ErrorMessage.site = (portRejection "letmein").map ErrorMessage.site ∧
      errorText "invalid copy source endpoint" (portRejection "hunter2") ≠
        errorText "invalid copy source endpoint" (portRejection "letmein") := by
  refine ⟨?_, withPassword_rejected.1, withPassword_rejected.2, portRejection_reason _ _, by decide +kernel⟩
  have heads : Blanking.Alike passwordSlot (withPassword "hunter2") (withPassword "letmein") :=
    @Blanking.Alike.slot _ _ _ _ _ ("postgres://alice:", "@db:port/shop") (by decide +kernel) (by decide +kernel)
  unfold LoggedAlike
  rw [show (withPassword "hunter2").splitOn '|' = [withPassword "hunter2"] by decide +kernel,
    show (withPassword "letmein").splitOn '|' = [withPassword "letmein"] by decide +kernel]
  exact .cons (.bare (by decide +kernel) (by decide +kernel) heads) .nil

end MqBridge.Copy
