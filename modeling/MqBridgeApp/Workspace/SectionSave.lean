import MqBridgeApp.Config.Sections
import MqBridgeApp.Lib.JavaScript
import MqBridgeApp.Lib.Steps
import MqBridgeApp.Ui.UpdateKept

/-!
# Saving one section

A section is saved by posting the whole configuration of the browser with the section replaced. What
the other sections hold there is posted with it, saved or not, so the server is left with its own
values for them only when the browser has no others.
-/

namespace MqBridge.Workspace
open Text Config Ui

/-- Posts a configuration, and tells whether it is accepted. -/
def postConfig (crates : Crates) (services : Services) (app : UiApp) (body : Record) : UiApp × Bool :=
  match AppConfig.read crates services.storage.ids (.obj body) with
  | none => (app, false)
  | some (new, used) =>
    -- the ids that reading took are taken
    let ids : IdSupply := fun n => services.storage.ids (used + n)
    match updateConfig { services with storage := { services.storage with ids } } app new with
    | (app, .ok ()) => (app, true)
    | (app, .error _) => (app, false)

def getConfig (app : UiApp) : Record := Data.toEntries app.config.migrateLegacySecurityMode.toFields

/-- The server has the configuration it had, with one section replaced by what a value says. -/
def SavedOnly (crates : Crates) (sectionName : Text) (value : Json) (before after : UiApp) : Prop :=
  sectionName ∈ appFields ∧ ∃ new, (∀ ids, AppConfig.read crates ids (.obj [(sectionName, value)]) = some (new, 0)) ∧
    after.config.Alike (before.config.withSection sectionName new)

inductive Stage where
  | sent
  | stored
  | finished
  deriving DecidableEq

structure SaveRequest where
  /-- The section that is saved and its value, or nothing when everything is. -/
  target : Option (Text × Json)
  body : Record
  stage : Stage := .sent

def saveConfigSection (currentConfig : Record) (sectionName : Text) (sectionValue : Json) : SaveRequest where
  target := some (sectionName, sectionValue)
  body := currentConfig.assign sectionName sectionValue

def saveWholeConfig (currentConfig : Record) : SaveRequest where
  target := none
  body := currentConfig

structure Session where
  server : UiApp
  appConfig : Record
  requests : List SaveRequest := []

inductive Action where
  | edit (key : Text) (value : Option Json)
  | saveSection (sectionName : Text) (sectionValue : Json)
  | saveAll
  | arrive (index : Nat) (services : Services)
  /-- The configuration is fetched after a request was accepted. -/
  | readBack (index : Nat)

section
variable (crates : Crates)

def Session.setStage (session : Session) (index : Nat) (request : SaveRequest) (stage : Stage) : Session :=
  { session with requests := session.requests.set index { request with stage } }

def arrive (services : Services) (session : Session) (index : Nat) (request : SaveRequest) : Session :=
  let posted := postConfig crates services session.server request.body
  { session.setStage index request (if posted.2 then .stored else .finished) with server := posted.1 }

/-- Takes over what the server answers: the section that was saved, or everything. -/
def readBack (session : Session) (index : Nat) (request : SaveRequest) : Session :=
  let refreshedConfig := getConfig session.server
  let appConfig :=
    match request.target with
    | some (sectionName, _) => session.appConfig.put sectionName (refreshedConfig.lookup sectionName)
    | none => refreshedConfig
  { session.setStage index request .finished with appConfig }

def Session.step (session : Session) : Action → Option Session
  | .edit key value => some { session with appConfig := session.appConfig.put key value }
  | .saveSection sectionName sectionValue =>
    some { session with
      requests := session.requests ++ [saveConfigSection session.appConfig sectionName sectionValue] }
  | .saveAll => some { session with requests := session.requests ++ [saveWholeConfig session.appConfig] }
  | .arrive index services =>
    (session.requests[index]?).bind fun request =>
      if request.stage = .sent then some (arrive crates services session index request) else none
  | .readBack index =>
    (session.requests[index]?).bind fun request =>
      if request.stage = .stored then some (readBack session index request) else none

def Session.Quiet (session : Session) : Prop := ∀ request ∈ session.requests, request.stage ≠ .sent

/-- The other sections say what the server has, and an update has nothing to change in the configuration that
the value completes. -/
def Session.Complete (session : Session) (sectionName : Text) (value : Json) : Prop :=
  ∃ new, Replaces crates session.appConfig sectionName value session.server.config new ∧
    Normal (session.server.config.withSection sectionName new)

/-- Saves are made one at a time, and one of a section only when the other sections are saved. -/
def MadeAlone (session : Session) : Action → Prop
  | .saveSection sectionName value => session.Quiet ∧ session.Complete crates sectionName value
  | .saveAll => session.Quiet
  | _ => True

/-! ### What a request carries -/

/-- The request carries what the server has, with one section replaced. -/
def Carries (server : UiApp) (request : SaveRequest) : Prop :=
  ∀ sectionName value, request.target = some (sectionName, value) →
    ∃ entries new, request.body = Record.assign entries sectionName value ∧
      Replaces crates entries sectionName value server.config new ∧ Normal (server.config.withSection sectionName new)

/-- The request on its way is the only one, and it carries what the server has. -/
def Session.Current (session : Session) : Prop :=
  ∀ (index : Nat) (request : SaveRequest), session.requests[index]? = some request → request.stage = .sent →
    (∀ (other : Nat) (request' : SaveRequest), session.requests[other]? = some request' → request'.stage = .sent →
      other = index) ∧ Carries crates session.server request

variable {crates} {session next : Session}

theorem Session.Quiet.current (quiet : session.Quiet) : session.Current crates :=
  fun _ request found sent => (quiet request (List.mem_of_getElem? found) sent).elim

theorem Session.Current.quiet_setStage {index : Nat} {request : SaveRequest} {stage : Stage} {server : UiApp}
    (current : session.Current crates) (here : session.requests[index]? = some request) (sent : request.stage = .sent)
    (moved : stage ≠ .sent) : Session.Quiet { session.setStage index request stage with server } := by
  intro other member still
  obtain ⟨place, found⟩ := List.mem_iff_getElem?.mp member
  rcases Steps.call_of_set found with ⟨-, rfl⟩ | ⟨elsewhere, there⟩
  · exact moved still
  · exact elsewhere ((current index request here sent).1 place other there still).symm

theorem Session.Quiet.current_append {request : SaveRequest} (quiet : session.Quiet)
    (carries : Carries crates session.server request) :
    Session.Current crates { session with requests := session.requests ++ [request] } := by
  have only : ∀ place other, (session.requests ++ [request])[place]? = some other → other.stage = .sent →
      place = session.requests.length ∧ other = request := by
    intro place other found sent
    rcases Steps.call_of_append found with old | new
    · exact (quiet other (List.mem_of_getElem? old) sent).elim
    · exact new
  intro index other found sent
  obtain ⟨rfl, rfl⟩ := only index other found sent
  exact ⟨fun place request' there stage => (only place request' there stage).1, carries⟩

theorem Session.Current.step {action : Action} (current : session.Current crates)
    (alone : MadeAlone crates session action) (stepped : session.step crates action = some next) :
    next.Current crates := by
  cases action with
  | edit key value =>
    obtain rfl := Option.some.inj stepped
    exact current
  | saveSection sectionName value =>
    obtain rfl := Option.some.inj stepped
    apply alone.1.current_append
    intro name value' target
    obtain ⟨rfl, rfl⟩ := Prod.mk.inj (Option.some.inj target)
    obtain ⟨new, replaces, normal⟩ := alone.2
    exact ⟨session.appConfig, new, rfl, replaces, normal⟩
  | saveAll =>
    obtain rfl := Option.some.inj stepped
    apply Session.Quiet.current_append alone
    intro name value target
    cases target
  | arrive index services =>
    obtain ⟨request, here, stepped⟩ := Option.bind_eq_some_iff.mp stepped
    split at stepped
    · next sent =>
      obtain rfl := Option.some.inj stepped
      have answered : ∀ accepted : Bool, (if accepted then Stage.stored else .finished) ≠ .sent := by decide
      exact (current.quiet_setStage here sent (answered _)).current
    · cases stepped
  | readBack index =>
    obtain ⟨request, here, stepped⟩ := Option.bind_eq_some_iff.mp stepped
    split at stepped
    · next stored =>
      obtain rfl := Option.some.inj stepped
      -- the request that was read back was not on its way, so the one that is stays the same
      intro place other found sent
      rcases Steps.call_of_set found with ⟨-, rfl⟩ | ⟨-, there⟩
      · cases sent
      · refine ⟨fun place' request' found' sent' => ?_, (current place other there sent).2⟩
        rcases Steps.call_of_set found' with ⟨-, rfl⟩ | ⟨-, there'⟩
        · cases sent'
        · exact (current place other there sent).1 place' request' there' sent'
    · cases stepped

theorem arrive_accepted {services : Services} {index : Nat} {request : SaveRequest}
    (here : session.requests[index]? = some request)
    (accepted : (postConfig crates services session.server request.body).2 = true) :
    (arrive crates services session index request).requests[index]? = some { request with stage := .stored } := by
  have inside := (List.getElem?_eq_some_iff.mp here).1
  simp only [arrive, Session.setStage, List.getElem?_set_self inside, accepted, if_true]

/-- What is accepted of a request that carries the server's own configuration changes the section it saves. -/
theorem postConfig_accepted (laws : crates.Lawful) {services : Services} {app after : UiApp} {request : SaveRequest}
    {sectionName : Text} {value : Json} (carries : Carries crates app request)
    (target : request.target = some (sectionName, value))
    (posted : postConfig crates services app request.body = (after, true)) :
    SavedOnly crates sectionName value app after := by
  obtain ⟨entries, new, body, replaces, normal⟩ := carries sectionName value target
  refine ⟨replaces.known, new, replaces.saved, ?_⟩
  unfold postConfig at posted
  split at posted
  · cases posted
  · next read used found =>
    rw [body] at found
    have alike := replaces.read_alike laws normal.settled.routes found
    dsimp only at posted
    split at posted
    · next updated =>
      obtain ⟨rfl, -⟩ := Prod.mk.inj posted
      exact updateConfig_alike normal alike updated
    · cases posted

/-- When saves are made one at a time and a section only while the others are saved, a save of a section that the
server accepts leaves it its own configuration with that section replaced. -/
theorem section_save_frame (crates : Crates) (laws : crates.Lawful) (start : Session) {before after : Session}
    (actions : List Action) (index : Nat) (services : Services) {request : SaveRequest} {sectionName : Text} {value : Json}
    (idle : start.requests = []) (alone : Steps.Careful (Session.step crates) (MadeAlone crates) start actions)
    (played : Steps.play (Session.step crates) start actions = some before)
    (here : before.requests[index]? = some request) (target : request.target = some (sectionName, value))
    (arrived : before.step crates (.arrive index services) = some after)
    (accepted : after.requests[index]? = some { request with stage := .stored }) :
    SavedOnly crates sectionName value before.server after.server := by
  have started : start.Current crates := by
    apply Session.Quiet.current
    intro request member
    rw [idle] at member
    cases member
  have current := Steps.play_invariant Session.Current.step started alone played
  rw [Session.step, here, Option.bind_some] at arrived
  split at arrived
  · next sent =>
    obtain rfl := Option.some.inj arrived
    apply postConfig_accepted laws (current index request here sent).2 target
    refine Prod.ext rfl ?_
    have inside := (List.getElem?_eq_some_iff.mp here).1
    have staged : (before.requests.set index _)[index]? = some _ := accepted
    rw [List.getElem?_set_self inside] at staged
    have stage : (if (postConfig crates services before.server request.body).2 then Stage.stored else .finished) = .stored :=
      congrArg SaveRequest.stage (Option.some.inj staged)
    split at stage
    · next yes => exact yes
    · cases stage
  · cases arrived

end

/-! ### An unsaved payload -/

def savedConfig : AppConfig where
  publishers := [{ id := "p1", name := "orders", endpoint := .new .response, payload := "empty" }]
  consumers := [{ id := "c1", name := "inbox", endpoint := .new .response, output := .publisher "orders" (some "p1") }]
  configSecurity := some { mode := .unencrypted }

def savedApp : UiApp where
  config := savedConfig
  handles := []
  file := none
  storageSecurity := .null

def openCrates : Crates := plainCrates (fun _ text => text) []

def openServices : Services := { workingServices with storage := plainStorage }

/-- The server's configuration, with the consumer as its view writes it. -/
def loadedSession : Session where
  server := savedApp
  appConfig := (getConfig savedApp).assign "consumers" (.arr (savedConfig.consumers.map fun consumer =>
    .obj (Data.toEntries consumer.toFields ++ [(("response" : Text), Json.null)])))

def publishHistory : Json := .obj [("p1", .arr [.obj [("id", .num (.ofNat 1))]])]

def draftedPublishers : Json :=
  .arr [.obj [("id", .str "p1"), ("name", .str "orders"), ("endpoint", (Endpoint.new .response).toData.toValue),
    ("payload", .str "draft")]]

theorem loadedSession_says : ∀ key ∈ appFields, savedConfig.Says openCrates loadedSession.appConfig key := by
  have alone : ∀ key ∈ appFields, ∀ ids, AppConfig.read openCrates ids (.obj (onlySection key loadedSession.appConfig)) =
      some (AppConfig.withSection {} key savedConfig, 0) := by
    intro key known ids
    simp only [appFields, List.mem_cons, List.not_mem_nil, or_false] at known
    rcases known with rfl | rfl | rfl | rfl | rfl | rfl | rfl | rfl | rfl | rfl | rfl | rfl | rfl <;> rfl
  intro key known
  refine ⟨_, alone key known, ?_⟩
  rw [withSection_back]
  exact .refl rfl

theorem loadedSession_complete : loadedSession.Complete openCrates "history" publishHistory := by
  refine ⟨{ history := [("p1", .arr [.obj [("id", .num (.ofNat 1))]])] },
    ⟨by decide, fun _ => rfl, fun key known _ => loadedSession_says key known⟩, ?_⟩
  exact {
    settled := ⟨rfl, by decide, by decide, by decide, by decide, fun consumer member _ => by
      obtain rfl := List.mem_singleton.mp (show consumer ∈ [_] from member)
      rfl, by decide⟩
    secured := rfl
    outputs := rfl
    consumers := fun consumer member => by
      obtain rfl := List.mem_singleton.mp (show consumer ∈ [_] from member)
      rfl }

theorem history_accepted :
    (postConfig openCrates openServices savedApp (loadedSession.appConfig.assign "history" publishHistory)).2 = true := by
  decide +kernel

theorem section_save_frame_history : ∃ before after : Session,
    Steps.play (Session.step openCrates) loadedSession [.saveSection "history" publishHistory] = some before ∧
      before.step openCrates (.arrive 0 openServices) = some after ∧
      SavedOnly openCrates "history" publishHistory before.server after.server := by
  refine ⟨_, _, rfl, rfl, ?_⟩
  refine section_save_frame openCrates (plainCrates_lawful _ _) loadedSession
    [.saveSection "history" publishHistory] 0 openServices rfl ?_ rfl rfl rfl rfl (arrive_accepted rfl history_accepted)
  exact ⟨⟨fun request member => absurd member List.not_mem_nil, loadedSession_complete⟩, trivial⟩

def draftedConfig : Record :=
  (loadedSession.appConfig.put "publishers" (some draftedPublishers)).assign "history" publishHistory

theorem drafted_accepted : (postConfig openCrates openServices savedApp draftedConfig).2 = true := by decide +kernel

/-- A payload that was edited and not saved is stored by the history's own save. -/
theorem unsaved_payload_stored :
    ¬ ∀ (actions : List Action) (before after : Session) (index : Nat) (request : SaveRequest)
        (sectionName : Text) (value : Json),
      Steps.play (Session.step openCrates) loadedSession actions = some before →
      before.requests[index]? = some request → request.target = some (sectionName, value) →
      before.step openCrates (.arrive index openServices) = some after →
      after.requests[index]? = some { request with stage := .stored } →
      SavedOnly openCrates sectionName value before.server after.server := by
  intro frame
  obtain ⟨-, new, -, alike⟩ := frame
    [.edit "publishers" (some draftedPublishers), .saveSection "history" publishHistory] _ _ 0 _
    "history" publishHistory rfl rfl rfl rfl (arrive_accepted rfl drafted_accepted)
  have payloads := Lists.map_of_forall₂ (r := PublisherClient.Alike) (f := fun publisher => publisher.payload)
    (fun _ _ same => same.payload) alike.publishers
  have stored : (postConfig openCrates openServices savedApp draftedConfig).1.config.publishers.map (·.payload) =
      ["draft"] := by decide +kernel
  have kept : (["draft"] : List Text) = ["empty"] := stored.symm.trans payloads
  exact absurd kept (by decide)

end MqBridge.Workspace
