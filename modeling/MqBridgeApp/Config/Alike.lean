import MqBridgeApp.Config.Document

/-!
# Alike configurations

Two configurations are alike when their fields are, where endpoints and JSON payloads are compared by
what they are saved as. Alike configurations are saved as the same documents.
-/

namespace MqBridge.Config

structure ConsumerResponseConfig.Alike (a b : ConsumerResponseConfig) : Prop where
  headers : SameDocuments (.textMap a.headers.entries) (.textMap b.headers.entries)
  payload : a.payload = b.payload

inductive ConsumerOutputConfig.Alike : ConsumerOutputConfig → ConsumerOutputConfig → Prop where
  | none : Alike .none .none
  | publisher (name : Text) (id : Option Text) : Alike (.publisher name id) (.publisher name id)
  | response {a b : Option ConsumerResponseConfig} (answer : Option.Rel ConsumerResponseConfig.Alike a b) :
      Alike (.response a) (.response b)

structure ConsumerConfig.Alike (a b : ConsumerConfig) : Prop where
  id : a.id = b.id
  name : a.name = b.name
  enabled : a.enabled = b.enabled
  endpoint : SameDocuments a.endpoint.toData b.endpoint.toData
  comment : a.comment = b.comment
  response : Option.Rel ConsumerResponseConfig.Alike a.response b.response
  output : a.output.Alike b.output
  messageCapture : a.messageCapture = b.messageCapture
  options : a.options = b.options

structure PublisherClient.Alike (a b : PublisherClient) : Prop where
  id : a.id = b.id
  name : a.name = b.name
  endpoint : SameDocuments a.endpoint.toData b.endpoint.toData
  comment : a.comment = b.comment
  payload : a.payload = b.payload
  headers : a.headers = b.headers
  sortOrder : a.sortOrder = b.sortOrder

structure Route.Alike (a b : Route) : Prop where
  input : SameDocuments a.input.toData b.input.toData
  output : SameDocuments a.output.toData b.output.toData
  options : a.options = b.options

structure RouteConfig.Alike (a b : RouteConfig) : Prop where
  enabled : a.enabled = b.enabled
  route : a.route.Alike b.route

def historyData (history : List (Text × Json)) : Data := .map (history.map fun entry => (entry.1, ofJson entry.2))

structure AppConfig.Alike (a b : AppConfig) : Prop where
  logLevel : a.logLevel = b.logLevel
  logger : a.logger = b.logger
  uiAddr : a.uiAddr = b.uiAddr
  metricsAddr : a.metricsAddr = b.metricsAddr
  plugins : a.plugins = b.plugins
  routes : a.routes = [] ∧ b.routes = []
  consumers : List.Forall₂ ConsumerConfig.Alike a.consumers b.consumers
  publishers : List.Forall₂ PublisherClient.Alike a.publishers b.publishers
  history : SameDocuments (historyData a.history) (historyData b.history)
  envVars : SameDocuments (.textMap a.envVars) (.textMap b.envVars)
  configSecurity : a.configSecurity = b.configSecurity
  extractSecrets : a.extractSecrets = b.extractSecrets
  defaultTab : a.defaultTab = b.defaultTab

/-! ### An equivalence -/

section Equivalence
variable {α : Type*} {r : α → α → Prop}

theorem rel_symm (symm : ∀ a b, r a b → r b a) {a b : Option α} (ab : Option.Rel r a b) : Option.Rel r b a := by
  cases ab with
  | some same => exact .some (symm _ _ same)
  | none => exact .none

theorem rel_trans (trans : ∀ a b c, r a b → r b c → r a c) {a b c : Option α} (ab : Option.Rel r a b)
    (bc : Option.Rel r b c) : Option.Rel r a c := by
  cases ab with
  | some same =>
    cases bc with
    | some same' => exact .some (trans _ _ _ same same')
  | none => exact bc

theorem forall₂_symm (symm : ∀ a b, r a b → r b a) {as bs : List α} (ab : List.Forall₂ r as bs) :
    List.Forall₂ r bs as := ab.flip.imp fun _ _ same => symm _ _ same

theorem forall₂_trans (trans : ∀ a b c, r a b → r b c → r a c) {as bs cs : List α}
    (ab : List.Forall₂ r as bs) (bc : List.Forall₂ r bs cs) : List.Forall₂ r as cs := by
  induction ab generalizing cs with
  | nil => exact bc
  | cons head _ ih =>
    cases bc with
    | cons head' tail' => exact .cons (trans _ _ _ head head') (ih tail')

end Equivalence

theorem ConsumerResponseConfig.Alike.refl (a : ConsumerResponseConfig) : a.Alike a := ⟨SameDocuments.refl _, rfl⟩

theorem alike_response_refl (answer : Option ConsumerResponseConfig) : Option.Rel ConsumerResponseConfig.Alike answer answer := by
  cases answer with
  | none => exact .none
  | some answer => exact .some (.refl answer)

theorem ConsumerOutputConfig.Alike.refl (output : ConsumerOutputConfig) : output.Alike output := by
  cases output with
  | none => exact .none
  | publisher name id => exact .publisher name id
  | response answer => exact .response (alike_response_refl answer)

theorem ConsumerConfig.Alike.refl (a : ConsumerConfig) : a.Alike a :=
  ⟨rfl, rfl, rfl, SameDocuments.refl _, rfl, alike_response_refl _, .refl _, rfl, rfl⟩

theorem PublisherClient.Alike.refl (a : PublisherClient) : a.Alike a :=
  ⟨rfl, rfl, SameDocuments.refl _, rfl, rfl, rfl, rfl⟩

theorem AppConfig.Alike.refl {a : AppConfig} (routes : a.routes = []) : a.Alike a where
  logLevel := rfl
  logger := rfl
  uiAddr := rfl
  metricsAddr := rfl
  plugins := rfl
  routes := ⟨routes, routes⟩
  consumers := List.forall₂_same.mpr fun consumer _ => .refl consumer
  publishers := List.forall₂_same.mpr fun publisher _ => .refl publisher
  history := SameDocuments.refl _
  envVars := SameDocuments.refl _
  configSecurity := rfl
  extractSecrets := rfl
  defaultTab := rfl

theorem ConsumerResponseConfig.Alike.symm {a b : ConsumerResponseConfig} (ab : a.Alike b) : b.Alike a :=
  ⟨ab.headers.symm, ab.payload.symm⟩

theorem ConsumerResponseConfig.Alike.trans {a b c : ConsumerResponseConfig} (ab : a.Alike b) (bc : b.Alike c) :
    a.Alike c :=
  ⟨ab.headers.trans bc.headers, ab.payload.trans bc.payload⟩

theorem ConsumerOutputConfig.Alike.symm {a b : ConsumerOutputConfig} (ab : a.Alike b) : b.Alike a := by
  cases ab with
  | none => exact .none
  | publisher name id => exact .publisher name id
  | response answer => exact .response (rel_symm (fun _ _ => ConsumerResponseConfig.Alike.symm) answer)

theorem ConsumerOutputConfig.Alike.trans {a b c : ConsumerOutputConfig} (ab : a.Alike b) (bc : b.Alike c) :
    a.Alike c := by
  cases ab with
  | none => exact bc
  | publisher name id => exact bc
  | response answer =>
    cases bc with
    | response answer' => exact .response (rel_trans (r := ConsumerResponseConfig.Alike) (fun _ _ _ => ConsumerResponseConfig.Alike.trans) answer answer')

theorem ConsumerConfig.Alike.symm {a b : ConsumerConfig} (ab : a.Alike b) : b.Alike a where
  id := ab.id.symm
  name := ab.name.symm
  enabled := ab.enabled.symm
  endpoint := ab.endpoint.symm
  comment := ab.comment.symm
  response := rel_symm (fun _ _ => ConsumerResponseConfig.Alike.symm) ab.response
  output := ab.output.symm
  messageCapture := ab.messageCapture.symm
  options := ab.options.symm

theorem ConsumerConfig.Alike.trans {a b c : ConsumerConfig} (ab : a.Alike b) (bc : b.Alike c) : a.Alike c where
  id := ab.id.trans bc.id
  name := ab.name.trans bc.name
  enabled := ab.enabled.trans bc.enabled
  endpoint := ab.endpoint.trans bc.endpoint
  comment := ab.comment.trans bc.comment
  response := rel_trans (r := ConsumerResponseConfig.Alike) (fun _ _ _ => ConsumerResponseConfig.Alike.trans) ab.response bc.response
  output := ab.output.trans bc.output
  messageCapture := ab.messageCapture.trans bc.messageCapture
  options := ab.options.trans bc.options

theorem PublisherClient.Alike.symm {a b : PublisherClient} (ab : a.Alike b) : b.Alike a where
  id := ab.id.symm
  name := ab.name.symm
  endpoint := ab.endpoint.symm
  comment := ab.comment.symm
  payload := ab.payload.symm
  headers := ab.headers.symm
  sortOrder := ab.sortOrder.symm

theorem PublisherClient.Alike.trans {a b c : PublisherClient} (ab : a.Alike b) (bc : b.Alike c) : a.Alike c where
  id := ab.id.trans bc.id
  name := ab.name.trans bc.name
  endpoint := ab.endpoint.trans bc.endpoint
  comment := ab.comment.trans bc.comment
  payload := ab.payload.trans bc.payload
  headers := ab.headers.trans bc.headers
  sortOrder := ab.sortOrder.trans bc.sortOrder

theorem AppConfig.Alike.symm {a b : AppConfig} (ab : a.Alike b) : b.Alike a where
  logLevel := ab.logLevel.symm
  logger := ab.logger.symm
  uiAddr := ab.uiAddr.symm
  metricsAddr := ab.metricsAddr.symm
  plugins := ab.plugins.symm
  routes := ab.routes.symm
  consumers := forall₂_symm (fun _ _ => ConsumerConfig.Alike.symm) ab.consumers
  publishers := forall₂_symm (fun _ _ => PublisherClient.Alike.symm) ab.publishers
  history := ab.history.symm
  envVars := ab.envVars.symm
  configSecurity := ab.configSecurity.symm
  extractSecrets := ab.extractSecrets.symm
  defaultTab := ab.defaultTab.symm

theorem AppConfig.Alike.trans {a b c : AppConfig} (ab : a.Alike b) (bc : b.Alike c) : a.Alike c where
  logLevel := ab.logLevel.trans bc.logLevel
  logger := ab.logger.trans bc.logger
  uiAddr := ab.uiAddr.trans bc.uiAddr
  metricsAddr := ab.metricsAddr.trans bc.metricsAddr
  plugins := ab.plugins.trans bc.plugins
  routes := ⟨ab.routes.1, bc.routes.2⟩
  consumers := forall₂_trans (r := ConsumerConfig.Alike) (fun _ _ _ => ConsumerConfig.Alike.trans) ab.consumers bc.consumers
  publishers := forall₂_trans (r := PublisherClient.Alike) (fun _ _ _ => PublisherClient.Alike.trans) ab.publishers bc.publishers
  history := ab.history.trans bc.history
  envVars := ab.envVars.trans bc.envVars
  configSecurity := ab.configSecurity.trans bc.configSecurity
  extractSecrets := ab.extractSecrets.trans bc.extractSecrets
  defaultTab := ab.defaultTab.trans bc.defaultTab

/-! ### Alike is saved alike -/

theorem sameFields_refl (fields : List (Text × Data)) : List.Forall₂ SameField fields fields := by
  rw [List.forall₂_same]
  exact fun _ _ => ⟨rfl, SameDocuments.refl _⟩

theorem sameFields_written {name : Text} {a b : Data} (same : SameDocuments a b) :
    List.Forall₂ SameField (written name a) (written name b) := .cons ⟨rfl, same⟩ .nil

theorem sameFields_skippedIf {name : Text} {skip skip' : Bool} {a b : Data} (skips : skip = skip')
    (same : skip' = false → SameDocuments a b) :
    List.Forall₂ SameField (skippedIf skip name a) (skippedIf skip' name b) := by
  subst skips
  cases skip with
  | true => exact .nil
  | false => exact sameFields_written (same rfl)

theorem sameFields_append {as as' bs bs' : List (Text × Data)} (first : List.Forall₂ SameField as bs)
    (second : List.Forall₂ SameField as' bs') : List.Forall₂ SameField (as ++ as') (bs ++ bs') :=
  List.rel_append first second

theorem ConsumerResponseConfig.Alike.sameDocuments {a b : ConsumerResponseConfig} (ab : a.Alike b) :
    SameDocuments a.toData b.toData := by
  unfold ConsumerResponseConfig.toData
  rw [ab.payload]
  exact .record (.cons ⟨rfl, ab.headers⟩ (sameFields_refl _))

theorem sameDocuments_response {a b : Option ConsumerResponseConfig}
    (ab : Option.Rel ConsumerResponseConfig.Alike a b) : a.isNone = b.isNone ∧
      SameDocuments (.option ConsumerResponseConfig.toData a) (.option ConsumerResponseConfig.toData b) := by
  cases ab with
  | some same => exact ⟨rfl, same.sameDocuments⟩
  | none => exact ⟨rfl, SameDocuments.refl _⟩

theorem ConsumerOutputConfig.Alike.sameDocuments {a b : ConsumerOutputConfig} (ab : a.Alike b) :
    a.isNone = b.isNone ∧ SameDocuments a.toData b.toData := by
  cases ab with
  | none => exact ⟨rfl, SameDocuments.refl _⟩
  | publisher name id => exact ⟨rfl, SameDocuments.refl _⟩
  | response answer =>
    obtain ⟨skips, same⟩ := sameDocuments_response answer
    exact ⟨rfl, .record (.cons ⟨rfl, SameDocuments.refl _⟩ (sameFields_skippedIf skips fun _ => same))⟩

theorem ConsumerConfig.Alike.sameDocuments {a b : ConsumerConfig} (ab : a.Alike b) :
    SameDocuments a.toData b.toData := by
  obtain ⟨skipsResponse, response⟩ := sameDocuments_response ab.response
  obtain ⟨skipsOutput, output⟩ := ab.output.sameDocuments
  unfold ConsumerConfig.toData ConsumerConfig.toFields
  rw [ab.id, ab.name, ab.enabled, ab.comment, ab.messageCapture, ab.options]
  refine .record (sameFields_append (sameFields_append ?_ (sameFields_refl _)) (sameFields_refl _))
  refine sameFields_append (sameFields_append ?_ (sameFields_skippedIf skipsResponse fun _ => response))
    (sameFields_skippedIf skipsOutput fun _ => output)
  exact sameFields_append (sameFields_append (sameFields_refl _) (sameFields_written ab.endpoint)) (sameFields_refl _)

theorem PublisherClient.Alike.sameDocuments {a b : PublisherClient} (ab : a.Alike b) :
    SameDocuments a.toData b.toData := by
  unfold PublisherClient.toData
  rw [ab.id, ab.name, ab.comment, ab.payload, ab.headers, ab.sortOrder]
  refine .record (sameFields_append (sameFields_append (sameFields_append (sameFields_append ?_ (sameFields_refl _))
    (sameFields_refl _)) (sameFields_refl _)) (sameFields_refl _))
  exact sameFields_append (sameFields_refl _) (sameFields_written ab.endpoint)

theorem sameDocuments_seq {α : Type*} {r : α → α → Prop} {toData : α → Data}
    (same : ∀ a b, r a b → SameDocuments (toData a) (toData b)) {as bs : List α} (all : List.Forall₂ r as bs) :
    SameDocuments (.seq (as.map toData)) (.seq (bs.map toData)) := by
  apply SameDocuments.seq
  rw [List.forall₂_map_left_iff, List.forall₂_map_right_iff]
  exact all.imp same

theorem AppConfig.Alike.sameDocuments {a b : AppConfig} (ab : a.Alike b)
    (history : a.history.isEmpty = b.history.isEmpty) : SameDocuments (.record a.toFields) (.record b.toFields) := by
  unfold AppConfig.toFields
  rw [ab.logLevel, ab.logger, ab.uiAddr, ab.metricsAddr, ab.plugins, ab.routes.1, ab.routes.2, ab.configSecurity,
    ab.extractSecrets, ab.defaultTab]
  have consumers := sameDocuments_seq (r := ConsumerConfig.Alike) (fun _ _ => ConsumerConfig.Alike.sameDocuments) ab.consumers
  have publishers := sameDocuments_seq (r := PublisherClient.Alike) (fun _ _ => PublisherClient.Alike.sameDocuments) ab.publishers
  refine .record (sameFields_append (sameFields_append (sameFields_append ?_ (sameFields_refl _)) (sameFields_refl _))
    (sameFields_refl _))
  refine sameFields_append (sameFields_append ?_ (sameFields_skippedIf history fun _ => ab.history))
    (sameFields_written ab.envVars)
  exact sameFields_append (sameFields_append (sameFields_refl _) (sameFields_written consumers))
    (sameFields_written publishers)

end MqBridge.Config
