import MqBridgeApp.Lib.Steps
import MqBridgeApp.Ui.UpdateKept

/-!
# Concurrent calls

A call takes the configuration lock and the handles lock one after the other, and the steps of several
calls come in any order. A step that acts on what another call has changed since it was read leaves the
file, the configuration and the routes apart.
-/

namespace MqBridge.Ui
open Text Config

/-- A call between two of its steps. -/
inductive InFlight where
  | updatePlanned (plan : UpdatePlan)
  | updateRead (plan : UpdatePlan) (old : AppConfig)
  | updateStopped (plan : UpdatePlan)
  | updateSaved (plan : UpdatePlan)
  | updateSecured (plan : UpdatePlan)
  | startRead (consumer : ConsumerConfig) (publishers : List PublisherClient)
  | stopRead (key : Text)

structure System where
  app : UiApp
  calls : List InFlight

inductive Request where
  | update (new : AppConfig)
  | start (lookup : Text)
  | stop (lookup : Text)

inductive Action where
  | enter (services : Services) (request : Request)
  | resume (services : Services) (index : Nat)
  | ended (key : Text)

section
variable (services : Services)

/-- The first step of a call. A call that is refused or finds nothing returns without one. -/
def UiApp.enter (app : UiApp) : Request → Option InFlight
  | .update new => (planUpdate services new).toOption.map .updatePlanned
  | .start lookup =>
    (findByLookup app.config.consumers lookup).map fun consumer => .startRead consumer app.config.publishers
  | .stop lookup => some (.stopRead (stopKey app.config lookup))

/-- The next step of a call, and where the call stands after it. An update that fails to save has no
next step. -/
def UiApp.resume (app : UiApp) : InFlight → Option (UiApp × Option InFlight)
  | .updatePlanned plan => some (app, some (.updateRead plan app.config))
  | .updateRead plan old =>
    some ({ app with handles := stopStale old.consumers plan.consumers app.handles }, some (.updateStopped plan))
  | .updateStopped plan =>
    match commitUpdate services plan app.file with
    | (file, .ok ()) => some ({ app with file }, some (.updateSaved plan))
    | (_, .error _) => none
  | .updateSaved plan =>
    some ({ app with storageSecurity := plan.storageSecurity services app.storageSecurity },
      some (.updateSecured plan))
  | .updateSecured plan => some ({ app with config := plan.final }, none)
  | .startRead consumer publishers =>
    some ({ app with handles := (startUiCollectorRoute services consumer publishers app.handles).1 }, none)
  | .stopRead key => some ({ app with handles := app.handles.filter fun handle => handle.1 != key }, none)

end

def System.act (system : System) : Action → Option System
  | .enter services request =>
    (system.app.enter services request).map fun call => { system with calls := call :: system.calls }
  | .resume services index => do
    let call ← system.calls[index]?
    let (app, next) ← system.app.resume services call
    some { app, calls := system.calls.take index ++ (next.toList ++ system.calls.drop (index + 1)) }
  | .ended key => some { system with app := endRoute system.app key }

section
variable (services : Services)

theorem update_alone {app after : UiApp} {new : AppConfig}
    (updated : updateConfig services app new = (after, .ok ())) :
    Steps.play System.act ⟨app, []⟩ (.enter services (.update new) :: List.replicate 5 (.resume services 0)) =
      some ⟨after, []⟩ := by
  unfold updateConfig at updated
  cases planned : planUpdate services new with
  | error reason => simp [planned] at updated
  | ok plan =>
    simp only [planned] at updated
    split at updated
    · simp at updated
    · next file committed =>
      obtain ⟨rfl, -⟩ := Prod.mk.inj updated
      simp [Steps.play, System.act, UiApp.enter, UiApp.resume, planned, Except.toOption, committed, List.replicate]

theorem start_alone (app : UiApp) (lookup : Text) {consumer : ConsumerConfig}
    (found : findByLookup app.config.consumers lookup = some consumer) :
    Steps.play System.act ⟨app, []⟩ [.enter services (.start lookup), .resume services 0] =
      some ⟨(startConsumer services app lookup).1, []⟩ := by
  simp [Steps.play, System.act, UiApp.enter, UiApp.resume, startConsumer, found]

theorem stop_alone (app : UiApp) (lookup : Text) :
    Steps.play System.act ⟨app, []⟩ [.enter services (.stop lookup), .resume services 0] =
      some ⟨(stopConsumer app lookup).1, []⟩ := rfl

end

/-- The configuration that an update past its stop step is going to publish. -/
def InFlight.coming : InFlight → Option AppConfig
  | .updateStopped plan | .updateSaved plan | .updateSecured plan => some plan.final
  | _ => none

/-- The configuration that an update has saved and not yet published. -/
def InFlight.saved : InFlight → Option AppConfig
  | .updateSaved plan | .updateSecured plan => some plan.final
  | _ => none

def InFlight.unsaved : InFlight → Option UpdatePlan
  | .updatePlanned plan | .updateRead plan _ | .updateStopped plan => some plan
  | _ => none

/-- The configurations that running routes are to be in step with: the current one, and those of the
updates that have stopped their stale routes. -/
def System.inForce (system : System) : List AppConfig := system.app.config :: system.calls.filterMap InFlight.coming

/-- The update saves its configuration where it is read, and all of it. -/
structure SavesAll (reader : FileReader) (services : Services) (plan : UpdatePlan) : Prop where
  path : services.configFilePath = reader.path
  names : plan.NamesTrimmed
  secrets : extractsSecrets plan.final.securityMode = true →
    (plan.final.extractSecretValues services.storage.bridge).1 = plan.final
  trips : RoundTrips services.storage reader.crates reader.formats reader.cipher reader.source reader.path plan.final

section
variable (reader : FileReader)

/-- Nothing that the step relies on has changed since the call read or wrote it. -/
def InFlight.Meets (services : Services) (system : System) : InFlight → Prop
  | .updateRead plan old =>
    old.consumers = system.app.config.consumers ∧ PublishersKept old.consumers plan system.app.handles
  | .updateStopped plan => SavesAll reader services plan
  | .updateSecured plan => FileHolds reader plan.final system.app.file
  | .startRead consumer publishers =>
    StartsRoute consumer system.app.handles → ∀ config ∈ system.inForce, Serves config consumer publishers
  | _ => True

def Action.Meets (system : System) : Action → Prop
  | .enter services (.update new) => services.storage.ids.Fresh new.entityIds
  | .resume services index => ∀ call, system.calls[index]? = some call → call.Meets reader services system
  | _ => True

/-- Running routes are in step with every configuration in force, the file holds the current
configuration or one that is about to be published, and updates have plans that are not saved before. -/
structure Consistent (system : System) : Prop where
  routes : ∀ config ∈ system.inForce, HandlesInSync config system.app.handles
  file : ∃ config, FileHolds reader config system.app.file ∧
    (config = system.app.config ∨ ∃ call ∈ system.calls, call.saved = some config)
  plans : ∀ call ∈ system.calls, ∀ plan, call.unsaved = some plan → plan.Fresh

/-! ### One step -/

variable {reader} {services : Services} {system after : System}

theorem mem_inForce {config : AppConfig} :
    config ∈ system.inForce ↔ config = system.app.config ∨ ∃ call ∈ system.calls, call.coming = some config := by
  simp [System.inForce]

/-- A call that was entered changes nothing yet. -/
structure Entered (call : InFlight) : Prop where
  coming : call.coming = none
  plan : ∀ plan, call.unsaved = some plan → plan.Fresh

theorem enter_cases {app : UiApp} {request : Request} {call : InFlight}
    (meets : (Action.enter services request).Meets reader system) (entered : app.enter services request = some call) :
    Entered call := by
  cases request with
  | update new =>
    obtain ⟨plan, planned, rfl⟩ := Option.map_eq_some_iff.mp entered
    obtain ⟨config, consumers⟩ := planUpdate_ok (Fallible.toOption_eq_some.mp planned)
    refine ⟨rfl, fun plan' same => ?_⟩
    obtain rfl := Option.some.inj same
    exact ⟨_, new, meets, config, consumers⟩
  | start lookup =>
    obtain ⟨consumer, -, rfl⟩ := Option.map_eq_some_iff.mp entered
    exact ⟨rfl, fun _ gone => by cases gone⟩
  | stop lookup =>
    obtain rfl := Option.some.inj entered
    exact ⟨rfl, fun _ gone => by cases gone⟩

theorem consistent_enter {request : Request} (consistent : Consistent reader system)
    (meets : (Action.enter services request).Meets reader system)
    (stepped : system.act (.enter services request) = some after) : Consistent reader after := by
  obtain ⟨call, entered, rfl⟩ := Option.map_eq_some_iff.mp stepped
  have quiet := enter_cases meets entered
  constructor
  · intro config inForce
    apply consistent.routes
    rcases mem_inForce.mp inForce with rfl | ⟨other, member, coming⟩
    · exact mem_inForce.mpr (.inl rfl)
    · rcases List.mem_cons.mp member with rfl | member
      · simp [quiet.coming] at coming
      · exact mem_inForce.mpr (.inr ⟨other, member, coming⟩)
  · obtain ⟨config, holds, which⟩ := consistent.file
    refine ⟨config, holds, which.imp_right ?_⟩
    rintro ⟨other, member, saved⟩
    exact ⟨other, List.mem_cons_of_mem _ member, saved⟩
  · intro other member
    rcases List.mem_cons.mp member with rfl | member
    · exact quiet.plan
    · exact consistent.plans other member

/-- Everything that resuming a call changes of the calls in flight. -/
structure Resumed (system after : System) (call : InFlight) (next : Option InFlight) : Prop where
  from_ : ∀ other ∈ after.calls, other ∈ system.calls ∨ next = some other
  rest : ∀ other ∈ system.calls, other = call ∨ other ∈ after.calls
  next : ∀ other, next = some other → other ∈ after.calls

theorem resume_cases {index : Nat} (stepped : system.act (.resume services index) = some after) :
    ∃ call app next, system.calls[index]? = some call ∧ system.app.resume services call = some (app, next) ∧
      after.app = app ∧ Resumed system after call next := by
  simp only [System.act, Option.bind_eq_bind, Option.bind_eq_some_iff, Option.some.injEq] at stepped
  obtain ⟨call, here, ⟨app, next⟩, resumed, rfl⟩ := stepped
  refine ⟨call, app, next, here, resumed, rfl, ?_, ?_, ?_⟩
  · intro other member
    simp only [List.mem_append, Option.mem_toList] at member
    rcases member with before | new | later
    · exact .inl (List.mem_of_mem_take before)
    · exact .inr new
    · exact .inl (List.mem_of_mem_drop later)
  · intro other member
    obtain ⟨bound, rfl⟩ := List.getElem?_eq_some_iff.mp here
    rw [← List.take_append_drop index system.calls, ← List.getElem_cons_drop bound] at member
    simp only [List.mem_append, List.mem_cons] at member ⊢
    rcases member with before | same | later
    · exact .inr (.inl before)
    · exact .inl same
    · exact .inr (.inr (.inr later))
  · rintro other rfl
    simp

theorem Resumed.routes {call : InFlight} {next : Option InFlight} (resumed : Resumed system after call next)
    (current : HandlesInSync after.app.config after.app.handles)
    (others : ∀ config ∈ system.inForce, HandlesInSync config after.app.handles)
    (own : ∀ other config, next = some other → other.coming = some config → HandlesInSync config after.app.handles) :
    ∀ config ∈ after.inForce, HandlesInSync config after.app.handles := by
  intro config inForce
  rcases mem_inForce.mp inForce with rfl | ⟨other, member, coming⟩
  · exact current
  · rcases resumed.from_ other member with before | new
    · exact others config (mem_inForce.mpr (.inr ⟨other, before, coming⟩))
    · exact own other config new coming

theorem Resumed.file {call : InFlight} {next : Option InFlight} (resumed : Resumed system after call next)
    (consistent : Consistent reader system) (same : after.app.file = system.app.file)
    (config : after.app.config = system.app.config)
    (saved : ∀ config, call.saved = some config → ∃ other, next = some other ∧ other.saved = some config) :
    ∃ config, FileHolds reader config after.app.file ∧
      (config = after.app.config ∨ ∃ other ∈ after.calls, other.saved = some config) := by
  obtain ⟨held, holds, which⟩ := consistent.file
  refine ⟨held, same ▸ holds, ?_⟩
  rcases which with current | ⟨other, member, itsOwn⟩
  · exact .inl (current.trans config.symm)
  · rcases resumed.rest other member with rfl | stays
    · obtain ⟨other', next, kept⟩ := saved held itsOwn
      exact .inr ⟨other', resumed.next other' next, kept⟩
    · exact .inr ⟨other, stays, itsOwn⟩

theorem Resumed.plans {call : InFlight} {next : Option InFlight} (resumed : Resumed system after call next)
    (consistent : Consistent reader system) (here : call ∈ system.calls)
    (own : ∀ other plan, next = some other → other.unsaved = some plan → call.unsaved = some plan) :
    ∀ other ∈ after.calls, ∀ plan, other.unsaved = some plan → plan.Fresh := by
  intro other member plan unsaved
  rcases resumed.from_ other member with before | new
  · exact consistent.plans other before plan unsaved
  · exact consistent.plans call here plan (own other plan new unsaved)

theorem commitUpdate_ok {plan : UpdatePlan} {file file' : Option Text}
    (committed : commitUpdate services plan file = (file', .ok ())) :
    plan.final.saveWithSecretStore services.storage services.configFilePath file = (file', .ok ()) := by
  unfold commitUpdate at committed
  split at committed
  · simp at committed
  · split at committed
    · next saved =>
      obtain ⟨rfl, -⟩ := Prod.mk.inj committed
      exact saved
    · simp at committed

theorem SavesAll.holds {plan : UpdatePlan} {file after : Option Text} (saves : SavesAll reader services plan)
    (fresh : plan.Fresh) (committed : commitUpdate services plan file = (after, .ok ())) :
    FileHolds reader plan.final after := by
  have saved := commitUpdate_ok committed
  rw [saves.path] at saved
  exact holds_of_save (fresh.savedWhole saves.names saves.secrets) saves.trips saved

theorem consistent_resume {index : Nat} (consistent : Consistent reader system)
    (meets : (Action.resume services index).Meets reader system)
    (stepped : system.act (.resume services index) = some after) : Consistent reader after := by
  obtain ⟨call, app, next, here, moved, same, resumed⟩ := resume_cases stepped
  obtain ⟨app', calls⟩ := after
  obtain rfl : app' = app := same
  have meets := meets call here
  have member := List.mem_of_getElem? here
  have current := consistent.routes system.app.config (mem_inForce.mpr (.inl rfl))
  have own : ∀ config, call.coming = some config → HandlesInSync config system.app.handles :=
    fun config coming => consistent.routes config (mem_inForce.mpr (.inr ⟨call, member, coming⟩))
  cases call with
  | updatePlanned plan =>
    simp only [UiApp.resume, Option.some.injEq, Prod.mk.injEq] at moved
    obtain ⟨rfl, rfl⟩ := moved
    refine ⟨resumed.routes current consistent.routes ?_, resumed.file consistent rfl rfl nofun,
      resumed.plans consistent member ?_⟩
    · intro other config next coming
      obtain rfl := Option.some.inj next
      cases coming
    · intro other plan next unsaved
      obtain rfl := Option.some.inj next
      exact unsaved
  | updateRead plan old =>
    simp only [UiApp.resume, Option.some.injEq, Prod.mk.injEq] at moved
    obtain ⟨rfl, rfl⟩ := moved
    obtain ⟨unchanged, publishers⟩ := meets
    have fewer : stopStale old.consumers plan.consumers system.app.handles ⊆ system.app.handles :=
      List.filter_subset_self _
    refine ⟨resumed.routes (current.subset fewer)
      (fun config inForce => (consistent.routes config inForce).subset fewer) ?_,
      resumed.file consistent rfl rfl nofun, resumed.plans consistent member ?_⟩
    · intro other config next coming
      obtain rfl := Option.some.inj next
      obtain rfl := Option.some.inj coming
      rw [unchanged] at publishers ⊢
      exact (stopStale_inSync_iff current).mpr publishers
    · intro other plan next unsaved
      obtain rfl := Option.some.inj next
      exact unsaved
  | updateStopped plan =>
    unfold UiApp.resume at moved
    dsimp only at moved
    split at moved
    · next file committed =>
      obtain ⟨rfl, rfl⟩ := Prod.mk.inj (Option.some.inj moved)
      have fresh := consistent.plans _ member plan rfl
      refine ⟨resumed.routes current consistent.routes ?_,
        ⟨plan.final, SavesAll.holds meets fresh committed, .inr ⟨_, resumed.next _ rfl, rfl⟩⟩,
        resumed.plans consistent member ?_⟩
      · intro other config next coming
        obtain rfl := Option.some.inj next
        exact own config coming
      · intro other plan next unsaved
        obtain rfl := Option.some.inj next
        cases unsaved
    · cases moved
  | updateSaved plan =>
    simp only [UiApp.resume, Option.some.injEq, Prod.mk.injEq] at moved
    obtain ⟨rfl, rfl⟩ := moved
    refine ⟨resumed.routes current consistent.routes ?_,
      resumed.file consistent rfl rfl fun config saved => ⟨_, rfl, saved⟩, resumed.plans consistent member ?_⟩
    · intro other config next coming
      obtain rfl := Option.some.inj next
      exact own config coming
    · intro other plan next unsaved
      obtain rfl := Option.some.inj next
      cases unsaved
  | updateSecured plan =>
    simp only [UiApp.resume, Option.some.injEq, Prod.mk.injEq] at moved
    obtain ⟨rfl, rfl⟩ := moved
    exact ⟨resumed.routes (own plan.final rfl) consistent.routes (fun _ _ gone => by cases gone),
      ⟨plan.final, meets, .inl rfl⟩, resumed.plans consistent member (fun _ _ gone => by cases gone)⟩
  | startRead consumer publishers =>
    simp only [UiApp.resume, Option.some.injEq, Prod.mk.injEq] at moved
    obtain ⟨rfl, rfl⟩ := moved
    have synced : ∀ config ∈ system.inForce,
        HandlesInSync config (startUiCollectorRoute services consumer publishers system.app.handles).1 := by
      intro config inForce
      apply startUiCollectorRoute_inSync (consistent.routes config inForce)
      exact fun starts => meets starts config inForce
    have now := synced system.app.config (mem_inForce.mpr (.inl rfl))
    exact ⟨resumed.routes now synced (fun _ _ gone => by cases gone), resumed.file consistent rfl rfl nofun,
      resumed.plans consistent member (fun _ _ gone => by cases gone)⟩
  | stopRead key =>
    simp only [UiApp.resume, Option.some.injEq, Prod.mk.injEq] at moved
    obtain ⟨rfl, rfl⟩ := moved
    have fewer : (system.app.handles.filter fun handle => handle.1 != key) ⊆ system.app.handles :=
      List.filter_subset_self _
    exact ⟨resumed.routes (current.subset fewer)
      (fun config inForce => (consistent.routes config inForce).subset fewer) (fun _ _ gone => by cases gone),
      resumed.file consistent rfl rfl nofun, resumed.plans consistent member (fun _ _ gone => by cases gone)⟩

theorem consistent_act {action : Action} (consistent : Consistent reader system)
    (meets : action.Meets reader system) (stepped : system.act action = some after) : Consistent reader after := by
  cases action with
  | enter services request => exact consistent_enter consistent meets stepped
  | resume services index => exact consistent_resume consistent meets stepped
  | ended key =>
    obtain rfl := Option.some.inj stepped
    exact ⟨fun config inForce => endRoute_inSync key (consistent.routes config inForce), consistent.file, consistent.plans⟩

end

/-- Once all calls of a careful run have returned, the file holds the configuration and every running
route is in step with it. -/
theorem quiet_consistent (reader : FileReader) (app : UiApp) (actions : List Action) (after : System)
    (synced : InSync app) (saved : FileHolds reader app.config app.file)
    (careful : Steps.Careful System.act (Action.Meets reader) ⟨app, []⟩ actions)
    (played : Steps.play System.act ⟨app, []⟩ actions = some after) (quiet : after.calls = []) :
    FileHolds reader after.app.config after.app.file ∧ InSync after.app := by
  have initial : Consistent reader ⟨app, []⟩ := by
    refine ⟨?_, ⟨app.config, saved, .inl rfl⟩, fun _ member => absurd member List.not_mem_nil⟩
    intro config inForce
    obtain rfl := List.mem_singleton.mp inForce
    exact synced
  obtain ⟨routes, ⟨config, holds, which⟩, -⟩ := Steps.play_invariant consistent_act initial careful played
  refine ⟨?_, routes _ (mem_inForce.mpr (.inl rfl))⟩
  rcases which with rfl | ⟨call, member, -⟩
  · exact holds
  · rw [quiet] at member
    cases member

/-! ### A careful run and a careless one -/

def servedTopics : List Text := ["orders", "audit", "archive", "backup"]

def topicDocument (topic : Text) : Json := stripNulls (topicEndpoint topic).toData.toValue

def forwardingDocument (topic : Text) : Json := stripNulls (forwardingConfig topic).toValue

/-- A reader of plain files that forward to one of the topics. -/
def topicReader : FileReader where
  crates :=
    { plainCrates (fun _ text => text) (servedTopics.map forwardingDocument) with
      endpoint := fun document =>
        (servedTopics.find? fun topic => document.same (topicDocument topic)).map topicEndpoint }
  formats := ⟨fun _ _ => none, fun _ _ => none, fun _ => false⟩
  cipher := noCipher
  source := ⟨none, none⟩
  path := "config.json"

def savingServices : Services := { workingServices with storage := plainStorage, configFilePath := "config.json" }

theorem forwarding_distinct : ∀ topic ∈ servedTopics, (forwardingDocument topic).Distinct := by decide +kernel

theorem forwarding_parsed : ∀ topic ∈ servedTopics,
    plainParse (servedTopics.map forwardingDocument) (prettyAt 0 (forwardingDocument topic)) =
      some (forwardingDocument topic) := by
  decide +kernel

theorem topicReader_endpoint {topic : Text} (served : topic ∈ servedTopics) (document : Json)
    (shown : Shows document (topicEndpoint topic).toData) :
    ∃ read, topicReader.crates.endpoint document = some read ∧ SameDocuments read.toData (topicEndpoint topic).toData := by
  have found : (servedTopics.find? fun topic => document.same (topicDocument topic)).isSome = true :=
    List.find?_isSome.mpr ⟨topic, served, shown.2⟩
  obtain ⟨read, first⟩ := Option.isSome_iff_exists.mp found
  have same : document.same (topicDocument read) = true :=
    List.find?_some (p := fun topic => document.same (topicDocument topic)) first
  exact ⟨topicEndpoint read, congrArg (Option.map topicEndpoint) first, .of_shown ⟨shown.1, same⟩ shown⟩

theorem topicReader_readsBack {topic : Text} (served : topic ∈ servedTopics) :
    topicReader.crates.ReadsBack (forwardingConfig topic) where
  endpoint endpoint member := by
    have which : endpoint ∈ [topicEndpoint "orders", topicEndpoint topic] := member
    simp only [List.mem_cons, List.not_mem_nil, or_false] at which
    rcases which with rfl | rfl
    · exact topicReader_endpoint (by decide)
    · exact topicReader_endpoint served
  options consumer member entries shown := by
    obtain rfl := List.mem_singleton.mp (show consumer ∈ [_] from member)
    exact if_pos shown.2

theorem topicReader_build {topic : Text} (served : topic ∈ servedTopics) :
    topicReader.crates.build settingDefaults (some (.json, prettyAt 0 (forwardingDocument topic))) =
      some (forwardingDocument topic) := by
  unfold topicReader
  dsimp only
  exact plainCrates_build_of _ (forwarding_parsed topic served) _

theorem forwarding_trips {topic : Text} (served : topic ∈ servedTopics) :
    RoundTrips plainStorage topicReader.crates topicReader.formats noCipher ⟨none, none⟩ "config.json"
      (forwardingConfig topic) where
  laws :=
    have laws := plainCrates_lawful (fun _ text => text) (servedTopics.map forwardingDocument)
    ⟨laws.string, laws.bool, laws.nat, laws.int, laws.items, laws.table, laws.fields⟩
  readsBack := topicReader_readsBack served
  build plaintext serialized := by
    obtain rfl : prettyAt 0 (forwardingDocument topic) = plaintext := Except.ok.inj serialized
    rw [json_path]
    have distinct := forwarding_distinct topic served
    exact ⟨forwardingDocument topic, topicReader_build served, distinct, Json.same_refl distinct⟩
  plain _ _ _ read := absurd read (Option.not_mem_none _)
  sealer encrypted := absurd encrypted Bool.false_ne_true

def forwardingPlan (topic : Text) : UpdatePlan := ⟨forwardingConfig topic, [forwardingConsumer]⟩

theorem forwarding_saves {topic : Text} (served : topic ∈ servedTopics) :
    SavesAll topicReader savingServices (forwardingPlan topic) where
  path := rfl
  names publisher member := by
    obtain rfl := List.mem_singleton.mp (show publisher ∈ [_] from member)
    exact (by decide : trim ("sink" : Text) = "sink")
  secrets extracts := absurd extracts Bool.false_ne_true
  trips := forwarding_trips served

def forwardingFile (topic : Text) : Option Text := some (prettyAt 0 (forwardingDocument topic))

def forwardingSaved : UiApp := { forwardingApp with file := forwardingFile "audit" }

theorem forwardingFile_holds {topic : Text} (served : topic ∈ servedTopics) :
    FileHolds topicReader (forwardingConfig topic) (forwardingFile topic) := by
  have fresh : (forwardingPlan topic).Fresh := ⟨tallyIds, forwardingConfig topic, tallyIds_fresh rfl, rfl, rfl⟩
  have committed : commitUpdate savingServices (forwardingPlan topic) none = (forwardingFile topic, .ok ()) := rfl
  exact (forwarding_saves served).holds fresh committed

def stoppedDuringUpdate : List Action :=
  [.enter savingServices (.start "c1"), .resume savingServices 0,
    .enter savingServices (.update (forwardingConfig "audit")), .enter savingServices (.stop "c1"),
    .resume savingServices 1, .resume savingServices 0, .resume savingServices 0, .resume savingServices 0,
    .resume savingServices 0, .resume savingServices 0]

theorem careful_resume {reader : FileReader} {services : Services} {system next : System} {index : Nat}
    {call : InFlight} {rest : List Action} (here : system.calls[index]? = some call)
    (stepped : system.act (.resume services index) = some next) (meets : call.Meets reader services system)
    (careful : Steps.Careful System.act (Action.Meets reader) next rest) :
    Steps.Careful System.act (Action.Meets reader) system (.resume services index :: rest) := by
  refine (Steps.careful_cons stepped).mpr ⟨fun call' here' => ?_, careful⟩
  obtain rfl := Option.some.inj (here.symm.trans here')
  exact meets

theorem stoppedDuringUpdate_careful :
    Steps.Careful System.act (Action.Meets topicReader) ⟨forwardingSaved, []⟩ stoppedDuringUpdate := by
  have serves : Serves forwardingSaved.config forwardingConsumer forwardingSaved.config.publishers :=
    ⟨_, rfl, by decide, fun _ _ _ publisher found => ⟨publisher, found, Json.Agree.refl _⟩⟩
  refine (Steps.careful_cons rfl).mpr ⟨trivial, careful_resume rfl rfl ?start ?_⟩
  case start =>
    intro _ config inForce
    obtain rfl := List.mem_singleton.mp inForce
    exact serves
  refine (Steps.careful_cons rfl).mpr ⟨tallyIds_fresh rfl, (Steps.careful_cons rfl).mpr ⟨trivial, ?_⟩⟩
  refine careful_resume rfl rfl trivial (careful_resume rfl rfl trivial ?_)
  refine careful_resume rfl rfl ?stop ?_
  case stop => exact ⟨rfl, fun _ member => absurd member List.not_mem_nil⟩
  refine careful_resume rfl rfl (forwarding_saves (by decide)) (careful_resume rfl rfl trivial ?_)
  exact careful_resume rfl rfl (forwardingFile_holds (by decide)) trivial

theorem quiet_consistent_stopped :
    ∃ after, Steps.play System.act ⟨forwardingSaved, []⟩ stoppedDuringUpdate = some after ∧ after.calls = [] ∧
      FileHolds topicReader after.app.config after.app.file ∧ InSync after.app :=
  ⟨_, rfl, rfl, quiet_consistent topicReader forwardingSaved stoppedDuringUpdate _
    (fun _ member => absurd member List.not_mem_nil) (forwardingFile_holds (by decide)) stoppedDuringUpdate_careful rfl rfl⟩

def crossedUpdates : List Action :=
  [.enter savingServices (.update (forwardingConfig "archive")),
    .enter savingServices (.update (forwardingConfig "backup")), .resume savingServices 0, .resume savingServices 1,
    .resume savingServices 0, .resume savingServices 1, .resume savingServices 1, .resume savingServices 0,
    .resume savingServices 0, .resume savingServices 0, .resume savingServices 0, .resume savingServices 0]

theorem crossed_updates_leave_another_file :
    FileHolds topicReader forwardingSaved.config forwardingSaved.file ∧ InSync forwardingSaved ∧
      ∃ after, Steps.play System.act ⟨forwardingSaved, []⟩ crossedUpdates = some after ∧ after.calls = [] ∧
        ¬ FileHolds topicReader after.app.config after.app.file := by
  refine ⟨forwardingFile_holds (by decide), fun _ member => absurd member List.not_mem_nil, ⟨_, rfl, rfl, ?_⟩⟩
  intro published
  have published : FileHolds topicReader (forwardingConfig "archive") (forwardingFile "backup") := published
  obtain ⟨loaded, archive, backup⟩ := published.alike (forwardingFile_holds (by decide)) tallyIds
  obtain ⟨publisher, member, same⟩ := Lists.exists_of_forall₂ archive.publishers.flip List.mem_cons_self
  obtain ⟨other, member', same'⟩ := Lists.exists_of_forall₂ backup.publishers member
  obtain rfl := List.mem_singleton.mp (show other ∈ [_] from member')
  have shown : Shows (topicDocument "archive") (topicEndpoint "backup").toData :=
    (same.endpoint.symm.trans same'.endpoint _).mp ⟨by decide +kernel, by decide +kernel⟩
  exact absurd shown.2 (by decide +kernel)

end MqBridge.Ui
