import MqBridgeApp.Lib.Steps
import MqBridgeApp.Ui.Interleaving

/-!
# Live routes

A started route runs until it ends or its handle is stopped, whether or not a handle to it is kept. A route
that no handle leads to would keep its source for good.
-/

namespace MqBridge.Ui
open Text Config

structure CollectorHandle where
  route : Route
  id : Nat

structure CollectorRoute where
  key : Text
  id : Nat

/-- The application, and the routes that run among all it has started. -/
structure LiveApp where
  config : AppConfig
  handles : List (Text × CollectorHandle) := []
  file : Option Text
  storageSecurity : Json
  live : List CollectorRoute := []
  started : Nat := 0

inductive LiveCall where
  | one (call : InFlight)
  /-- `start_configured_consumers`, with the consumers that are still to start. -/
  | startAll (entries : List (ConsumerConfig × List PublisherClient))

inductive LiveRequest where
  | one (request : Request)
  | startAll

structure LiveSystem where
  app : LiveApp
  calls : List LiveCall := []

/-- Each step of a call names what it relies on outside, so that the same call may fail once and work later. -/
inductive LiveAction where
  | enter (services : Services) (request : LiveRequest)
  | resume (services : Services) (index : Nat)
  | ended (id : Nat)

namespace LiveApp

/-- A handle has no outcome as long as its route is live. -/
def isLive (app : LiveApp) (handle : CollectorHandle) : Bool := app.live.any fun route => route.id == handle.id

def view (app : LiveApp) : UiApp where
  config := app.config
  handles := app.handles.map fun handle => (handle.1, ⟨handle.2.route, !app.isLive handle.2⟩)
  file := app.file
  storageSecurity := app.storageSecurity

/-- The state after a call of `run` that succeeds: the route is live and its handle replaces the one before. -/
def insertRoute (app : LiveApp) (key : Text) (route : Route) : LiveApp :=
  { app with
    handles := Assoc.insert app.handles (key, ⟨route, app.started⟩)
    live := app.live ++ [⟨key, app.started⟩]
    started := app.started + 1 }

def startUiCollectorRoute (services : Services) (app : LiveApp) (consumer : ConsumerConfig)
    (publishers : List PublisherClient) : LiveApp :=
  if EndpointType.isNull consumer.endpoint.endpointType then app
  else
    let key := consumerRuntimeKey consumer
    if (app.handles.lookup key).any app.isLive then app
    else
      match collectorRoute services.typeName consumer publishers with
      | .error _ => app
      | .ok route =>
        match services.runRoute route key with
        | .error _ => app
        | .ok () => app.insertRoute key route

/-- Removes the handles under the keys to stop and stops the routes behind them. -/
def stopHandles (app : LiveApp) (stops : Text → Bool) : LiveApp :=
  { app with
    handles := app.handles.filter fun handle => !stops handle.1
    live := app.live.filter fun route =>
      !app.handles.any fun handle => stops handle.1 && handle.2.id == route.id }

def stopConsumer (app : LiveApp) (lookup : Text) : LiveApp :=
  app.stopHandles fun key => key == stopKey app.config lookup

def endRoute (app : LiveApp) (id : Nat) : LiveApp :=
  { app with live := app.live.filter fun route => route.id != id }

def enter (services : Services) (app : LiveApp) : LiveRequest → Option LiveCall
  | .one request => (app.view.enter services request).map .one
  | .startAll =>
    some (.startAll ((app.config.consumers.filter fun consumer => consumer.enabled).map
      fun consumer => (consumer, app.config.publishers)))

/-- The next step of a call. The lock on the handles is held for the whole of a step that starts or stops
routes. -/
def resume (services : Services) (app : LiveApp) : LiveCall → LiveApp × Option LiveCall
  | .one (.updatePlanned plan) => (app, some (.one (.updateRead plan app.config)))
  | .one (.updateRead plan old) =>
    (app.stopHandles (shouldStop old.consumers plan.consumers), some (.one (.updateStopped plan)))
  | .one (.updateStopped plan) =>
    match commitUpdate services plan app.file with
    | (file, .ok ()) => ({ app with file }, some (.one (.updateSaved plan)))
    | (file, .error _) => ({ app with file }, none)
  | .one (.updateSaved plan) =>
    ({ app with storageSecurity := plan.storageSecurity services app.storageSecurity },
      some (.one (.updateSecured plan)))
  | .one (.updateSecured plan) => ({ app with config := plan.final }, none)
  | .one (.startRead consumer publishers) => (app.startUiCollectorRoute services consumer publishers, none)
  | .one (.stopRead key) => (app.stopHandles fun other => other == key, none)
  | .startAll [] => (app, none)
  -- A consumer that does not start is logged and skipped.
  | .startAll ((consumer, publishers) :: rest) =>
    (app.startUiCollectorRoute services consumer publishers, some (.startAll rest))

end LiveApp

def LiveSystem.act (system : LiveSystem) : LiveAction → Option LiveSystem
  | .enter services request =>
    (system.app.enter services request).map fun call => { system with calls := call :: system.calls }
  | .resume services index =>
    (system.calls[index]?).map fun call =>
      let moved := system.app.resume services call
      { app := moved.1, calls := system.calls.take index ++ (moved.2.toList ++ system.calls.drop (index + 1)) }
  | .ended id => some { system with app := system.app.endRoute id }

/-! ### Every live route is tracked -/

/-- Every live route is behind the handle under its key, and no two handles lead to the same route. -/
structure Tracked (app : LiveApp) : Prop where
  held : ∀ route ∈ app.live, ∃ handle, app.handles.lookup route.key = some handle ∧ handle.id = route.id
  fresh : ∀ handle ∈ app.handles, handle.2.id < app.started
  handleIds : (app.handles.map fun handle => handle.2.id).Nodup
  keys : (app.handles.map Prod.fst).Nodup
  ids : (app.live.map CollectorRoute.id).Nodup

namespace Tracked
variable {app : LiveApp} {route : CollectorRoute} {key : Text} {handle : CollectorHandle}

theorem id_lt (tracked : Tracked app) (member : route ∈ app.live) : route.id < app.started := by
  obtain ⟨handle, found, same⟩ := tracked.held route member
  have bound := tracked.fresh _ (Assoc.mem_of_lookup found)
  dsimp only at bound
  omega

theorem isLive_of_held (member : route ∈ app.live) (same : handle.id = route.id) : app.isLive handle = true :=
  List.any_eq_true.mpr ⟨route, member, beq_iff_eq.mpr same.symm⟩

theorem stopHandles (tracked : Tracked app) (stops : Text → Bool) : Tracked (app.stopHandles stops) := by
  constructor
  · intro route member
    obtain ⟨live, spared⟩ := List.mem_filter.mp member
    obtain ⟨handle, found, same⟩ := tracked.held route live
    refine ⟨handle, ?_, same⟩
    show (app.handles.filter fun handle => !stops handle.1).lookup route.key = some handle
    rw [Assoc.lookup_filter app.handles (fun key => !stops key)]
    cases stopped : stops route.key with
    | false => exact found
    | true =>
      have behind : (app.handles.any fun handle => stops handle.1 && handle.2.id == route.id) = true := by
        apply List.any_eq_true.mpr
        exact ⟨_, Assoc.mem_of_lookup found, by simp [stopped, same]⟩
      rw [behind] at spared
      cases spared
  · intro handle member
    apply tracked.fresh
    exact List.mem_of_mem_filter member
  · exact tracked.handleIds.sublist (List.filter_sublist.map _)
  · exact tracked.keys.sublist (List.filter_sublist.map _)
  · exact tracked.ids.sublist (List.filter_sublist.map _)

theorem endRoute (tracked : Tracked app) (id : Nat) : Tracked (app.endRoute id) := by
  refine ⟨?_, tracked.fresh, tracked.handleIds, tracked.keys, ?_⟩
  · intro route member
    apply tracked.held
    exact List.mem_of_mem_filter member
  · exact tracked.ids.sublist (List.filter_sublist.map _)

theorem nodup_snoc {ids : List Nat} {next : Nat} (distinct : ids.Nodup) (below : ∀ id ∈ ids, id < next) :
    (ids ++ [next]).Nodup := by
  rw [List.nodup_append]
  refine ⟨distinct, List.nodup_singleton _, ?_⟩
  intro id before id' new
  obtain rfl := List.mem_singleton.mp new
  have bound := below id before
  omega

theorem insertRoute (tracked : Tracked app) (free : (app.handles.lookup key).any app.isLive = false)
    (started : Route) : Tracked (app.insertRoute key started) := by
  constructor
  · intro live member
    show ∃ handle, (Assoc.insert app.handles (key, ⟨started, app.started⟩)).lookup live.key = some handle ∧
      handle.id = live.id
    rw [Assoc.lookup_insert]
    rcases List.mem_append.mp member with before | new
    · obtain ⟨handle, found, same⟩ := tracked.held live before
      -- The key was free, so a route that was live before is under another one.
      have other : ¬ (live.key == key) = true := by
        intro equal
        rw [← eq_of_beq equal, found, Option.any_some, isLive_of_held before same] at free
        cases free
      rw [if_neg other]
      exact ⟨handle, found, same⟩
    · obtain rfl := List.mem_singleton.mp new
      rw [if_pos (beq_self_eq_true key)]
      exact ⟨_, rfl, rfl⟩
  · intro handle member
    show handle.2.id < app.started + 1
    rcases List.mem_append.mp member with before | new
    · have bound := tracked.fresh handle (List.mem_of_mem_filter before)
      omega
    · obtain rfl := List.mem_singleton.mp new
      exact Nat.lt_succ_self _
  · unfold LiveApp.insertRoute Assoc.insert
    rw [List.map_append]
    apply nodup_snoc (tracked.handleIds.sublist (List.filter_sublist.map _))
    intro id before
    obtain ⟨handle, member, rfl⟩ := List.mem_map.mp before
    exact tracked.fresh handle (List.mem_of_mem_filter member)
  · exact Assoc.nodup_insert tracked.keys
  · unfold LiveApp.insertRoute
    rw [List.map_append]
    apply nodup_snoc tracked.ids
    intro id before
    obtain ⟨route, member, rfl⟩ := List.mem_map.mp before
    exact tracked.id_lt member

theorem startUiCollectorRoute (tracked : Tracked app) (services : Services) (consumer : ConsumerConfig)
    (publishers : List PublisherClient) : Tracked (app.startUiCollectorRoute services consumer publishers) := by
  unfold LiveApp.startUiCollectorRoute
  split
  · exact tracked
  dsimp only
  split
  · exact tracked
  · next free =>
    split
    · exact tracked
    · split
      · exact tracked
      · exact tracked.insertRoute (Bool.eq_false_iff.mpr free) _

theorem resume (tracked : Tracked app) (services : Services) (call : LiveCall) :
    Tracked (app.resume services call).1 := by
  cases call with
  | one call =>
    cases call with
    | updatePlanned plan => exact tracked
    | updateRead plan old => exact tracked.stopHandles _
    | updateStopped plan =>
      unfold LiveApp.resume
      dsimp only
      split <;> exact ⟨tracked.held, tracked.fresh, tracked.handleIds, tracked.keys, tracked.ids⟩
    | updateSaved plan => exact ⟨tracked.held, tracked.fresh, tracked.handleIds, tracked.keys, tracked.ids⟩
    | updateSecured plan => exact ⟨tracked.held, tracked.fresh, tracked.handleIds, tracked.keys, tracked.ids⟩
    | startRead consumer publishers => exact tracked.startUiCollectorRoute services consumer publishers
    | stopRead key => exact tracked.stopHandles fun other => other == key
  | startAll entries =>
    cases entries with
    | nil => exact tracked
    | cons entry rest => exact tracked.startUiCollectorRoute services entry.1 entry.2

theorem liveKeys (tracked : Tracked app) : (app.live.map CollectorRoute.key).Nodup := by
  apply List.Nodup.map_on
  · intro route member other member' same
    obtain ⟨handle, found, itsId⟩ := tracked.held route member
    obtain ⟨handle', found', itsId'⟩ := tracked.held other member'
    rw [same, found'] at found
    obtain rfl := Option.some.inj found
    exact List.inj_on_of_nodup_map tracked.ids member member' (itsId.symm.trans itsId')
  · exact tracked.ids.of_map _

theorem stopped (tracked : Tracked app) (member : route ∈ app.live) {stops : Text → Bool}
    (stop : stops route.key = true) : route ∉ (app.stopHandles stops).live := by
  intro still
  obtain ⟨handle, found, same⟩ := tracked.held route member
  have spared := (List.mem_filter.mp still).2
  rw [Bool.not_eq_true', List.any_eq_false] at spared
  apply spared _ (Assoc.mem_of_lookup found)
  rw [stop, same, beq_self_eq_true, Bool.and_self]

end Tracked

/-! ### The application without its routes -/

section
variable {app : LiveApp} {services : Services}

theorem isLive_stopHandles (tracked : Tracked app) {stops : Text → Bool} {handle : Text × CollectorHandle}
    (inside : handle ∈ app.handles) (spared : stops handle.1 = false) :
    (app.stopHandles stops).isLive handle.2 = app.isLive handle.2 := by
  unfold LiveApp.isLive LiveApp.stopHandles
  dsimp only
  rw [Bool.eq_iff_iff, List.any_filter, List.any_eq_true, List.any_eq_true]
  constructor
  · rintro ⟨route, member, both⟩
    exact ⟨route, member, (Bool.and_eq_true_iff.mp both).2⟩
  · rintro ⟨route, member, same⟩
    refine ⟨route, member, Bool.and_eq_true_iff.mpr ⟨?_, same⟩⟩
    rw [Bool.not_eq_true', List.any_eq_false]
    intro other member' behind
    obtain ⟨stopped, itsId⟩ := Bool.and_eq_true_iff.mp behind
    have one := List.inj_on_of_nodup_map tracked.handleIds member' inside
      ((beq_iff_eq.mp itsId).trans (beq_iff_eq.mp same))
    rw [one, spared] at stopped
    cases stopped

theorem view_stopHandles (tracked : Tracked app) (stops : Text → Bool) :
    (app.stopHandles stops).view =
      { app.view with handles := app.view.handles.filter fun handle => !stops handle.1 } := by
  have handles : (app.stopHandles stops).view.handles = app.view.handles.filter fun handle => !stops handle.1 := by
    unfold LiveApp.view
    rw [List.filter_map]
    apply List.map_congr_left
    intro handle kept
    obtain ⟨inside, spared⟩ := List.mem_filter.mp kept
    rw [isLive_stopHandles tracked inside (Bool.not_eq_true' _ ▸ spared)]
  rw [← handles]
  rfl

theorem view_insertRoute (tracked : Tracked app) (key : Text) (route : Route) :
    (app.insertRoute key route).view =
      { app.view with handles := Assoc.insert app.view.handles (key, ⟨route, false⟩) } := by
  have old : ∀ handle ∈ app.handles, (app.insertRoute key route).isLive handle.2 = app.isLive handle.2 := by
    intro handle inside
    have other : (app.started == handle.2.id) = false := by
      have bound := tracked.fresh handle inside
      rw [beq_eq_false_iff_ne]
      omega
    unfold LiveApp.isLive LiveApp.insertRoute
    rw [List.any_append, List.any_cons, other, List.any_nil, Bool.or_false, Bool.or_false]
  have new : (app.insertRoute key route).isLive ⟨route, app.started⟩ = true := by
    unfold LiveApp.isLive LiveApp.insertRoute
    rw [List.any_append, List.any_cons, beq_self_eq_true, Bool.true_or, Bool.or_true]
  have handles : (app.insertRoute key route).view.handles =
      Assoc.insert app.view.handles (key, ⟨route, false⟩) := by
    unfold LiveApp.view Assoc.insert
    dsimp only
    rw [List.filter_map]
    show List.map _ (List.filter _ app.handles ++ [(key, ⟨route, app.started⟩)]) = _
    rw [List.map_append, List.map_singleton, new]
    congr 1
    apply List.map_congr_left
    intro handle kept
    rw [old handle (List.mem_of_mem_filter kept)]
  rw [← handles]
  rfl

theorem lookup_view (app : LiveApp) (key : Text) :
    app.view.handles.lookup key =
      (app.handles.lookup key).map fun handle => ⟨handle.route, !app.isLive handle⟩ :=
  Assoc.lookup_map (fun handle : CollectorHandle => RouteHandle.mk handle.route (!app.isLive handle)) app.handles key

theorem view_startUiCollectorRoute (tracked : Tracked app) (consumer : ConsumerConfig)
    (publishers : List PublisherClient) :
    (app.startUiCollectorRoute services consumer publishers).view =
      { app.view with handles := (startUiCollectorRoute services consumer publishers app.view.handles).1 } := by
  have running : ((app.view.handles.lookup (consumerRuntimeKey consumer)).any fun handle => !handle.ended) =
      (app.handles.lookup (consumerRuntimeKey consumer)).any app.isLive := by
    rw [lookup_view, Option.any_map]
    simp only [Bool.not_not]
  unfold LiveApp.startUiCollectorRoute startUiCollectorRoute
  dsimp only
  rw [running]
  split
  · rfl
  split
  · rfl
  cases collectorRoute services.typeName consumer publishers with
  | error error => rfl
  | ok route =>
    dsimp only
    cases services.runRoute route (consumerRuntimeKey consumer) with
    | error error => rfl
    | ok started => exact view_insertRoute tracked _ _

/-- A step of a call that finds the application as it looks from outside leaves it as that step does. -/
theorem view_resume (tracked : Tracked app) {call : InFlight} {after : UiApp} {next : Option InFlight}
    (moved : app.view.resume services call = some (after, next)) :
    (app.resume services (.one call)).1.view = after ∧ (app.resume services (.one call)).2 = next.map .one := by
  cases call with
  | updatePlanned plan =>
    obtain ⟨rfl, rfl⟩ := Prod.mk.inj (Option.some.inj moved)
    exact ⟨rfl, rfl⟩
  | updateRead plan old =>
    obtain ⟨rfl, rfl⟩ := Prod.mk.inj (Option.some.inj moved)
    exact ⟨view_stopHandles tracked _, rfl⟩
  | updateStopped plan =>
    unfold UiApp.resume at moved
    dsimp only at moved
    split at moved
    · next file committed =>
      obtain ⟨rfl, rfl⟩ := Prod.mk.inj (Option.some.inj moved)
      have committed : commitUpdate services plan app.file = (file, .ok ()) := committed
      unfold LiveApp.resume
      dsimp only
      rw [committed]
      exact ⟨rfl, rfl⟩
    · cases moved
  | updateSaved plan =>
    obtain ⟨rfl, rfl⟩ := Prod.mk.inj (Option.some.inj moved)
    exact ⟨rfl, rfl⟩
  | updateSecured plan =>
    obtain ⟨rfl, rfl⟩ := Prod.mk.inj (Option.some.inj moved)
    exact ⟨rfl, rfl⟩
  | startRead consumer publishers =>
    obtain ⟨rfl, rfl⟩ := Prod.mk.inj (Option.some.inj moved)
    exact ⟨view_startUiCollectorRoute tracked consumer publishers, rfl⟩
  | stopRead key =>
    obtain ⟨rfl, rfl⟩ := Prod.mk.inj (Option.some.inj moved)
    exact ⟨view_stopHandles tracked fun other => other == key, rfl⟩

theorem isLive_endRoute (app : LiveApp) (id : Nat) (handle : CollectorHandle) :
    (app.endRoute id).isLive handle = (app.isLive handle && handle.id != id) := by
  unfold LiveApp.isLive LiveApp.endRoute
  dsimp only
  rw [Bool.eq_iff_iff, List.any_filter, List.any_eq_true, Bool.and_eq_true, List.any_eq_true]
  constructor
  · rintro ⟨route, member, both⟩
    obtain ⟨others, same⟩ := Bool.and_eq_true_iff.mp both
    exact ⟨⟨route, member, same⟩, beq_iff_eq.mp same ▸ others⟩
  · rintro ⟨⟨route, member, same⟩, others⟩
    exact ⟨route, member, Bool.and_eq_true_iff.mpr ⟨(beq_iff_eq.mp same).symm ▸ others, same⟩⟩

theorem view_endRoute (tracked : Tracked app) {route : CollectorRoute} (member : route ∈ app.live) :
    (app.endRoute route.id).view = Ui.endRoute app.view route.key := by
  have handles : (app.endRoute route.id).view.handles = (Ui.endRoute app.view route.key).handles := by
    unfold LiveApp.view Ui.endRoute
    rw [List.map_map]
    apply List.map_congr_left
    intro handle inside
    dsimp only [Function.comp_apply]
    rw [isLive_endRoute]
    obtain ⟨held, found, same⟩ := tracked.held route member
    have behind := Assoc.mem_of_lookup found
    by_cases itsKey : handle.1 = route.key
    · have one := List.inj_on_of_nodup_map tracked.keys inside behind itsKey
      rw [if_pos (beq_iff_eq.mpr itsKey), one, same, bne_self_eq_false, Bool.and_false, Bool.not_false]
    · have others : handle.2.id ≠ route.id := by
        intro itsId
        apply itsKey
        exact congrArg Prod.fst (List.inj_on_of_nodup_map tracked.handleIds inside behind (itsId.trans same.symm))
      rw [if_neg (fun equal => itsKey (eq_of_beq equal)), bne_iff_ne.mpr others, Bool.and_true]
  show _ = ({ app.view with handles := (Ui.endRoute app.view route.key).handles } : UiApp)
  rw [← handles]
  rfl

end

theorem tracked_act {system after : LiveSystem} {action : LiveAction} (tracked : Tracked system.app)
    (stepped : system.act action = some after) : Tracked after.app := by
  cases action with
  | enter services request =>
    obtain ⟨call, -, rfl⟩ := Option.map_eq_some_iff.mp stepped
    exact tracked
  | resume services index =>
    obtain ⟨call, -, rfl⟩ := Option.map_eq_some_iff.mp stepped
    exact tracked.resume services call
  | ended id =>
    obtain rfl := Option.some.inj stepped
    exact tracked.endRoute id

theorem tracked_initial (config : AppConfig) (file : Option Text) (storageSecurity : Json) :
    Tracked { config, file, storageSecurity } :=
  ⟨fun _ member => (nomatch member), fun _ member => (nomatch member), List.nodup_nil, List.nodup_nil, List.nodup_nil⟩

/-- Whatever the calls do, no key has two live routes, and the handle under the key of a live route leads
to that route: a stop of the consumer ends it, and so does an update that drops the consumer. -/
theorem live_routes_held (config : AppConfig) (file : Option Text) (storageSecurity : Json)
    (actions : List LiveAction) (after : LiveSystem)
    (played : Steps.play LiveSystem.act ⟨{ config, file, storageSecurity }, []⟩ actions = some after) :
    (after.app.live.map CollectorRoute.key).Nodup ∧
      ∀ route ∈ after.app.live,
        (∃ handle, after.app.handles.lookup route.key = some handle ∧ handle.id = route.id) ∧
        (∀ lookup, stopKey after.app.config lookup = route.key → route ∉ (after.app.stopConsumer lookup).live) ∧
        ∀ old new, findByKey new route.key = none → route ∉ (after.app.stopHandles (shouldStop old new)).live := by
  have tracked : Tracked after.app :=
    @Steps.play_kept _ _ LiveSystem.act _ _ _ (fun system => Tracked system.app) tracked_act
      (tracked_initial config file storageSecurity) played
  refine ⟨tracked.liveKeys, fun route member => ⟨tracked.held route member, ?_, ?_⟩⟩
  · intro lookup resolved
    apply tracked.stopped member
    exact beq_iff_eq.mpr resolved.symm
  · intro old new dropped
    apply tracked.stopped member
    unfold shouldStop
    rw [dropped]
    cases findByKey old route.key <;> rfl

/-- A second start finds the route live, a third one after its end replaces the handle. -/
def restartedWhenEnded : List LiveAction :=
  [.enter workingServices .startAll, .resume workingServices 0, .enter workingServices (.one (.start "c1")),
    .resume workingServices 0, .ended 0, .enter workingServices (.one (.start "c1")), .resume workingServices 0]

theorem live_routes_held_restarted :
    ∃ after, Steps.play LiveSystem.act
        ⟨{ config := forwardingConfig "audit", file := none, storageSecurity := .null }, []⟩ restartedWhenEnded = some after ∧
      after.app.live.map CollectorRoute.id = [1] ∧ (after.app.live.map CollectorRoute.key).Nodup ∧
      ∀ route ∈ after.app.live,
        (∃ handle, after.app.handles.lookup route.key = some handle ∧ handle.id = route.id) ∧
        (∀ lookup, stopKey after.app.config lookup = route.key → route ∉ (after.app.stopConsumer lookup).live) ∧
        ∀ old new, findByKey new route.key = none → route ∉ (after.app.stopHandles (shouldStop old new)).live :=
  ⟨_, rfl, rfl, live_routes_held (forwardingConfig "audit") none .null restartedWhenEnded _ rfl⟩

end MqBridge.Ui
