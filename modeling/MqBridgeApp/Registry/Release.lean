import MqBridgeApp.Registry.ListRace

/-!
# Releasing a lease

The heartbeat hands its publishes to blocking threads, which an abort of the heartbeat does not stop. A publish
looks at the flag that a release sets and goes on under one lock with it.
-/

namespace MqBridge.Registry
open Text

inductive LockOwner where
  | job (index : Nat)
  | release (index : Nat)
deriving DecidableEq

inductive HeartbeatTask where
  | ticking
  | publishing (job : Nat)
  | gone
deriving DecidableEq

inductive PublishJob where
  | waiting (status : InstanceStatus) (token : Text)
  | locked (status : InstanceStatus) (token : Text)
  | publishing (writer : Writer)
  | unlocking
  | done

inductive ReleasePhase where
  | aborting
  | locking
  | setting
  | removing
  | unlocking
  | returned
deriving DecidableEq

def PublishJob.holdsLock : PublishJob → Bool
  | .locked _ _ | .publishing _ | .unlocking => true
  | .waiting _ _ | .done => false

def ReleasePhase.holdsLock : ReleasePhase → Bool
  | .setting | .removing | .unlocking => true
  | .aborting | .locking | .returned => false

def ReleasePhase.hasSet : ReleasePhase → Bool
  | .removing | .unlocking | .returned => true
  | .aborting | .locking | .setting => false

def ReleasePhase.hasRemoved : ReleasePhase → Bool
  | .unlocking | .returned => true
  | .aborting | .locking | .setting | .removing => false

/-- A lease with its heartbeat and its calls of `release`, over a directory that others use as well. -/
structure StatusLease where
  instanceId : Text
  dir : Directory := []
  clock : Nat := 0
  released : Bool := false
  lock : Option LockOwner := none
  task : HeartbeatTask := .ticking
  aborted : Bool := false
  jobs : List PublishJob := []
  releases : List ReleasePhase := []

namespace StatusLease

def path (lease : StatusLease) : Text := lease.instanceId ++ ".json"

inductive Action where
  | setClock (clock : Nat)
  /-- Other processes change the directory. -/
  | elsewhere (dir : Directory)
  | beat (status : InstanceStatus) (token : Text)
  | beaten
  | endTask
  | job (index : Nat)
  | jobFails (index : Nat)
  | beginRelease
  | release (index : Nat)

variable (codec : Codec) (lease : StatusLease)

def setJob (index : Nat) (job : PublishJob) : StatusLease := { lease with jobs := lease.jobs.set index job }

def setRelease (index : Nat) (phase : ReleasePhase) : StatusLease :=
  { lease with releases := lease.releases.set index phase }

def advanceJob (index : Nat) : PublishJob → Option StatusLease
  | .waiting status token =>
    if lease.lock = none then
      some { lease.setJob index (.locked status token) with lock := some (.job index) }
    else none
  | .locked status token =>
    if lease.released then some (lease.setJob index .unlocking)
    else
      match preparePublication codec status token with
      | .error _ => some (lease.setJob index .unlocking)
      | .ok ready => some (lease.setJob index (.publishing { ready }))
  | .publishing writer =>
    match writer.advance lease.clock lease.dir with
    | (dir, some writer) => some { lease.setJob index (.publishing writer) with dir }
    | (dir, none) => some { lease.setJob index .unlocking with dir }
  | .unlocking => some { lease.setJob index .done with lock := none }
  | .done => none

def advanceRelease (index : Nat) : ReleasePhase → Option StatusLease
  | .aborting => some { lease.setRelease index .locking with aborted := true }
  | .locking =>
    if lease.lock = none then
      some { lease.setRelease index .setting with lock := some (.release index) }
    else none
  | .setting => some { lease.setRelease index .removing with released := true }
  | .removing => some { lease.setRelease index .unlocking with dir := (remove lease.dir lease.instanceId).1 }
  | .unlocking => some { lease.setRelease index .returned with lock := none }
  | .returned => none

def step (lease : StatusLease) : Action → Option StatusLease
  | .setClock clock => some { lease with clock }
  | .elsewhere dir =>
    -- the name of the lease is this process's own, though a list may remove it
    if dir.lookup lease.path = none ∨ dir.lookup lease.path = lease.dir.lookup lease.path then some { lease with dir }
    else none
  | .beat status token =>
    if lease.task = .ticking ∧ status.instanceId = lease.instanceId then
      some { lease with jobs := lease.jobs ++ [.waiting status token], task := .publishing lease.jobs.length }
    else none
  | .beaten =>
    match lease.task with
    | .publishing index =>
      match lease.jobs[index]? with
      | some .done => if lease.aborted then none else some { lease with task := .ticking }
      | _ => none
    | _ => none
  | .endTask => if lease.aborted then some { lease with task := .gone } else none
  | .job index => lease.jobs[index]?.bind (lease.advanceJob codec index)
  | .jobFails index =>
    lease.jobs[index]?.bind fun
      | .publishing _ => some (lease.setJob index .unlocking)
      | _ => none
  | .beginRelease => some { lease with releases := lease.releases ++ [.aborting] }
  | .release index => lease.releases[index]?.bind (lease.advanceRelease index)

end StatusLease

/-! ### What holds of a lease -/

namespace StatusLease

theorem lock_kept {before after : Option LockOwner} {owner other : LockOwner} (held : before = some owner)
    (lock : after = before ∨ before = none ∨ before = some other) (apart : other ≠ owner) : after = some owner := by
  rcases lock with unchanged | free | mine
  · exact unchanged.trans held
  · rw [free] at held
    cases held
  · rw [mine] at held
    exact absurd (Option.some.inj held) apart

/-- Whoever works under the lock has it, and a publish goes on only while no release has set the flag. -/
structure Kept (lease : StatusLease) : Prop where
  valid : validInstanceId lease.instanceId = true
  job : ∀ {index : Nat} {job : PublishJob}, lease.jobs[index]? = some job → job.holdsLock = true → lease.lock = some (.job index)
  release : ∀ {index : Nat} {phase : ReleasePhase}, lease.releases[index]? = some phase → phase.holdsLock = true →
    lease.lock = some (.release index)
  publishing : ∀ {index : Nat} {writer : Writer}, lease.jobs[index]? = some (PublishJob.publishing writer) → lease.released = false
  set : ∀ {index : Nat} {phase : ReleasePhase}, lease.releases[index]? = some phase → phase.hasSet = true → lease.released = true
  removed : ∀ {index : Nat} {phase : ReleasePhase}, lease.releases[index]? = some phase → phase.hasRemoved = true →
    lease.dir.lookup lease.path = none

section
variable {codec : Codec} {lease after : StatusLease} {index : Nat}

theorem hasSet_of_hasRemoved {phase : ReleasePhase} (removed : phase.hasRemoved = true) : phase.hasSet = true := by
  cases phase <;> first | rfl | cases removed

theorem Kept.setJob {job : PublishJob} (kept : lease.Kept) (same : after.instanceId = lease.instanceId)
    (jobs : after.jobs = lease.jobs.set index job) (releases : after.releases = lease.releases)
    (released : after.released = lease.released)
    (own : job.holdsLock = true → after.lock = some (.job index))
    (lock : after.lock = lease.lock ∨ lease.lock = none ∨ lease.lock = some (.job index))
    (publishing : ∀ writer, job = .publishing writer → lease.released = false)
    (gone : lease.released = true → lease.dir.lookup lease.path = none → after.dir.lookup lease.path = none) :
    after.Kept := by
  refine ⟨same ▸ kept.valid, ?_, ?_, ?_, ?_, ?_⟩
  · intro other found there holds
    rw [jobs] at there
    rcases Steps.call_of_set there with ⟨rfl, rfl⟩ | ⟨apart, there⟩
    · exact own holds
    · exact lock_kept (kept.job there holds) lock fun same => apart (LockOwner.job.inj same)
  · intro other phase there holds
    rw [releases] at there
    exact lock_kept (kept.release there holds) lock nofun
  · intro other writer there
    rw [jobs] at there
    rw [released]
    rcases Steps.call_of_set there with ⟨rfl, same⟩ | ⟨_, there⟩
    · exact publishing writer same.symm
    · exact kept.publishing there
  · intro other phase there set
    rw [releases] at there
    rw [released]
    exact kept.set there set
  · intro other phase there removed
    rw [releases] at there
    rw [path, same]
    exact gone (kept.set there (hasSet_of_hasRemoved removed)) (kept.removed there removed)

theorem Kept.setRelease {phase : ReleasePhase} (kept : lease.Kept) (same : after.instanceId = lease.instanceId)
    (jobs : after.jobs = lease.jobs) (releases : after.releases = lease.releases.set index phase)
    (own : phase.holdsLock = true → after.lock = some (.release index))
    (lock : after.lock = lease.lock ∨ lease.lock = none ∨ lease.lock = some (.release index))
    (released : after.released = lease.released ∨ after.released = true ∧ lease.lock = some (.release index))
    (set : phase.hasSet = true → after.released = true)
    (removed : phase.hasRemoved = true → after.dir.lookup lease.path = none)
    (gone : lease.dir.lookup lease.path = none → after.dir.lookup lease.path = none) : after.Kept := by
  refine ⟨same ▸ kept.valid, ?_, ?_, ?_, ?_, ?_⟩
  · intro other found there holds
    rw [jobs] at there
    exact lock_kept (kept.job there holds) lock nofun
  · intro other found there holds
    rw [releases] at there
    rcases Steps.call_of_set there with ⟨rfl, rfl⟩ | ⟨apart, there⟩
    · exact own holds
    · exact lock_kept (kept.release there holds) lock fun same => apart (LockOwner.release.inj same)
  · intro other writer there
    rw [jobs] at there
    rcases released with unchanged | ⟨-, mine⟩
    · exact unchanged.trans (kept.publishing there)
    · have before := kept.job there rfl
      rw [mine] at before
      cases before
  · intro other found there isSet
    rw [releases] at there
    rcases Steps.call_of_set there with ⟨rfl, rfl⟩ | ⟨_, there⟩
    · exact set isSet
    · rcases released with unchanged | ⟨now, -⟩
      · exact unchanged.trans (kept.set there isSet)
      · exact now
  · intro other found there isRemoved
    rw [releases] at there
    rw [path, same]
    rcases Steps.call_of_set there with ⟨rfl, rfl⟩ | ⟨_, there⟩
    · exact removed isRemoved
    · exact gone (kept.removed there isRemoved)

theorem kept_advanceJob {job : PublishJob} (kept : lease.Kept) (there : lease.jobs[index]? = some job)
    (advanced : lease.advanceJob codec index job = some after) : after.Kept := by
  cases job with
  | waiting status token =>
    unfold advanceJob at advanced
    dsimp only at advanced
    split at advanced
    · next free =>
      obtain rfl := Option.some.inj advanced
      exact kept.setJob rfl rfl rfl rfl (fun _ => rfl) (.inr (.inl free)) nofun fun _ => id
    · cases advanced
  | locked status token =>
    have mine := kept.job there rfl
    unfold advanceJob at advanced
    dsimp only at advanced
    split at advanced
    · obtain rfl := Option.some.inj advanced
      exact kept.setJob rfl rfl rfl rfl (fun _ => mine) (.inl rfl) nofun fun _ => id
    · next unset =>
      split at advanced
      · obtain rfl := Option.some.inj advanced
        exact kept.setJob rfl rfl rfl rfl (fun _ => mine) (.inl rfl) nofun fun _ => id
      · obtain rfl := Option.some.inj advanced
        exact kept.setJob rfl rfl rfl rfl (fun _ => mine) (.inl rfl)
          (fun _ _ => Bool.not_eq_true _ ▸ unset) fun _ => id
  | publishing writer =>
    have mine := kept.job there rfl
    have unset := kept.publishing there
    have still : lease.released = true → lease.dir.lookup lease.path = none → after.dir.lookup lease.path = none := by
      intro set
      rw [unset] at set
      cases set
    unfold advanceJob at advanced
    dsimp only at advanced
    split at advanced
    · obtain rfl := Option.some.inj advanced
      exact kept.setJob rfl rfl rfl rfl (fun _ => mine) (.inl rfl) (fun _ _ => unset) still
    · obtain rfl := Option.some.inj advanced
      exact kept.setJob rfl rfl rfl rfl (fun _ => mine) (.inl rfl) nofun still
  | unlocking =>
    have mine := kept.job there rfl
    obtain rfl := Option.some.inj advanced
    exact kept.setJob rfl rfl rfl rfl nofun (.inr (.inr mine)) nofun fun _ => id
  | done => cases advanced

theorem kept_advanceRelease {phase : ReleasePhase} (kept : lease.Kept) (there : lease.releases[index]? = some phase)
    (advanced : lease.advanceRelease index phase = some after) : after.Kept := by
  cases phase with
  | aborting =>
    obtain rfl := Option.some.inj advanced
    exact kept.setRelease rfl rfl rfl nofun (.inl rfl) (.inl rfl) nofun nofun id
  | locking =>
    unfold advanceRelease at advanced
    dsimp only at advanced
    split at advanced
    · next free =>
      obtain rfl := Option.some.inj advanced
      exact kept.setRelease rfl rfl rfl (fun _ => rfl) (.inr (.inl free)) (.inl rfl) nofun nofun id
    · cases advanced
  | setting =>
    have mine := kept.release there rfl
    obtain rfl := Option.some.inj advanced
    exact kept.setRelease rfl rfl rfl (fun _ => mine) (.inl rfl) (.inr ⟨rfl, mine⟩) (fun _ => rfl) nofun id
  | removing =>
    have mine := kept.release there rfl
    have set := kept.set there rfl
    have gone : (remove lease.dir lease.instanceId).1.lookup lease.path = none := by
      rw [remove, leasePath, if_pos kept.valid]
      dsimp only
      rw [lookup_removeFile]
      exact if_pos rfl
    obtain rfl := Option.some.inj advanced
    exact kept.setRelease rfl rfl rfl (fun _ => mine) (.inl rfl) (.inl rfl) (fun _ => set) (fun _ => gone) fun _ => gone
  | unlocking =>
    have mine := kept.release there rfl
    have set := kept.set there rfl
    have gone := kept.removed there rfl
    obtain rfl := Option.some.inj advanced
    exact kept.setRelease rfl rfl rfl nofun (.inr (.inr mine)) (.inl rfl) (fun _ => set) (fun _ => gone) id
  | returned => cases advanced

theorem kept_step {action : Action} (kept : lease.Kept) (stepped : lease.step codec action = some after) : after.Kept := by
  cases action with
  | setClock clock =>
    obtain rfl := Option.some.inj stepped
    exact { kept with }
  | elsewhere dir =>
    unfold step at stepped
    dsimp only at stepped
    split at stepped
    · next allowed =>
      obtain rfl := Option.some.inj stepped
      refine { kept with removed := ?_ }
      intro index phase there removed
      rcases allowed with none | same
      · exact none
      · exact same.trans (kept.removed there removed)
    · cases stepped
  | beat status token =>
    unfold step at stepped
    dsimp only at stepped
    split at stepped
    · obtain rfl := Option.some.inj stepped
      refine { kept with job := ?_, publishing := ?_ }
      · intro index job there holds
        rcases Steps.call_of_append there with there | ⟨-, rfl⟩
        · exact kept.job there holds
        · cases holds
      · intro index writer there
        rcases Steps.call_of_append there with there | ⟨-, same⟩
        · exact kept.publishing there
        · cases same
    · cases stepped
  | beaten =>
    unfold step at stepped
    dsimp only at stepped
    split at stepped
    · split at stepped
      · split at stepped
        · cases stepped
        · obtain rfl := Option.some.inj stepped
          exact { kept with }
      · cases stepped
    · cases stepped
  | endTask =>
    unfold step at stepped
    dsimp only at stepped
    split at stepped
    · obtain rfl := Option.some.inj stepped
      exact { kept with }
    · cases stepped
  | job index =>
    obtain ⟨job, there, advanced⟩ := Option.bind_eq_some_iff.mp stepped
    exact kept_advanceJob kept there advanced
  | jobFails index =>
    obtain ⟨job, there, failed⟩ := Option.bind_eq_some_iff.mp stepped
    cases job with
    | publishing writer =>
      have mine := kept.job there rfl
      obtain rfl := Option.some.inj failed
      exact kept.setJob rfl rfl rfl rfl (fun _ => mine) (.inl rfl) nofun fun _ => id
    | _ => cases failed
  | beginRelease =>
    obtain rfl := Option.some.inj stepped
    refine { kept with release := ?_, set := ?_, removed := ?_ }
    · intro index phase there holds
      rcases Steps.call_of_append there with there | ⟨-, rfl⟩
      · exact kept.release there holds
      · cases holds
    · intro index phase there set
      rcases Steps.call_of_append there with there | ⟨-, rfl⟩
      · exact kept.set there set
      · cases set
    · intro index phase there removed
      rcases Steps.call_of_append there with there | ⟨-, rfl⟩
      · exact kept.removed there removed
      · cases removed
  | release index =>
    obtain ⟨phase, there, advanced⟩ := Option.bind_eq_some_iff.mp stepped
    exact kept_advanceRelease kept there advanced

/-- Once a release has returned there is no lease file, now and in every later state. -/
theorem released_stays_gone {instanceId : Text} {dir : Directory} {clock : Nat} {actions : List Action}
    (valid : validInstanceId instanceId = true)
    (played : Steps.play (step codec) { instanceId, dir, clock } actions = some lease)
    (returned : lease.releases[index]? = some .returned) : lease.dir.lookup lease.path = none := by
  have initial : Kept { instanceId, dir, clock } := ⟨valid, nofun, nofun, nofun, nofun, nofun⟩
  exact (Steps.play_kept kept_step initial played).removed returned rfl

end

/-- A release comes while a publish is under way, waits for it and removes what it wrote. A second one follows. -/
def releasedTwice : List Action :=
  [.beat startedStatus "t", .job 0, .job 0, .beginRelease, .release 0, .endTask] ++ List.replicate 4 (.job 0) ++
    List.replicate 4 (.release 0) ++ .beginRelease :: List.replicate 5 (.release 1)

theorem released_stays_gone_twice : ∃ lease,
    Steps.play (step (idleCodec [startedStatus])) { instanceId := "a" } releasedTwice = some lease ∧
      lease.dir.lookup lease.path = none := by
  have ended : (Steps.play (step (idleCodec [startedStatus])) { instanceId := "a" } releasedTwice).any
      (fun lease => lease.releases[1]? == some .returned) = true := by decide +kernel
  obtain ⟨lease, played, returned⟩ := (Option.any_eq_true _ _).mp ended
  exact ⟨lease, played, released_stays_gone (by decide) played (eq_of_beq returned)⟩

end StatusLease

end MqBridge.Registry
