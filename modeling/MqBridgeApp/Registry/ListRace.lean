import MqBridgeApp.Lib.Steps
import MqBridgeApp.Registry.LeaseMap

/-!
# Lists beside publishers

A list looks at a file, opens it, reads it and removes it in steps of their own, and removes it by its name.
A publisher may give the name to another file in between.
-/

namespace MqBridge.Registry
open Text

/-! ### Calls in flight -/

inductive ListerPhase where
  | between
  | entry (name : Text)
  | opening (name : Text)
  | opened (name : Text) (bytes : List UInt8)
  | removing (name : Text)
deriving DecidableEq

structure Lister where
  now : Nat
  phase : ListerPhase := .between
  statuses : List InstanceStatus := []

inductive WriterPhase where
  | creating
  | writing
  | replacing
deriving DecidableEq

structure Writer where
  ready : Publication
  phase : WriterPhase := .creating

def Lister.advance (codec : Codec) (clock : Nat) (dir : Directory) (lister : Lister) : Directory × Lister :=
  match lister.phase with
  | .between => (dir, lister)
  | .entry name =>
    match dir.lookup name with
    | none => (dir, { lister with phase := .between })
    | some file =>
      match glance clock name file with
      | .pass => (dir, { lister with phase := .between })
      | .remove => (dir, { lister with phase := .removing name })
      | .read => (dir, { lister with phase := .opening name })
  | .opening name =>
    match dir.lookup name with
    | none => (dir, { lister with phase := .between })
    | some file => (dir, { lister with phase := .opened name file.bytes })
  | .opened name bytes =>
    match judge codec lister.now bytes with
    | .pass => (dir, { lister with phase := .between })
    | .remove => (dir, { lister with phase := .removing name })
    | .present status => (dir, { lister with phase := .between, statuses := lister.statuses ++ [status] })
  | .removing name => (dir.removeFile name, { lister with phase := .between })

/-- The next file operation of a publisher, which is gone when it was the last. -/
def Writer.advance (clock : Nat) (dir : Directory) (writer : Writer) : Directory × Option Writer :=
  match writer.phase with
  | .creating =>
    match dir.createNew writer.ready.temporary clock with
    | none => (dir, none)
    | some created => (created, some { writer with phase := .writing })
  | .writing =>
    (dir.writeAll writer.ready.temporary writer.ready.bytes clock, some { writer with phase := .replacing })
  | .replacing =>
    match dir.rename writer.ready.temporary writer.ready.path with
    | none => (dir.removeFile writer.ready.temporary, none)
    | some renamed => (renamed, none)

structure World where
  dir : Directory := []
  clock : Nat := 0
  listers : List Lister := []
  writers : List Writer := []

namespace World

inductive Action where
  | setClock (clock : Nat)
  | beginList
  /-- The system gives a list the name of its next entry. -/
  | nextEntry (lister : Nat) (name : Text)
  | list (lister : Nat)
  | beginPublish (status : InstanceStatus) (token : Text)
  | publish (writer : Nat)

variable (codec : Codec)

def step (world : World) : Action → Option World
  | .setClock clock => some { world with clock }
  | .beginList => some { world with listers := world.listers ++ [{ now := world.clock }] }
  | .nextEntry index name =>
    world.listers[index]?.bind fun lister =>
      match lister.phase with
      | .between => some { world with listers := world.listers.set index { lister with phase := .entry name } }
      | _ => none
  | .list index =>
    world.listers[index]?.map fun lister =>
      let (dir, lister) := lister.advance codec world.clock world.dir
      { world with dir, listers := world.listers.set index lister }
  | .beginPublish status token =>
    match preparePublication codec status token with
    | .error _ => some world
    | .ok ready => some { world with writers := world.writers ++ [{ ready }] }
  | .publish index =>
    world.writers[index]?.map fun writer =>
      match writer.advance world.clock world.dir with
      | (dir, some writer) => { world with dir, writers := world.writers.set index writer }
      | (dir, none) => { world with dir, writers := world.writers.eraseIdx index }

end World

/-- The file is a lease whose content is a fresh record. -/
def isFreshLease (codec : Codec) (clock : Nat) (name : Text) (file : LeaseFile) : Bool :=
  extension name == some ("json" : Text) && decide (file.bytes.length ≤ maxRecordBytes) &&
    match codec.fromSlice file.bytes with
    | some status => status.isFresh clock
    | none => false

/-- The list is about to remove the file, or has opened it and will find that it is to be removed. -/
def Lister.condemns (codec : Codec) (lister : Lister) (path : Text) : Bool :=
  match lister.phase with
  | .removing name => name == path
  | .opened name bytes => name == path && (judge codec lister.now bytes).removes
  | _ => false

namespace World
variable (codec : Codec) (world : World)

def condemned (path : Text) : Bool := world.listers.any fun lister => lister.condemns codec path

/-- No fresh record comes under a name that a list condemns: not by being renamed to it, not by the clock
being set, and not by a list whose own time has it that the record is not fresh. -/
def Guarded : Action → Prop
  | .setClock clock =>
    ∀ entry ∈ world.dir, isFreshLease codec clock entry.1 entry.2 = true → world.condemned codec entry.1 = false
  | .list index =>
    ∀ lister ∈ world.listers[index]?, ∀ entry ∈ world.dir, lister.phase = .opening entry.1 →
      isFreshLease codec world.clock entry.1 entry.2 = true → (judge codec lister.now entry.2.bytes).removes = false
  | .publish index =>
    ∀ writer ∈ world.writers[index]?, writer.phase = .replacing → ∀ file ∈ world.dir.lookup writer.ready.temporary,
      isFreshLease codec world.clock writer.ready.path file = true → world.condemned codec writer.ready.path = false
  | _ => True

instance : DecidablePred (Guarded codec world)
  | .setClock clock => inferInstanceAs (Decidable (∀ entry ∈ world.dir,
      isFreshLease codec clock entry.1 entry.2 = true → world.condemned codec entry.1 = false))
  | .list index => inferInstanceAs (Decidable (∀ lister ∈ world.listers[index]?, ∀ entry ∈ world.dir,
      lister.phase = .opening entry.1 → isFreshLease codec world.clock entry.1 entry.2 = true →
        (judge codec lister.now entry.2.bytes).removes = false))
  | .publish index => inferInstanceAs (Decidable (∀ writer ∈ world.writers[index]?, writer.phase = .replacing →
      ∀ file ∈ world.dir.lookup writer.ready.temporary,
        isFreshLease codec world.clock writer.ready.path file = true → world.condemned codec writer.ready.path = false))
  | .beginList => inferInstanceAs (Decidable True)
  | .nextEntry _ _ => inferInstanceAs (Decidable True)
  | .beginPublish _ _ => inferInstanceAs (Decidable True)

/-- No list condemns a fresh record, and no publisher writes to a lease. -/
structure Safe : Prop where
  spared : ∀ lister ∈ world.listers, ∀ {name file}, lister.condemns codec name = true →
    world.dir.lookup name = some file → isFreshLease codec world.clock name file = false
  temporary : ∀ writer ∈ world.writers, extension writer.ready.temporary = some ("tmp" : Text)

end World

/-- A list that nothing gets in the way of does with an entry what a visit does. -/
theorem visit_alone {codec : Codec} {dir : Directory} {lister : Lister} {name : Text} (at_ : lister.phase = .entry name) :
    (fun place : Directory × Lister => place.2.advance codec lister.now place.1)^[4] (dir, lister) =
      ((visit codec lister.now dir name).1,
        { lister with
          phase := .between
          statuses := lister.statuses ++ (visit codec lister.now dir name).2.toList }) := by
  obtain ⟨now, phase, statuses⟩ := lister
  obtain rfl : phase = .entry name := at_
  simp only [Function.iterate_succ, Function.iterate_zero, Function.comp, id]
  cases found : dir.lookup name with
  | none => simp [Lister.advance, found, visit_missing found]
  | some file =>
    rw [visit_found found, outcome]
    cases look : glance now name file with
    | pass => simp [Lister.advance, found, look, Verdict.removes, Verdict.status]
    | remove => simp [Lister.advance, found, look, Verdict.removes, Verdict.status]
    | read =>
      cases read : judge codec now file.bytes with
      | pass => simp [Lister.advance, found, look, read, Verdict.removes, Verdict.status]
      | remove => simp [Lister.advance, found, look, read, Verdict.removes, Verdict.status]
      | present status => simp [Lister.advance, found, look, read, Verdict.removes, Verdict.status]

/-! ### Steps -/

section
variable {codec : Codec} {world after : World}

theorem extension_temporaryName (instanceId token : Text) :
    extension (temporaryName instanceId token) = some ("tmp" : Text) := by
  have split : rsplitOnce '.' (temporaryName instanceId token) =
      some (("." ++ instanceId ++ "." ++ token : Text), ("tmp" : Text)) := by
    have joined : temporaryName instanceId token = ("." ++ instanceId ++ "." ++ token : Text) ++ (".tmp" : Text) := rfl
    rw [joined]
    exact rsplitOnce_append (by decide)
  rw [extension, split, Option.bind_some]
  rfl

theorem preparePublication_temporary {status : InstanceStatus} {token : Text} {ready : Publication}
    (prepared : preparePublication codec status token = .ok ready) :
    extension ready.temporary = some ("tmp" : Text) := by
  obtain ⟨-, -, rfl⟩ := preparePublication_ok prepared
  exact extension_temporaryName _ _

theorem glance_removes {clock : Nat} {name : Text} {file : LeaseFile} (removes : glance clock name file = .remove) :
    isFreshLease codec clock name file = false := by
  unfold glance at removes
  unfold isFreshLease
  by_cases json : extension name = some ("json" : Text)
  · rw [if_pos json] at removes
    have large : ¬file.bytes.length ≤ maxRecordBytes := by
      intro small
      rw [if_neg (Nat.not_lt.mpr small)] at removes
      cases removes
    rw [decide_eq_false large, Bool.and_false, Bool.false_and]
  · rw [beq_eq_false_iff_ne.mpr json, Bool.false_and, Bool.false_and]

theorem condemned_false {path : Text} (none : world.condemned codec path = false) {lister : Lister}
    (member : lister ∈ world.listers) : lister.condemns codec path = false := by
  rw [World.condemned, List.any_eq_false] at none
  exact Bool.not_eq_true _ ▸ none lister member

/-- What the next step of a list condemns is no fresh record. -/
theorem advance_spared {lister : Lister} {index : Nat} (there : world.listers[index]? = some lister)
    (safe : world.Safe codec) (guarded : world.Guarded codec (.list index)) {name : Text} {file : LeaseFile}
    (condemns : (lister.advance codec world.clock world.dir).2.condemns codec name = true)
    (found : world.dir.lookup name = some file) : isFreshLease codec world.clock name file = false := by
  have member := List.mem_of_getElem? there
  unfold Lister.advance at condemns
  cases phase : lister.phase with
  | between =>
    simp only [phase] at condemns
    exact safe.spared lister member condemns found
  | entry entry =>
    simp only [phase] at condemns
    cases here : world.dir.lookup entry with
    | none => simp [here, Lister.condemns] at condemns
    | some seen =>
      simp only [here] at condemns
      cases look : glance world.clock entry seen with
      | pass => simp [look, Lister.condemns] at condemns
      | read => simp [look, Lister.condemns] at condemns
      | remove =>
        simp only [look, Lister.condemns, beq_iff_eq] at condemns
        subst condemns
        obtain rfl := Option.some.inj (found.symm.trans here)
        exact glance_removes look
  | opening entry =>
    simp only [phase] at condemns
    cases here : world.dir.lookup entry with
    | none => simp [here, Lister.condemns] at condemns
    | some seen =>
      simp only [here, Lister.condemns, Bool.and_eq_true, beq_iff_eq] at condemns
      obtain ⟨rfl, removes⟩ := condemns
      obtain rfl := Option.some.inj (found.symm.trans here)
      by_contra fresh
      rw [Bool.not_eq_false] at fresh
      have kept := guarded lister there (entry, file) (Assoc.mem_of_lookup here) phase fresh
      rw [kept] at removes
      cases removes
  | opened entry bytes =>
    simp only [phase] at condemns
    cases read : judge codec lister.now bytes with
    | pass => simp [read, Lister.condemns] at condemns
    | present status => simp [read, Lister.condemns] at condemns
    | remove =>
      simp only [read, Lister.condemns, beq_iff_eq] at condemns
      subst condemns
      apply safe.spared lister member ?_ found
      simp only [Lister.condemns, phase, read, Verdict.removes, beq_self_eq_true, Bool.and_self]
  | removing entry =>
    simp [phase, Lister.condemns] at condemns

/-- A list changes the directory only by removing the file that it is about to remove. -/
theorem advance_dir (clock : Nat) (dir : Directory) (lister : Lister) :
    (lister.advance codec clock dir).1 = dir ∨
      ∃ name, lister.phase = .removing name ∧ (lister.advance codec clock dir).1 = dir.removeFile name := by
  unfold Lister.advance
  cases phase : lister.phase with
  | between => exact .inl rfl
  | entry name =>
    left
    dsimp only
    cases dir.lookup name with
    | none => rfl
    | some file =>
      dsimp only
      cases glance clock name file <;> rfl
  | opening name =>
    left
    dsimp only
    cases dir.lookup name <;> rfl
  | opened name bytes =>
    left
    dsimp only
    cases judge codec lister.now bytes <;> rfl
  | removing name => exact .inr ⟨name, rfl, rfl⟩

theorem lookup_advance {clock : Nat} {dir : Directory} {lister : Lister} {name : Text} {file : LeaseFile}
    (found : (lister.advance codec clock dir).1.lookup name = some file) : dir.lookup name = some file := by
  rcases @advance_dir codec clock dir lister with same | ⟨removed, -, same⟩
  · rw [same] at found
    exact found
  · rw [same, lookup_removeFile] at found
    split at found
    · cases found
    · exact found

theorem lookup_writer {clock : Nat} {dir : Directory} {writer : Writer} {name : Text} {file : LeaseFile}
    (temporary : extension writer.ready.temporary = some ("tmp" : Text)) (lease : extension name = some ("json" : Text))
    (found : (writer.advance clock dir).1.lookup name = some file) :
    dir.lookup name = some file ∨
      (name = writer.ready.path ∧ writer.phase = .replacing ∧ dir.lookup writer.ready.temporary = some file) := by
  have apart : name ≠ writer.ready.temporary := by
    rintro rfl
    rw [temporary] at lease
    cases lease
  unfold Writer.advance at found
  cases phase : writer.phase with
  | creating =>
    left
    simp only [phase] at found
    unfold Directory.createNew at found
    split at found
    · exact found
    · next created opened =>
      split at opened
      · cases opened
      · obtain rfl := Option.some.inj opened
        rw [lookup_insert_file, if_neg apart] at found
        exact found
  | writing =>
    left
    simp only [phase] at found
    unfold Directory.writeAll at found
    split at found
    · rw [lookup_insert_file, if_neg apart] at found
      exact found
    · exact found
  | replacing =>
    simp only [phase] at found
    unfold Directory.rename at found
    cases source : dir.lookup writer.ready.temporary with
    | none =>
      left
      simp only [source, Option.map_none] at found
      rw [lookup_removeFile, if_neg apart] at found
      exact found
    | some moved =>
      simp only [source, Option.map_some] at found
      rw [lookup_insert_file] at found
      split at found
      · next same =>
        obtain rfl := Option.some.inj found
        exact .inr ⟨same, rfl, rfl⟩
      · left
        rw [lookup_removeFile, if_neg apart] at found
        exact found

theorem writer_ready {clock : Nat} {dir : Directory} {writer next : Writer}
    (advanced : (writer.advance clock dir).2 = some next) : next.ready = writer.ready := by
  unfold Writer.advance at advanced
  cases phase : writer.phase with
  | creating =>
    simp only [phase] at advanced
    split at advanced
    · cases advanced
    · obtain rfl := Option.some.inj advanced
      rfl
  | writing =>
    simp only [phase] at advanced
    obtain rfl := Option.some.inj advanced
    rfl
  | replacing =>
    simp only [phase] at advanced
    split at advanced <;> cases advanced

theorem isFreshLease_json {clock : Nat} {name : Text} {file : LeaseFile}
    (fresh : isFreshLease codec clock name file = true) : extension name = some ("json" : Text) := by
  unfold isFreshLease at fresh
  rw [Bool.and_eq_true, Bool.and_eq_true, beq_iff_eq] at fresh
  exact fresh.1.1

theorem safe_step {action : World.Action} (safe : world.Safe codec) (guarded : world.Guarded codec action)
    (stepped : world.step codec action = some after) : after.Safe codec := by
  cases action with
  | setClock clock =>
    obtain rfl := Option.some.inj stepped
    refine ⟨?_, safe.temporary⟩
    intro lister member name file condemns found
    by_contra fresh
    rw [Bool.not_eq_false] at fresh
    have spared := condemned_false (guarded (name, file) (Assoc.mem_of_lookup found) fresh) member
    rw [spared] at condemns
    cases condemns
  | beginList =>
    obtain rfl := Option.some.inj stepped
    refine ⟨?_, safe.temporary⟩
    intro lister member name file condemns found
    rcases List.mem_append.mp member with old | new
    · exact safe.spared lister old condemns found
    · obtain rfl := List.mem_singleton.mp new
      cases condemns
  | nextEntry index entry =>
    obtain ⟨lister, there, stepped⟩ := Option.bind_eq_some_iff.mp stepped
    split at stepped
    · obtain rfl := Option.some.inj stepped
      refine ⟨?_, safe.temporary⟩
      intro other member name file condemns found
      rcases List.mem_or_eq_of_mem_set member with old | rfl
      · exact safe.spared other old condemns found
      · cases condemns
    · cases stepped
  | list index =>
    obtain ⟨lister, there, rfl⟩ := Option.map_eq_some_iff.mp stepped
    refine ⟨?_, safe.temporary⟩
    intro other member name file condemns found
    have before := lookup_advance found
    rcases List.mem_or_eq_of_mem_set member with old | rfl
    · exact safe.spared other old condemns before
    · exact advance_spared there safe guarded condemns before
  | beginPublish status token =>
    unfold World.step at stepped
    dsimp only at stepped
    cases prepared : preparePublication codec status token with
    | error error =>
      simp only [prepared, Option.some.injEq] at stepped
      exact stepped ▸ safe
    | ok ready =>
      simp only [prepared, Option.some.injEq] at stepped
      obtain rfl := stepped
      refine ⟨safe.spared, ?_⟩
      intro writer member
      rcases List.mem_append.mp member with old | new
      · exact safe.temporary writer old
      · obtain rfl := List.mem_singleton.mp new
        exact preparePublication_temporary prepared
  | publish index =>
    obtain ⟨writer, there, stepped⟩ := Option.map_eq_some_iff.mp stepped
    have own := safe.temporary writer (List.mem_of_getElem? there)
    have kept : ∀ lister ∈ world.listers, ∀ {name file}, lister.condemns codec name = true →
        (writer.advance world.clock world.dir).1.lookup name = some file →
        isFreshLease codec world.clock name file = false := by
      intro lister member name file condemns found
      by_contra fresh
      rw [Bool.not_eq_false] at fresh
      rcases lookup_writer own (isFreshLease_json fresh) found with before | ⟨rfl, replacing, moved⟩
      · rw [safe.spared lister member condemns before] at fresh
        cases fresh
      · rw [condemned_false (guarded writer there replacing file moved fresh) member] at condemns
        cases condemns
    cases result : writer.advance world.clock world.dir with
    | mk dir left =>
      rw [result] at kept
      cases left with
      | none =>
        simp only [result] at stepped
        obtain rfl := stepped
        exact ⟨kept, fun other member => safe.temporary other (List.mem_of_mem_eraseIdx member)⟩
      | some next =>
        simp only [result] at stepped
        obtain rfl := stepped
        refine ⟨kept, ?_⟩
        intro other member
        rcases List.mem_or_eq_of_mem_set member with old | rfl
        · exact safe.temporary other old
        · rw [writer_ready (congrArg Prod.snd result)]
          exact own

/-- In a run whose steps are all guarded, no list removes a fresh record. -/
theorem guarded_run_spares {dir : Directory} {clock : Nat} {actions : List World.Action}
    (guarded : Steps.Careful (World.step codec) (World.Guarded codec) { dir, clock } actions)
    (played : Steps.play (World.step codec) { dir, clock } actions = some world) {index : Nat}
    (stepped : world.step codec (.list index) = some after) {name : Text} {file : LeaseFile}
    (found : world.dir.lookup name = some file) (fresh : isFreshLease codec world.clock name file = true) :
    after.dir.lookup name = some file := by
  have initial : World.Safe codec { dir, clock } := ⟨nofun, nofun⟩
  have safe := Steps.play_invariant safe_step initial guarded played
  obtain ⟨lister, there, rfl⟩ := Option.map_eq_some_iff.mp stepped
  show (lister.advance codec world.clock world.dir).1.lookup name = some file
  rcases @advance_dir codec world.clock world.dir lister with same | ⟨removed, phase, same⟩
  · rw [same, found]
  · rw [same, lookup_removeFile, if_neg, found]
    rintro rfl
    have condemns : lister.condemns codec name = true := by
      rw [Lister.condemns, phase]
      exact beq_self_eq_true name
    rw [safe.spared lister (List.mem_of_getElem? there) condemns found] at fresh
    cases fresh

end

def beatingStatus : InstanceStatus := { startedStatus with lastSeenAtMs := 110000 }

def beatingCodec : Codec := idleCodec [startedStatus, beatingStatus]

/-- The lease has had its time, for its process was suspended. -/
def suspended : World where
  dir := [("a.json", ⟨idleBytes startedStatus, 100000⟩)]
  clock := 110000

def publishing : List World.Action := [.beginPublish beatingStatus "t", .publish 0, .publish 0, .publish 0]

/-- The list has read the old record when the new one comes. -/
def raced : List World.Action := [.beginList, .nextEntry 0 "a.json", .list 0, .list 0, .list 0] ++ publishing

/-- The list has removed the old record when the new one comes, and finds that one next. -/
def unraced : List World.Action :=
  [.beginList, .nextEntry 0 "a.json", .list 0, .list 0, .list 0, .list 0] ++ publishing ++
    [.nextEntry 0 "a.json", .list 0, .list 0]

/-- After the run there is a fresh record under the name, and the next step of the list leaves of it what `check` says. -/
def finds (actions : List World.Action) (check : LeaseFile → Option LeaseFile → Bool) : Bool :=
  (Steps.play (World.step beatingCodec) suspended actions).any fun world =>
    (world.step beatingCodec (.list 0)).any fun after =>
      (world.dir.lookup ("a.json" : Text)).any fun file =>
        isFreshLease beatingCodec world.clock "a.json" file && check file (after.dir.lookup ("a.json" : Text))

theorem finds_spec {actions : List World.Action} {check : LeaseFile → Option LeaseFile → Bool}
    (found : finds actions check = true) : ∃ world after file,
      Steps.play (World.step beatingCodec) suspended actions = some world ∧
      world.step beatingCodec (.list 0) = some after ∧ world.dir.lookup ("a.json" : Text) = some file ∧
      isFreshLease beatingCodec world.clock "a.json" file = true ∧
      check file (after.dir.lookup ("a.json" : Text)) = true := by
  obtain ⟨world, played, found⟩ := (Option.any_eq_true _ _).mp found
  obtain ⟨after, stepped, found⟩ := (Option.any_eq_true _ _).mp found
  obtain ⟨file, there, found⟩ := (Option.any_eq_true _ _).mp found
  obtain ⟨fresh, left⟩ := Bool.and_eq_true_iff.mp found
  exact ⟨world, after, file, played, stepped, there, fresh, left⟩

theorem guarded_run_spares_unraced : ∃ world after file,
    Steps.play (World.step beatingCodec) suspended unraced = some world ∧
      world.step beatingCodec (.list 0) = some after ∧ after.dir.lookup ("a.json" : Text) = some file := by
  obtain ⟨world, after, file, played, stepped, found, fresh, -⟩ :=
    @finds_spec unraced (fun _ _ => true) (by decide +kernel)
  exact ⟨world, after, file, played, stepped, guarded_run_spares (by decide +kernel) played stepped found fresh⟩

/-- A list removes the record that has just come in the place of the one it read. -/
theorem fresh_record_removed : ∃ world after file,
    Steps.play (World.step beatingCodec) suspended raced = some world ∧
      world.step beatingCodec (.list 0) = some after ∧ world.dir.lookup ("a.json" : Text) = some file ∧
      isFreshLease beatingCodec world.clock "a.json" file = true ∧ after.dir.lookup ("a.json" : Text) = none := by
  obtain ⟨world, after, file, played, stepped, found, fresh, gone⟩ :=
    @finds_spec raced (fun _ left => left.isNone) (by decide +kernel)
  exact ⟨world, after, file, played, stepped, found, fresh, Option.isNone_iff_eq_none.mp gone⟩

end MqBridge.Registry
