import MqBridgeApp.Registry.Sanitizing
import MqBridgeApp.Registry.Directory
import Mathlib.Data.List.Nodup

/-!
# Leases over a run

The directory stands for a map from instances to the records they published last. Removing takes an
instance out of it, and so does listing where it finds a record too old.
-/

namespace MqBridge.Registry
open Text

/-! ### What the calls leave -/

inductive Operation where
  | publish (clock : Nat) (status : InstanceStatus) (token : Text)
  | remove (instanceId : Text)
  | list (now : Nat)

/-- What a call that succeeds did. -/
inductive Event where
  | published (status : InstanceStatus)
  | removed (instanceId : Text)
  | listed (now : Nat) (statuses : List InstanceStatus)
deriving DecidableEq

section
variable (codec : Codec) (readDir : Directory → List Text)

def Directory.act (dir : Directory) : Operation → Directory × Option Event
  | .publish clock status token =>
    match publish codec clock dir status token with
    | (after, .ok ()) => (after, some (.published status))
    | (after, .error _) => (after, none)
  | .remove instanceId =>
    match remove dir instanceId with
    | (after, .ok ()) => (after, some (.removed instanceId))
    | (after, .error _) => (after, none)
  | .list now =>
    let (after, statuses) := list codec readDir now dir
    (after, some (.listed now statuses))

def Directory.run (dir : Directory) : List Operation → Directory × List Event
  | [] => (dir, [])
  | operation :: rest =>
    let (after, event) := dir.act codec readDir operation
    let (last, events) := after.run rest
    (last, event.toList ++ events)

end

/-- A record that a reader with the clock `now` leaves where it is. -/
def InstanceStatus.lasts (status : InstanceStatus) (now : Nat) : Bool :=
  status.schemaVersion != statusSchemaVersion || status.isFresh now

def Event.leave (instanceId : Text) (current : Option InstanceStatus) : Event → Option InstanceStatus
  | .published status => if status.instanceId = instanceId then some status else current
  | .removed other => if other = instanceId then none else current
  | .listed now _ => current.filter fun status => status.lasts now

/-- The record an instance published last, unless it was removed since or a reader found it too old. -/
def leaseOf (instanceId : Text) (events : List Event) : Option InstanceStatus :=
  events.foldl (Event.leave instanceId) none

def StatusSummary.mapThroughput (f : F64 → F64) (summary : StatusSummary) : StatusSummary :=
  { summary with throughput := f summary.throughput }

def StatusEntity.mapThroughput (f : F64 → F64) (entity : StatusEntity) : StatusEntity :=
  { entity with summary := entity.summary.mapThroughput f }

def StatusRoute.mapThroughput (f : F64 → F64) (route : StatusRoute) : StatusRoute :=
  { route with
    input := route.input.mapThroughput f
    output := route.output.mapThroughput f
    summary := route.summary.mapThroughput f }

def InstanceStatus.mapThroughput (f : F64 → F64) (status : InstanceStatus) : InstanceStatus :=
  { status with
    consumers := status.consumers.map (StatusEntity.mapThroughput f)
    publishers := status.publishers.map (StatusEntity.mapThroughput f)
    routes := status.routes.map (StatusRoute.mapThroughput f) }

/-- The record is read back as it was written, but for the last bits of its throughputs. -/
def Codec.Reads (codec : Codec) (status : InstanceStatus) : Prop :=
  codec.fromSlice (codec.toVec status.sanitized) = some (status.sanitized.mapThroughput codec.reread)

def Codec.presented (codec : Codec) (status : InstanceStatus) : InstanceStatus :=
  (status.sanitized.mapThroughput codec.reread).sanitized

/-- A file that is no readable record of this version. -/
def Foreign (codec : Codec) (file : LeaseFile) : Prop :=
  ∀ status, codec.fromSlice file.bytes = some status → status.schemaVersion ≠ statusSchemaVersion

section Files
variable {dir : Directory} {name source target key : Text} {clock : Nat} {bytes : List UInt8}

theorem lookup_removeFile : (dir.removeFile name).lookup key = if key = name then none else dir.lookup key := by
  have erased : (dir.removeFile name).lookup key = _ := Assoc.lookup_erase dir name key
  simpa only [beq_iff_eq] using erased

theorem nodup_removeFile (distinct : (dir.map Prod.fst).Nodup) : ((dir.removeFile name).map Prod.fst).Nodup :=
  distinct.sublist (List.filter_sublist.map _)

theorem lookup_insert_file (file : LeaseFile) :
    (Assoc.insert dir (name, file)).lookup key = if key = name then some file else dir.lookup key := by
  rw [Assoc.lookup_insert]
  by_cases same : key = name
  · rw [if_pos (beq_iff_eq.mpr same), if_pos same]
  · rw [if_neg (by simpa using same), if_neg same]

end Files

theorem leasePath_ok {instanceId path : Text} (ok : leasePath instanceId = .ok path) :
    validInstanceId instanceId = true ∧ path = instanceId ++ ".json" := by
  unfold leasePath at ok
  split at ok
  · next valid => exact ⟨valid, (Except.ok.inj ok).symm⟩
  · cases ok

theorem extension_lease {instanceId : Text} (valid : validInstanceId instanceId = true) :
    extension (instanceId ++ ".json") = some ("json" : Text) := by
  have full : instanceId.isEmpty = false := by
    rw [validInstanceId, Bool.and_eq_true, Bool.not_eq_true'] at valid
    exact valid.1
  have split : rsplitOnce '.' (instanceId ++ ".json") = some (instanceId, ("json" : Text)) := rsplitOnce_append (by decide)
  rw [extension, split, Option.bind_some]
  dsimp only
  rw [full, if_neg (by decide)]

theorem leaseName_inj {a b : Text} (same : a ++ (".json" : Text) = b ++ (".json" : Text)) : a = b :=
  List.append_cancel_right same

/-! ### Publishing and removing -/

section Publishing
variable {codec : Codec} {dir after : Directory} {status : InstanceStatus} {token : Text} {clock : Nat}

theorem preparePublication_ok {ready : Publication} (prepared : preparePublication codec status token = .ok ready) :
    validInstanceId status.instanceId = true ∧ (codec.toVec status.sanitized).length ≤ maxRecordBytes ∧
      ready = ⟨status.instanceId ++ ".json", temporaryName status.instanceId token, codec.toVec status.sanitized⟩ := by
  unfold preparePublication at prepared
  dsimp only at prepared
  cases path : leasePath status.sanitized.instanceId with
  | error error => simp [path] at prepared
  | ok path =>
    obtain ⟨valid, rfl⟩ := leasePath_ok path
    simp only [path] at prepared
    split at prepared
    · cases prepared
    · next small => exact ⟨valid, Nat.le_of_not_lt small, (Except.ok.inj prepared).symm⟩

theorem replace_spec {path temporary : Text} {bytes : List UInt8} (free : dir.lookup temporary = none) :
    ∃ created renamed, dir.createNew temporary clock = some created ∧
      (created.writeAll temporary bytes clock).rename temporary path = some renamed ∧
      (∀ name, renamed.lookup name = if name = path then some ⟨bytes, clock⟩ else dir.lookup name) ∧
      ((dir.map Prod.fst).Nodup → (renamed.map Prod.fst).Nodup) := by
  let created : Directory := Assoc.insert dir (temporary, (⟨[], clock⟩ : LeaseFile))
  let written : Directory := Assoc.insert created (temporary, (⟨bytes, clock⟩ : LeaseFile))
  have here : created.lookup temporary = some ⟨[], clock⟩ := by rw [lookup_insert_file, if_pos rfl]
  have there : written.lookup temporary = some ⟨bytes, clock⟩ := by rw [lookup_insert_file, if_pos rfl]
  have writes : created.writeAll temporary bytes clock = written := by rw [Directory.writeAll, here]; rfl
  refine ⟨created, Assoc.insert (written.removeFile temporary) (path, ⟨bytes, clock⟩), ?_, ?_, ?_, ?_⟩
  · rw [Directory.createNew, free]
    rfl
  · rw [writes, Directory.rename, there, Option.map_some]
  · intro name
    rw [lookup_insert_file, lookup_removeFile]
    split
    · rfl
    · split
      · next same => rw [same, free]
      · next other => rw [lookup_insert_file, if_neg other, lookup_insert_file, if_neg other]
  · intro distinct
    exact Assoc.nodup_insert (nodup_removeFile (Assoc.nodup_insert (Assoc.nodup_insert distinct)))

theorem createNew_taken {name : Text} {file : LeaseFile} (taken : dir.lookup name = some file) :
    dir.createNew name clock = none := by
  rw [Directory.createNew, taken]
  rfl

theorem publish_ok (published : publish codec clock dir status token = (after, .ok ())) :
    validInstanceId status.instanceId = true ∧ (codec.toVec status.sanitized).length ≤ maxRecordBytes ∧
      (∀ name, after.lookup name = if name = status.instanceId ++ ".json" then
        some ⟨codec.toVec status.sanitized, clock⟩ else dir.lookup name) ∧
      ((dir.map Prod.fst).Nodup → (after.map Prod.fst).Nodup) := by
  unfold publish at published
  cases prepared : preparePublication codec status token with
  | error error => simp [prepared] at published
  | ok ready =>
    obtain ⟨valid, small, same⟩ := preparePublication_ok prepared
    simp only [prepared] at published
    cases taken : dir.lookup ready.temporary with
    | some file => simp [createNew_taken taken] at published
    | none =>
      obtain ⟨created, renamed, creates, renames, lookup, distinct⟩ :=
        @replace_spec dir clock ready.path ready.temporary ready.bytes taken
      simp only [creates, renames, Prod.mk.injEq] at published
      obtain ⟨rfl, -⟩ := published
      rw [same] at lookup
      exact ⟨valid, small, lookup, distinct⟩

theorem publish_error {error : Text} (failed : publish codec clock dir status token = (after, .error error)) :
    after = dir := by
  unfold publish at failed
  cases prepared : preparePublication codec status token with
  | error error =>
    simp only [prepared, Prod.mk.injEq] at failed
    exact failed.1.symm
  | ok ready =>
    simp only [prepared] at failed
    cases taken : dir.lookup ready.temporary with
    | some file =>
      simp only [createNew_taken taken, Prod.mk.injEq] at failed
      exact failed.1.symm
    | none =>
      obtain ⟨created, renamed, creates, renames, -⟩ :=
        @replace_spec dir clock ready.path ready.temporary ready.bytes taken
      simp [creates, renames] at failed

theorem remove_ok {instanceId : Text} (removed : remove dir instanceId = (after, .ok ())) :
    after = dir.removeFile (instanceId ++ ".json") := by
  unfold remove at removed
  cases path : leasePath instanceId with
  | error error => simp [path] at removed
  | ok path =>
    obtain ⟨-, rfl⟩ := leasePath_ok path
    simp only [path, Prod.mk.injEq] at removed
    exact removed.1.symm

theorem remove_error {instanceId error : Text} (failed : remove dir instanceId = (after, .error error)) :
    after = dir := by
  unfold remove at failed
  cases path : leasePath instanceId with
  | error error =>
    simp only [path, Prod.mk.injEq] at failed
    exact failed.1.symm
  | ok path => simp [path] at failed

end Publishing

/-! ### Listing -/

def outcome (codec : Codec) (now : Nat) (name : Text) (file : LeaseFile) : Verdict :=
  match glance now name file with
  | .pass => .pass
  | .remove => .remove
  | .read => judge codec now file.bytes

def Verdict.status : Verdict → Option InstanceStatus
  | .present status => some status
  | _ => none

def Verdict.removes : Verdict → Bool
  | .remove => true
  | _ => false

section Listing
variable {codec : Codec} {readDir : Directory → List Text} {now : Nat} {dir : Directory}

theorem visit_found {name : Text} {file : LeaseFile} (found : dir.lookup name = some file) :
    visit codec now dir name = (if (outcome codec now name file).removes then dir.removeFile name else dir,
      (outcome codec now name file).status) := by
  unfold visit outcome
  simp only [found]
  cases glance now name file with
  | pass => rfl
  | remove => rfl
  | read => cases judge codec now file.bytes <;> rfl

theorem visit_missing {name : Text} (missing : dir.lookup name = none) : visit codec now dir name = (dir, none) := by
  unfold visit
  simp only [missing]

theorem lookup_visit {name other : Text} (apart : other ≠ name) :
    (visit codec now dir name).1.lookup other = dir.lookup other := by
  cases found : dir.lookup name with
  | none => rw [visit_missing found]
  | some file =>
    rw [visit_found found]
    dsimp only
    split
    · rw [lookup_removeFile, if_neg apart]
    · rfl

theorem nodup_visit {name : Text} (distinct : (dir.map Prod.fst).Nodup) :
    ((visit codec now dir name).1.map Prod.fst).Nodup := by
  cases found : dir.lookup name with
  | none =>
    rw [visit_missing found]
    exact distinct
  | some file =>
    rw [visit_found found]
    dsimp only
    split
    · exact nodup_removeFile distinct
    · exact distinct

theorem visitAll_cons {name : Text} {rest : List Text} :
    visitAll codec now dir (name :: rest) =
      ((visitAll codec now (visit codec now dir name).1 rest).1,
        (visit codec now dir name).2.toList ++ (visitAll codec now (visit codec now dir name).1 rest).2) := rfl

theorem nodup_visitAll {names : List Text} (distinct : (dir.map Prod.fst).Nodup) :
    ((visitAll codec now dir names).1.map Prod.fst).Nodup := by
  induction names generalizing dir with
  | nil => exact distinct
  | cons name rest ih =>
    rw [visitAll_cons]
    exact ih (nodup_visit distinct)

theorem lookup_visitAll_other {names : List Text} {other : Text} (apart : other ∉ names) :
    (visitAll codec now dir names).1.lookup other = dir.lookup other := by
  induction names generalizing dir with
  | nil => rfl
  | cons name rest ih =>
    rw [List.mem_cons, not_or] at apart
    rw [visitAll_cons]
    dsimp only
    rw [ih apart.2, lookup_visit apart.1]

/-- Each file that is there when it is visited is left or removed as its outcome says. -/
theorem lookup_visitAll {names : List Text} (distinct : names.Nodup) {name : Text} (inside : name ∈ names)
    {file : LeaseFile} (found : dir.lookup name = some file) :
    (visitAll codec now dir names).1.lookup name =
      if (outcome codec now name file).removes then none else some file := by
  induction names generalizing dir with
  | nil => cases inside
  | cons first rest ih =>
    obtain ⟨alone, later⟩ := List.nodup_cons.mp distinct
    rw [visitAll_cons]
    dsimp only
    rcases List.mem_cons.mp inside with rfl | inside
    · rw [lookup_visitAll_other alone, visit_found found]
      dsimp only
      split
      · rw [lookup_removeFile, if_pos rfl]
      · exact found
    · have apart : name ≠ first := fun same => alone (same ▸ inside)
      exact ih later inside ((lookup_visit apart).trans found)

def listedAt (codec : Codec) (now : Nat) (dir : Directory) (name : Text) : Option InstanceStatus :=
  (dir.lookup name).bind fun file => (outcome codec now name file).status

theorem visitAll_statuses {names : List Text} (distinct : names.Nodup) :
    (visitAll codec now dir names).2 = names.filterMap (listedAt codec now dir) := by
  induction names generalizing dir with
  | nil => rfl
  | cons first rest ih =>
    obtain ⟨alone, later⟩ := List.nodup_cons.mp distinct
    have own : (visit codec now dir first).2 = listedAt codec now dir first := by
      unfold listedAt
      cases found : dir.lookup first with
      | none => rw [visit_missing found]; rfl
      | some file => rw [visit_found found]; rfl
    have others : rest.filterMap (listedAt codec now (visit codec now dir first).1) =
        rest.filterMap (listedAt codec now dir) := by
      apply List.filterMap_congr
      intro name member
      have apart : name ≠ first := fun same => alone (same ▸ member)
      unfold listedAt
      rw [lookup_visit apart]
    rw [visitAll_cons]
    dsimp only
    rw [own, ih later, others, List.filterMap_cons]
    cases listedAt codec now dir first <;> rfl

variable (reads : ∀ dir, (readDir dir).Perm (dir.map Prod.fst))
include reads

theorem mem_readDir {name : Text} : name ∈ readDir dir ↔ ∃ file, dir.lookup name = some file :=
  (reads dir).mem_iff.trans Assoc.mem_keys

theorem lookup_list_missing {name : Text} (missing : dir.lookup name = none) :
    (list codec readDir now dir).1.lookup name = none := by
  have absent : name ∉ readDir dir := by
    rw [mem_readDir reads, missing]
    simp
  exact (lookup_visitAll_other absent).trans missing

variable (distinct : (dir.map Prod.fst).Nodup)
include distinct

theorem nodup_readDir : (readDir dir).Nodup := (reads dir).nodup_iff.mpr distinct

theorem lookup_list {name : Text} {file : LeaseFile} (found : dir.lookup name = some file) :
    (list codec readDir now dir).1.lookup name = if (outcome codec now name file).removes then none else some file :=
  lookup_visitAll (nodup_readDir reads distinct) ((mem_readDir reads).mpr ⟨file, found⟩) found

theorem mem_list {status : InstanceStatus} : status ∈ (list codec readDir now dir).2 ↔
    ∃ name file, dir.lookup name = some file ∧ (outcome codec now name file).status = some status := by
  show status ∈ List.mergeSort _ _ ↔ _
  rw [List.mem_mergeSort, visitAll_statuses (nodup_readDir reads distinct), List.mem_filterMap]
  constructor
  · rintro ⟨name, -, listed⟩
    obtain ⟨file, found, shown⟩ := Option.bind_eq_some_iff.mp listed
    exact ⟨name, file, found, shown⟩
  · rintro ⟨name, file, found, shown⟩
    exact ⟨name, (mem_readDir reads).mpr ⟨file, found⟩, Option.bind_eq_some_iff.mpr ⟨file, found, shown⟩⟩

end Listing

end MqBridge.Registry
