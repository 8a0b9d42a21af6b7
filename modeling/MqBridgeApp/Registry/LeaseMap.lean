import MqBridgeApp.Lib.JsonText
import MqBridgeApp.Registry.Leases

/-!
# The directory as a map

The leases in the directory are those that the events of a run leave, and a list shows them sorted.
-/

namespace MqBridge.Registry
open Text

section
variable {codec : Codec} {now : Nat}

theorem outcome_lease {status : InstanceStatus} {clock : Nat} (valid : validInstanceId status.instanceId = true)
    (small : (codec.toVec status.sanitized).length ≤ maxRecordBytes) (reads : codec.Reads status) :
    outcome codec now (status.instanceId ++ ".json") ⟨codec.toVec status.sanitized, clock⟩ =
      if status.schemaVersion ≠ statusSchemaVersion then .pass
      else if status.isFresh now then .present (codec.presented status)
      else .remove := by
  have read : glance now (status.instanceId ++ ".json") ⟨codec.toVec status.sanitized, clock⟩ = .read := by
    rw [glance, if_pos (extension_lease valid), if_neg (Nat.not_lt.mpr small)]
  rw [outcome, read]
  show judge codec now _ = _
  rw [judge, reads]
  rfl

theorem outcome_foreign {name : Text} {file : LeaseFile} (foreign : Foreign codec file) :
    (outcome codec now name file).status = none := by
  unfold outcome
  cases glance now name file with
  | pass => rfl
  | remove => rfl
  | read =>
    show (judge codec now file.bytes).status = none
    unfold judge
    cases parsed : codec.fromSlice file.bytes with
    | none => rfl
    | some status =>
      dsimp only
      rw [if_pos (foreign status parsed)]
      rfl

theorem outcome_version {name : Text} {file : LeaseFile} {status : InstanceStatus}
    (lease : extension name = some ("json" : Text)) (small : file.bytes.length ≤ maxRecordBytes)
    (parsed : codec.fromSlice file.bytes = some status) (version : status.schemaVersion ≠ statusSchemaVersion) :
    outcome codec now name file = .pass := by
  have read : glance now name file = .read := by rw [glance, if_pos lease, if_neg (Nat.not_lt.mpr small)]
  rw [outcome, read]
  show judge codec now _ = _
  rw [judge, parsed]
  exact if_pos version

theorem outcome_other {name : Text} {file : LeaseFile} (other : extension name ≠ some ("json" : Text)) :
    (outcome codec now name file).status = none := by
  unfold outcome glance
  rw [if_neg other]
  cases isAbandonedTemporary now name file <;> rfl

end

/-! ### The map -/

def Operation.subject : Operation → Option Text
  | .publish _ status _ => some status.instanceId
  | .remove instanceId => some instanceId
  | .list _ => none

def Operation.Readable (codec : Codec) : Operation → Prop
  | .publish _ status _ => codec.Reads status
  | .remove _ => True
  | .list _ => True

/-- The directory holds the leases, and no other record of this version. -/
structure Holds (codec : Codec) (dir : Directory) (leases : Text → Option InstanceStatus) : Prop where
  distinct : (dir.map Prod.fst).Nodup
  named : ∀ {id status}, leases id = some status → status.instanceId = id ∧ validInstanceId id = true
  read : ∀ {id status}, leases id = some status →
    codec.Reads status ∧ (codec.toVec status.sanitized).length ≤ maxRecordBytes
  file : ∀ {id status}, leases id = some status →
    ∃ clock, dir.lookup (id ++ ".json") = some ⟨codec.toVec status.sanitized, clock⟩
  others : ∀ {name file}, dir.lookup name = some file → extension name = some ("json" : Text) →
    (∃ id status, leases id = some status ∧ name = id ++ ".json") ∨ Foreign codec file

section
variable {codec : Codec} {dir after : Directory} {leases : Text → Option InstanceStatus} {clock now : Nat}

theorem leave_published {id : Text} {status : InstanceStatus} {current : Option InstanceStatus} :
    (Event.published status).leave id current = if status.instanceId = id then some status else current := rfl

theorem leave_removed {id other : Text} {current : Option InstanceStatus} :
    (Event.removed other).leave id current = if other = id then none else current := rfl

theorem holds_publish {status : InstanceStatus} {token : Text} (holds : Holds codec dir leases)
    (reads : codec.Reads status) (published : publish codec clock dir status token = (after, .ok ())) :
    Holds codec after fun id => (Event.published status).leave id (leases id) := by
  obtain ⟨valid, small, lookup, distinct⟩ := publish_ok published
  refine ⟨distinct holds.distinct, ?_, ?_, ?_, ?_⟩
  · intro id lease found
    rw [leave_published] at found
    split at found
    · next same =>
      obtain rfl := Option.some.inj found
      exact ⟨same, same ▸ valid⟩
    · exact holds.named found
  · intro id lease found
    rw [leave_published] at found
    split at found
    · obtain rfl := Option.some.inj found
      exact ⟨reads, small⟩
    · exact holds.read found
  · intro id lease found
    rw [lookup]
    rw [leave_published] at found
    split at found
    · next same =>
      obtain rfl := Option.some.inj found
      exact ⟨clock, if_pos (by rw [same])⟩
    · next other =>
      rw [if_neg fun same => other (leaseName_inj same).symm]
      exact holds.file found
  · intro name file found json
    rw [lookup] at found
    split at found
    · next same => exact .inl ⟨status.instanceId, status, if_pos rfl, same⟩
    · next apart =>
      rcases holds.others found json with ⟨id, lease, held, rfl⟩ | foreign
      · refine .inl ⟨id, lease, ?_, rfl⟩
        rw [leave_published, if_neg fun same => apart (by rw [same])]
        exact held
      · exact .inr foreign

theorem holds_remove {instanceId : Text} (holds : Holds codec dir leases)
    (removed : remove dir instanceId = (after, .ok ())) :
    Holds codec after fun id => (Event.removed instanceId).leave id (leases id) := by
  obtain rfl := remove_ok removed
  have kept : ∀ {id lease}, (Event.removed instanceId).leave id (leases id) = some lease →
      instanceId ≠ id ∧ leases id = some lease := by
    intro id lease found
    rw [leave_removed] at found
    split at found
    · cases found
    · next other => exact ⟨other, found⟩
  refine ⟨nodup_removeFile holds.distinct, ?_, ?_, ?_, ?_⟩
  · intro id lease found
    exact holds.named (kept found).2
  · intro id lease found
    exact holds.read (kept found).2
  · intro id lease found
    rw [lookup_removeFile, if_neg fun same => (kept found).1 (leaseName_inj same).symm]
    exact holds.file (kept found).2
  · intro name file found json
    rw [lookup_removeFile] at found
    split at found
    · cases found
    · next apart =>
      rcases holds.others found json with ⟨id, lease, held, rfl⟩ | foreign
      · refine .inl ⟨id, lease, ?_, rfl⟩
        rw [leave_removed, if_neg fun same => apart (by rw [same])]
        exact held
      · exact .inr foreign

theorem removes_lease {status : InstanceStatus} (valid : validInstanceId status.instanceId = true)
    (small : (codec.toVec status.sanitized).length ≤ maxRecordBytes) (reads : codec.Reads status) :
    (outcome codec now (status.instanceId ++ ".json") ⟨codec.toVec status.sanitized, clock⟩).removes =
      !status.lasts now := by
  rw [outcome_lease valid small reads, InstanceStatus.lasts]
  by_cases version : status.schemaVersion = statusSchemaVersion
  · rw [if_neg (not_not.mpr version), bne_eq_false_iff_eq.mpr version, Bool.false_or]
    cases status.isFresh now <;> rfl
  · rw [if_pos version, bne_iff_ne.mpr version]
    rfl

variable {readDir : Directory → List Text} (complete : ∀ dir, (readDir dir).Perm (dir.map Prod.fst))
include complete

theorem holds_list (holds : Holds codec dir leases) :
    Holds codec (list codec readDir now dir).1 fun id => (leases id).filter fun status => status.lasts now := by
  have kept : ∀ {id lease}, (leases id).filter (fun status => status.lasts now) = some lease →
      leases id = some lease ∧ lease.lasts now = true := Option.filter_eq_some_iff.mp
  refine ⟨nodup_visitAll holds.distinct, ?_, ?_, ?_, ?_⟩
  · intro id lease found
    exact holds.named (kept found).1
  · intro id lease found
    exact holds.read (kept found).1
  · intro id lease found
    obtain ⟨held, lasts⟩ := kept found
    obtain ⟨rfl, valid⟩ := holds.named held
    obtain ⟨reads, small⟩ := holds.read held
    obtain ⟨clock, there⟩ := holds.file held
    refine ⟨clock, ?_⟩
    rw [lookup_list complete holds.distinct there, removes_lease valid small reads, lasts]
    rfl
  · intro name file found json
    cases before : dir.lookup name with
    | none =>
      rw [lookup_list_missing complete before] at found
      cases found
    | some old =>
      rw [lookup_list complete holds.distinct before] at found
      split at found
      · cases found
      · next stays =>
        obtain rfl := Option.some.inj found
        rcases holds.others before json with ⟨id, lease, held, rfl⟩ | foreign
        · obtain ⟨rfl, valid⟩ := holds.named held
          obtain ⟨reads, small⟩ := holds.read held
          obtain ⟨clock, there⟩ := holds.file held
          obtain rfl := Option.some.inj (before.symm.trans there)
          rw [removes_lease valid small reads, Bool.not_eq_true', Bool.not_eq_false] at stays
          exact .inl ⟨lease.instanceId, lease, Option.filter_eq_some_iff.mpr ⟨held, stays⟩, rfl⟩
        · exact .inr foreign

theorem holds_act {operation : Operation} (holds : Holds codec dir leases) (reads : operation.Readable codec) :
    Holds codec (dir.act codec readDir operation).1 fun id =>
      (dir.act codec readDir operation).2.toList.foldl (Event.leave id) (leases id) := by
  cases operation with
  | publish clock status token =>
    cases result : publish codec clock dir status token with
    | mk after outcome =>
      cases outcome with
      | error error =>
        have acted : dir.act codec readDir (.publish clock status token) = (after, none) := by
          simp only [Directory.act, result]
        rw [acted, publish_error result]
        exact holds
      | ok _ =>
        have acted : dir.act codec readDir (.publish clock status token) = (after, some (.published status)) := by
          simp only [Directory.act, result]
        rw [acted]
        exact holds_publish holds reads result
  | remove instanceId =>
    cases result : remove dir instanceId with
    | mk after outcome =>
      cases outcome with
      | error error =>
        have acted : dir.act codec readDir (.remove instanceId) = (after, none) := by
          simp only [Directory.act, result]
        rw [acted, remove_error result]
        exact holds
      | ok _ =>
        have acted : dir.act codec readDir (.remove instanceId) = (after, some (.removed instanceId)) := by
          simp only [Directory.act, result]
        rw [acted]
        exact holds_remove holds result
  | list now => exact holds_list complete holds

theorem holds_run {operations : List Operation} (holds : Holds codec dir leases)
    (reads : ∀ operation ∈ operations, operation.Readable codec) :
    Holds codec (dir.run codec readDir operations).1 fun id =>
      (dir.run codec readDir operations).2.foldl (Event.leave id) (leases id) := by
  induction operations generalizing dir leases with
  | nil => exact holds
  | cons operation rest ih =>
    have first := holds_act complete holds (reads operation List.mem_cons_self)
    have later := ih first fun operation member => reads operation (List.mem_cons_of_mem _ member)
    simp only [Directory.run, List.foldl_append]
    exact later

omit complete in
/-- A file that is listed is the lease of its instance, fresh and of the version that is read. -/
theorem lease_of_listed (holds : Holds codec dir leases) {name : Text} {status : InstanceStatus}
    (listed : listedAt codec now dir name = some status) :
    ∃ id published, leases id = some published ∧ name = id ++ ".json" ∧ published.schemaVersion = statusSchemaVersion ∧
      published.isFresh now = true ∧ status = codec.presented published := by
  obtain ⟨file, found, shown⟩ := Option.bind_eq_some_iff.mp listed
  by_cases json : extension name = some ("json" : Text)
  · rcases holds.others found json with ⟨id, lease, held, rfl⟩ | foreign
    · obtain ⟨rfl, valid⟩ := holds.named held
      obtain ⟨reads, small⟩ := holds.read held
      obtain ⟨clock, there⟩ := holds.file held
      obtain rfl := Option.some.inj (found.symm.trans there)
      rw [outcome_lease valid small reads] at shown
      split at shown
      · cases shown
      · next version =>
        split at shown
        · next fresh => exact ⟨_, lease, held, rfl, not_not.mp version, fresh, (Option.some.inj shown).symm⟩
        · cases shown
    · rw [outcome_foreign foreign] at shown
      cases shown
  · rw [outcome_other json] at shown
    cases shown

theorem mem_list_lease (holds : Holds codec dir leases) {status : InstanceStatus} :
    status ∈ (list codec readDir now dir).2 ↔ ∃ id published, leases id = some published ∧
      published.schemaVersion = statusSchemaVersion ∧ published.isFresh now = true ∧
      status = codec.presented published := by
  rw [mem_list complete holds.distinct]
  constructor
  · rintro ⟨name, file, found, shown⟩
    have listed : listedAt codec now dir name = some status := Option.bind_eq_some_iff.mpr ⟨file, found, shown⟩
    obtain ⟨id, published, held, -, version, fresh, same⟩ := lease_of_listed holds listed
    exact ⟨id, published, held, version, fresh, same⟩
  · rintro ⟨id, lease, held, version, fresh, rfl⟩
    obtain ⟨rfl, valid⟩ := holds.named held
    obtain ⟨reads, small⟩ := holds.read held
    obtain ⟨clock, there⟩ := holds.file held
    refine ⟨_, _, there, ?_⟩
    rw [outcome_lease valid small reads, if_neg (not_not.mpr version), if_pos fresh]
    rfl

omit complete in
theorem listedAt_name (holds : Holds codec dir leases) {name : Text} {status : InstanceStatus}
    (listed : listedAt codec now dir name = some status) : name = status.instanceId ++ ".json" := by
  obtain ⟨id, published, held, rfl, -, -, rfl⟩ := lease_of_listed holds listed
  obtain ⟨rfl, -⟩ := holds.named held
  rfl

theorem list_sorted (holds : Holds codec dir leases) :
    (list codec readDir now dir).2.Pairwise fun left right =>
      textLe left.instanceId right.instanceId = true ∧ left.instanceId ≠ right.instanceId := by
  have sorted (statuses : List InstanceStatus) :
      (statuses.mergeSort fun left right => textLe left.instanceId right.instanceId).Pairwise fun left right =>
        textLe left.instanceId right.instanceId = true := by
    apply List.pairwise_mergeSort
    · intro a b c
      exact textLe_trans
    · intro a b
      exact textLe_total a.instanceId b.instanceId
  have same : (list codec readDir now dir).2.Perm ((readDir dir).filterMap (listedAt codec now dir)) := by
    rw [← visitAll_statuses (nodup_readDir complete holds.distinct)]
    exact List.mergeSort_perm _ _
  have ids : ((list codec readDir now dir).2.map InstanceStatus.instanceId).Nodup := by
    rw [(same.map _).nodup_iff, List.map_filterMap]
    apply (nodup_readDir complete holds.distinct).filterMap
    intro first second id shown shown'
    obtain ⟨status, listed, rfl⟩ := Option.map_eq_some_iff.mp shown
    obtain ⟨status', listed', same⟩ := Option.map_eq_some_iff.mp shown'
    rw [listedAt_name holds listed, listedAt_name holds listed', same]
  exact (sorted _).and (List.pairwise_map.mp ids)

end

/-! ### The registry -/

theorem leave_other {codec : Codec} {readDir : Directory → List Text} {dir : Directory} {operation : Operation}
    {id other : Text} {current : Option InstanceStatus} (subject : operation.subject = some other) (apart : id ≠ other) :
    (dir.act codec readDir operation).2.toList.foldl (Event.leave id) current = current := by
  cases operation with
  | publish clock status token =>
    obtain rfl := Option.some.inj subject
    unfold Directory.act
    dsimp only
    split
    · exact if_neg (Ne.symm apart)
    · rfl
  | remove instanceId =>
    obtain rfl := Option.some.inj subject
    unfold Directory.act
    dsimp only
    split
    · exact if_neg (Ne.symm apart)
    · rfl
  | list now => cases subject

/-- A list after a run gives the leases that are fresh and of this version, sorted. It leaves what it can read of
other versions, and what it gives of an instance is untouched by the calls of others. -/
theorem list_after_run {codec : Codec} {readDir : Directory → List Text} {dir : Directory} {operations : List Operation}
    (complete : ∀ dir, (readDir dir).Perm (dir.map Prod.fst)) (distinct : (dir.map Prod.fst).Nodup)
    (foreign : ∀ {name file}, dir.lookup name = some file → extension name = some ("json" : Text) → Foreign codec file)
    (reads : ∀ operation ∈ operations, operation.Readable codec) (now : Nat) :
    let after := (dir.run codec readDir operations).1
    let events := (dir.run codec readDir operations).2
    let left := (list codec readDir now after).1
    let statuses := (list codec readDir now after).2
    (statuses.Pairwise fun first second =>
      textLe first.instanceId second.instanceId = true ∧ first.instanceId ≠ second.instanceId) ∧
    (∀ status, status ∈ statuses ↔ ∃ id published, leaseOf id events = some published ∧
      published.schemaVersion = statusSchemaVersion ∧ published.isFresh now = true ∧
      status = codec.presented published) ∧
    (∀ name file status, after.lookup name = some file → extension name = some ("json" : Text) →
      file.bytes.length ≤ maxRecordBytes → codec.fromSlice file.bytes = some status →
      status.schemaVersion ≠ statusSchemaVersion → left.lookup name = some file) ∧
    ∀ operation other, operation.Readable codec → operation.subject = some other →
      ∀ status, status.instanceId ≠ other →
        (status ∈ (list codec readDir now (after.act codec readDir operation).1).2 ↔ status ∈ statuses) := by
  have initial : Holds codec dir fun _ => none :=
    ⟨distinct, nofun, nofun, nofun, fun found json => .inr (foreign found json)⟩
  have holds := holds_run complete initial reads
  refine ⟨list_sorted complete holds, fun status => mem_list_lease complete holds, ?_, ?_⟩
  · intro name file status found lease small parsed version
    have stays : (list codec readDir now (dir.run codec readDir operations).1).1.lookup name = _ :=
      lookup_list complete holds.distinct found
    rw [outcome_version lease small parsed version] at stays
    exact stays
  · intro operation other readable subject status apart
    have further := holds_act complete holds readable
    refine (mem_list_lease complete further).trans (Iff.trans ?_ (mem_list_lease complete holds).symm)
    constructor
    · rintro ⟨id, published, held, version, fresh, rfl⟩
      obtain ⟨rfl, -⟩ := further.named held
      have apart : published.instanceId ≠ other := apart
      rw [leave_other subject apart] at held
      exact ⟨_, published, held, version, fresh, rfl⟩
    · rintro ⟨id, published, held, version, fresh, rfl⟩
      obtain ⟨rfl, -⟩ := holds.named held
      have apart : published.instanceId ≠ other := apart
      exact ⟨_, published, (leave_other subject apart).trans held, version, fresh, rfl⟩

def InstanceKind.name : InstanceKind → Text
  | .cli => "cli"
  | .webUi => "web-ui"
  | .mcp => "mcp"
  | .tauri => "tauri"

/-- The JSON text of a record in which nothing runs, in ASCII. -/
def idleBytes (status : InstanceStatus) : List UInt8 :=
  let fields : List (Text × Json) := [
    ("schema_version", .num (.ofNat status.schemaVersion)), ("instance_id", .str status.instanceId),
    ("pid", .num (.ofNat status.pid)), ("kind", .str status.kind.name),
    ("application_version", .str status.applicationVersion), ("started_at_ms", .num (.ofNat status.startedAtMs)),
    ("last_seen_at_ms", .num (.ofNat status.lastSeenAtMs)), ("workspace_id", .str status.workspaceId),
    ("workspace_label", .str status.workspaceLabel), ("consumers", .arr []), ("publishers", .arr []),
    ("routes", .arr [])]
  (Json.render (.obj fields)).map fun c => c.toNat.toUInt8

def idleCodec (known : List InstanceStatus) : Codec where
  toVec := idleBytes
  fromSlice bytes := known.find? fun status => idleBytes status == bytes
  reread := id

def startedStatus : InstanceStatus where
  schemaVersion := statusSchemaVersion
  instanceId := "a"
  pid := 1
  kind := .cli
  applicationVersion := "1"
  startedAtMs := 100000
  lastSeenAtMs := 100000
  workspaceId := "w"
  workspaceLabel := "config"

def secondStatus : InstanceStatus := { startedStatus with instanceId := "b", pid := 2 }

def newerStatus : InstanceStatus := { startedStatus with instanceId := "c", pid := 3, schemaVersion := statusSchemaVersion + 1 }

def threeStatuses : List InstanceStatus := [startedStatus, secondStatus, newerStatus]

theorem threeStatuses_read : ∀ status ∈ threeStatuses, (idleCodec threeStatuses).Reads status := by
  have plain : threeStatuses.all (fun status => decide (status.sanitized = status) &&
      threeStatuses.find? (fun other => idleBytes other == idleBytes status) == some status) = true := by decide +kernel
  intro status member
  have both := List.all_eq_true.mp plain status member
  rw [Bool.and_eq_true, decide_eq_true_eq, beq_iff_eq] at both
  have same : status.mapThroughput id = status := by
    rcases List.mem_cons.mp member with rfl | later
    · rfl
    · rcases List.mem_cons.mp later with rfl | last
      · rfl
      · rw [List.mem_singleton.mp last]
        rfl
  rw [Codec.Reads, both.1]
  exact both.2.trans (congrArg some same.symm)

def namesOf (dir : Directory) : List Text := dir.map Prod.fst

/-- Three instances publish, and the second one is removed. -/
def mixedRun : List Operation :=
  [.publish 100000 startedStatus "t", .publish 100000 secondStatus "u", .publish 100000 newerStatus "v", .remove "b"]

def newerFile : LeaseFile := ⟨idleBytes newerStatus, 100000⟩

theorem mixedRun_leaves : (Directory.run (idleCodec threeStatuses) namesOf [] mixedRun).2 =
    [.published startedStatus, .published secondStatus, .published newerStatus, .removed "b"] := by
  decide +kernel

theorem list_after_run_mixed :
    let after := (Directory.run (idleCodec threeStatuses) namesOf [] mixedRun).1
    let listed := list (idleCodec threeStatuses) namesOf 101000 after
    startedStatus ∈ listed.2 ∧ secondStatus ∉ listed.2 ∧ listed.1.lookup ("c.json" : Text) = some newerFile := by
  have readable : ∀ operation ∈ mixedRun, operation.Readable (idleCodec threeStatuses) := by
    simp only [mixedRun, List.forall_mem_cons]
    exact ⟨threeStatuses_read _ (.head _), threeStatuses_read _ (.tail _ (.head _)),
      threeStatuses_read _ (.tail _ (.tail _ (.head _))), trivial, List.forall_mem_nil _⟩
  obtain ⟨-, listed, kept, -⟩ := @list_after_run (idleCodec threeStatuses) namesOf [] mixedRun (fun _ => .refl _)
    List.nodup_nil nofun readable 101000
  refine ⟨(listed _).mpr ⟨"a", startedStatus, ?_, rfl, by decide, by decide⟩, fun shown => ?_, ?_⟩
  · rw [mixedRun_leaves]
    decide
  · obtain ⟨id, published, held, -, -, same⟩ := (listed _).mp shown
    have named : published.instanceId = ("b" : Text) := congrArg InstanceStatus.instanceId same.symm
    rw [mixedRun_leaves] at held
    simp only [leaseOf, List.foldl_cons, List.foldl_nil, Event.leave] at held
    split at held
    · cases held
    · rename_i other
      split at held
      · rw [← Option.some.inj held] at named
        exact absurd named (by decide)
      · rw [if_neg (show ¬secondStatus.instanceId = id from other)] at held
        split at held
        · rw [← Option.some.inj held] at named
          exact absurd named (by decide)
        · cases held
  · refine kept "c.json" newerFile newerStatus ?_ (by decide) ?_ ?_ (by decide)
    · decide +kernel
    · decide +kernel
    · decide +kernel

/-- A reader whose clock is late removes a lease that a later list would still show. -/
theorem late_reader_drops_a_lease :
    (publish (idleCodec [startedStatus]) 100000 [] startedStatus "t").2 = .ok () ∧
      startedStatus.isFresh 100000 = true ∧ startedStatus.schemaVersion = statusSchemaVersion ∧
      (list (idleCodec [startedStatus]) namesOf 100000 (Directory.run (idleCodec [startedStatus]) namesOf []
        [.publish 100000 startedStatus "t", .list 200000]).1).2 = [] := by
  refine ⟨by decide +kernel, by decide, rfl, ?_⟩
  have emptied : (Directory.run (idleCodec [startedStatus]) namesOf []
      [.publish 100000 startedStatus "t", .list 200000]).1 = [] := by decide +kernel
  rw [emptied]
  exact List.mergeSort_nil

end MqBridge.Registry
