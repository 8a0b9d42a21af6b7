import MqBridgeApp.Copy.Identity

/-!
# Resumable copies

`configureResume` gives the source of a copy the state that its own mechanism resumes from: a consumer group, a
cursor or a replication slot. What the user named stays.
-/

namespace MqBridge.Copy
open Text

inductive ResumeCapability where
  | native
  | cursorBased
  | externalCheckpoint
deriving DecidableEq

/-! ### Sources -/

inductive MongoConsume where
  | captureNew
  | captureAll
  | snapshot
  | consumer
deriving DecidableEq

def MongoConsume.tag : MongoConsume → Text
  | .captureNew => "capture_new"
  | .captureAll => "capture_all"
  | .snapshot => "snapshot"
  | .consumer => "consumer"

structure KafkaConfig where
  groupId : Option Text := none
  settings : List (Text × Data) := []

structure MongoDbConfig where
  consume : Option MongoConsume := none
  changeStream : Bool := false
  cursorId : Option Text := none
  settings : List (Text × Data) := []

structure PostgresCdcConfig where
  temporarySlot : Bool := false
  /-- The slot that was named. The default one stands in for it. -/
  slot : Option Text := none
  cursorId : Option Text := none
  settings : List (Text × Data) := []

def defaultSlotName : Text := "mq_bridge_slot"

def PostgresCdcConfig.slotName (config : PostgresCdcConfig) : Text := config.slot.getD defaultSlotName

structure SqlxConfig where
  publication : Option Text := none
  cursorColumn : Option Text := none
  cursorId : Option Text := none
  slotName : Option Text := none
  settings : List (Text × Data) := []

structure ClickHouseConfig where
  cursorColumn : Option Text := none
  checkpointStore : Option Text := none
  cursorId : Option Text := none
  settings : List (Text × Data) := []

structure ObjectStoreConfig where
  checkpointStore : Option Text := none
  cursorId : Option Text := none
  settings : List (Text × Data) := []

inductive FileConsumerMode where
  | consume
  | subscribe
  | groupSubscribe
deriving DecidableEq

def FileConsumerMode.tag : FileConsumerMode → Text
  | .consume => "consume"
  | .subscribe => "subscribe"
  | .groupSubscribe => "group_subscribe"

structure FileConfig where
  mode : Option FileConsumerMode := none
  settings : List (Text × Data) := []

/-- The endpoints whose configuration is looked into have a variant of their own. -/
def isLookedInto : EndpointType → Bool
  | .connector kind _ => kind ∈ [.kafka, .mongodb, .postgresCdc, .sqlx, .clickhouse, .objectStore, .file]
  | _ => false

inductive SourceType where
  | kafka (config : KafkaConfig)
  | mongodb (config : MongoDbConfig)
  | postgresCdc (config : PostgresCdcConfig)
  | sqlx (config : SqlxConfig)
  | clickhouse (config : ClickHouseConfig)
  | objectStore (config : ObjectStoreConfig)
  | file (config : FileConfig)
  | other (endpointType : EndpointType) (plain : isLookedInto endpointType = false)

structure Source where
  middlewares : List Middleware := []
  sourceType : SourceType

def SourceType.toEndpointType : SourceType → EndpointType
  | .kafka config => .connector .kafka (.record (("group_id", .option .str config.groupId) :: config.settings))
  | .mongodb config =>
    .connector .mongodb (.record (("consume", .option (fun mode => .str mode.tag) config.consume) ::
      ("change_stream", .bool config.changeStream) :: ("cursor_id", .option .str config.cursorId) :: config.settings))
  | .postgresCdc config =>
    .connector .postgresCdc (.record (("temporary_slot", .bool config.temporarySlot) ::
      ("slot_name", .str config.slotName) :: ("cursor_id", .option .str config.cursorId) :: config.settings))
  | .sqlx config =>
    .connector .sqlx (.record (("publication", .option .str config.publication) ::
      ("cursor_column", .option .str config.cursorColumn) :: ("cursor_id", .option .str config.cursorId) ::
      ("slot_name", .option .str config.slotName) :: config.settings))
  | .clickhouse config =>
    .connector .clickhouse (.record (("cursor_column", .option .str config.cursorColumn) ::
      ("checkpoint_store", .option .str config.checkpointStore) :: ("cursor_id", .option .str config.cursorId) ::
      config.settings))
  | .objectStore config =>
    .connector .objectStore (.record (("checkpoint_store", .option .str config.checkpointStore) ::
      ("cursor_id", .option .str config.cursorId) :: config.settings))
  | .file config =>
    .connector .file (.record (("mode", .option (fun mode => .str mode.tag) config.mode) :: config.settings))
  | .other endpointType _ => endpointType

def Source.toEndpoint (source : Source) : Endpoint := .mk source.middlewares source.sourceType.toEndpointType

/-! ### Resuming -/

def endpointKind : EndpointType → Text
  | .connector .amqp _ => "amqp"
  | .connector .aws _ => "aws"
  | .connector .file _ => "file"
  | .connector .grpc _ => "grpc"
  | .http _ _ => "http"
  | .connector .ibmmq _ => "ibm_mq"
  | .connector .kafka _ => "kafka"
  | .connector .memory _ => "memory"
  | .connector .mongodb _ => "mongodb"
  | .connector .mqtt _ => "mqtt"
  | .connector .nats _ => "nats"
  | .null => "null"
  | .connector .objectStore _ => "object_store"
  | .connector .postgresCdc _ => "postgres_cdc"
  | .connector .redisStreams _ => "redis_streams"
  | .connector .sqlx _ => "sql"
  | .connector .websocket _ => "websocket"
  | .connector .zeromq _ => "zeromq"
  | _ => "this endpoint"

def unsupported (source : Text) : Except Text ResumeCapability :=
  .error ("source `" ++ source ++ "` does not support resumable copy")

def postgresSlotName (stateId : Text) : Text := "mqb_" ++ replaceChar '-' '_' stateId

def getOrInsert (value : Option Text) (default : Text) : Option Text := some (value.getD default)

section
variable (stateId : Text)

def resumeMongoDb (config : MongoDbConfig) : Except Text ResumeCapability × MongoDbConfig :=
  match config.consume.getD (if config.changeStream then .captureNew else .captureAll) with
  | .captureNew | .captureAll => (.ok .cursorBased, { config with cursorId := getOrInsert config.cursorId stateId })
  | .snapshot =>
    (.error ("source `mongodb` does not support resumable copy in snapshot mode; " ++
      "use capture_all or capture_new"), config)
  | .consumer => (unsupported "mongodb consumer mode", config)

def resumePostgresCdc (config : PostgresCdcConfig) : Except Text ResumeCapability × PostgresCdcConfig :=
  if config.temporarySlot then
    (.error "source `postgres_cdc` cannot resume with temporary_slot=true; use a persistent replication slot", config)
  else
    let config :=
      if config.slotName = defaultSlotName then { config with slot := some (postgresSlotName stateId) } else config
    (.ok .native, { config with cursorId := getOrInsert config.cursorId stateId })

def resumeSqlx (config : SqlxConfig) : Except Text ResumeCapability × SqlxConfig :=
  if config.publication.isSome then
    (.ok .native,
      { config with
        cursorId := getOrInsert config.cursorId stateId
        slotName := getOrInsert config.slotName (postgresSlotName stateId) })
  else if config.cursorColumn.isNone then
    (.error ("source `sql` needs a monotonic `cursor_column` for resumable copy; " ++
      "add `?cursor_column=<column>` to --from"), config)
  else (.ok .cursorBased, { config with cursorId := getOrInsert config.cursorId stateId })

def resumeClickHouse (config : ClickHouseConfig) : Except Text ResumeCapability × ClickHouseConfig :=
  if config.cursorColumn.isNone then
    (.error "source `clickhouse` needs a monotonic `cursor_column` for resumable copy", config)
  else if config.checkpointStore.isNone then
    (.error "source `clickhouse` needs an external `checkpoint_store` for resumable copy", config)
  else (.ok .externalCheckpoint, { config with cursorId := getOrInsert config.cursorId stateId })

def resumeObjectStore (config : ObjectStoreConfig) : Except Text ResumeCapability × ObjectStoreConfig :=
  if config.checkpointStore.isNone then
    (.error "source `object_store` needs an external `checkpoint_store` for resumable copy", config)
  else (.ok .externalCheckpoint, { config with cursorId := getOrInsert config.cursorId stateId })

def resumeFile (config : FileConfig) : Except Text ResumeCapability :=
  match config.mode with
  | some .groupSubscribe =>
    .error ("source `file` has offset state, but resumable copy is not enabled because its current batch commit " ++
      "is not safe across partial failures")
  | _ => unsupported "file"

def resumeOther : EndpointType → Except Text ResumeCapability
  | .connector .nats _ =>
    .error ("source `nats` has durable JetStream consumers, but resumable copy is not enabled because the durable " ++
      "identity cannot include the destination and filter")
  | .connector .mqtt _ => unsupported "mqtt"
  | endpointType => unsupported (endpointKind endpointType)

def resumeType : SourceType → Except Text ResumeCapability × SourceType
  | .kafka config => (.ok .native, .kafka { config with groupId := getOrInsert config.groupId stateId })
  | .mongodb config => (resumeMongoDb stateId config).map id .mongodb
  | .postgresCdc config => (resumePostgresCdc stateId config).map id .postgresCdc
  | .sqlx config => (resumeSqlx stateId config).map id .sqlx
  | .clickhouse config => (resumeClickHouse stateId config).map id .clickhouse
  | .objectStore config => (resumeObjectStore stateId config).map id .objectStore
  | .file config => (resumeFile config, .file config)
  | .other endpointType plain => (resumeOther endpointType, .other endpointType plain)

end

/-- How the source resumes, with the source as it is left. -/
def configureResume (hashing : Hashing) (input : Source) (output : Endpoint) (filter : Option Text) :
    Except Text ResumeCapability × Source :=
  let stateId := checkpointIdentity hashing input.toEndpoint output filter
  let resumed := resumeType stateId input.sourceType
  (resumed.1, { input with sourceType := resumed.2 })

/-! ### What is set -/

namespace SourceType

/-- The fields that say what a source resumes from, with what the user set in them. -/
def identities : SourceType → List (Text × Option Text)
  | .kafka config => [("group_id", config.groupId)]
  | .mongodb config => [("cursor_id", config.cursorId)]
  | .postgresCdc config => [("slot_name", config.slot), ("cursor_id", config.cursorId)]
  | .sqlx config =>
    if config.publication.isSome then [("cursor_id", config.cursorId), ("slot_name", config.slotName)]
    else [("cursor_id", config.cursorId)]
  | .clickhouse config => [("cursor_id", config.cursorId)]
  | .objectStore config => [("cursor_id", config.cursorId)]
  | .file _ | .other _ _ => []

def withoutIdentities : SourceType → SourceType
  | .kafka config => .kafka { config with groupId := none }
  | .mongodb config => .mongodb { config with cursorId := none }
  | .postgresCdc config => .postgresCdc { config with slot := none, cursorId := none }
  | .sqlx config =>
    .sqlx (if config.publication.isSome then { config with cursorId := none, slotName := none }
      else { config with cursorId := none })
  | .clickhouse config => .clickhouse { config with cursorId := none }
  | .objectStore config => .objectStore { config with cursorId := none }
  | .file config => .file config
  | .other endpointType plain => .other endpointType plain

end SourceType

/-- What the user set is kept, and the rest is filled. -/
def Filled (before after : Text × Option Text) : Prop :=
  after.1 = before.1 ∧ ∃ value, after.2 = some value ∧ ∀ given ∈ before.2, given = value

structure Resumed (before after : SourceType) : Prop where
  frame : after.withoutIdentities = before.withoutIdentities
  filled : List.Forall₂ Filled before.identities after.identities

/-- A failure leaves the source as it was. Otherwise its identities are all set, nothing else changes, and
another call finds nothing to do. -/
def KeepsSource (hashing : Hashing) (input : Source) (output : Endpoint) (filter : Option Text) : Prop :=
  match configureResume hashing input output filter with
  | (.error _, after) => after = input
  | (.ok capability, after) =>
    after.middlewares = input.middlewares ∧ Resumed input.sourceType after.sourceType ∧
      ∀ output filter, configureResume hashing after output filter = (.ok capability, after)

/-- A persistent slot that the user gave the name of the default one. -/
def NamesDefaultSlot : SourceType → Prop
  | .postgresCdc config => config.temporarySlot = false ∧ config.slot = some defaultSlotName
  | _ => False

section
variable {stateId : Text} {source after : SourceType} {capability : ResumeCapability}

@[simp] theorem getOrInsert_getOrInsert (value : Option Text) (first second : Text) :
    getOrInsert (getOrInsert value first) second = getOrInsert value first := rfl

theorem filled_getOrInsert (name : Text) (value : Option Text) (default : Text) :
    Filled (name, value) (name, getOrInsert value default) := by
  refine ⟨rfl, _, rfl, ?_⟩
  rintro given rfl
  rfl

theorem postgresSlotName_ne (stateId : Text) : postgresSlotName stateId ≠ defaultSlotName := by
  simp [postgresSlotName, defaultSlotName, lit]

structure Settled (capability : ResumeCapability) (source after : SourceType) : Prop where
  frame : after.withoutIdentities = source.withoutIdentities
  again : ∀ stateId, resumeType stateId after = (.ok capability, after)
  filled : List.Forall₂ Filled source.identities after.identities ↔ ¬ NamesDefaultSlot source

theorem settled_cursor {stateId name : Text} {value : Option Text}
    (frame : after.withoutIdentities = source.withoutIdentities)
    (again : ∀ stateId, resumeType stateId after = (.ok capability, after))
    (before : source.identities = [(name, value)]) (there : after.identities = [(name, getOrInsert value stateId)])
    (other : ¬ NamesDefaultSlot source) : Settled capability source after where
  frame := frame
  again := again
  filled := by
    rw [before, there]
    exact iff_of_true (.cons (filled_getOrInsert name value stateId) .nil) other

def resumedSlot (stateId : Text) (config : PostgresCdcConfig) : Option Text :=
  if config.slotName = defaultSlotName then some (postgresSlotName stateId) else config.slot

theorem resumePostgresCdc_persistent {config : PostgresCdcConfig} (stateId : Text)
    (persistent : config.temporarySlot = false) : resumePostgresCdc stateId config = (.ok .native,
      { config with slot := resumedSlot stateId config, cursorId := getOrInsert config.cursorId stateId }) := by
  obtain ⟨temporarySlot, slot, cursorId, settings⟩ := config
  obtain rfl : temporarySlot = false := persistent
  simp only [resumePostgresCdc, Bool.false_eq_true, if_false, resumedSlot]
  split <;> rfl

theorem resumedSlot_ne (stateId : Text) (config : PostgresCdcConfig) :
    (resumedSlot stateId config).getD defaultSlotName ≠ defaultSlotName := by
  unfold resumedSlot
  split
  · exact postgresSlotName_ne stateId
  · next named => exact named

theorem filled_resumedSlot (stateId : Text) {config : PostgresCdcConfig} (persistent : config.temporarySlot = false) :
    Filled ("slot_name", config.slot) ("slot_name", resumedSlot stateId config) ↔
      ¬ NamesDefaultSlot (.postgresCdc config) := by
  obtain ⟨temporarySlot, slot, cursorId, settings⟩ := config
  cases slot with
  | none => exact iff_of_true (filled_getOrInsert _ none _) fun named => by cases named.2
  | some given =>
    by_cases same : given = defaultSlotName
    · subst same
      refine iff_of_false ?_ (not_not.mpr ⟨persistent, rfl⟩)
      rintro ⟨-, value, set, kept⟩
      obtain rfl := kept _ rfl
      exact postgresSlotName_ne stateId (Option.some.inj set)
    · have kept : resumedSlot stateId ⟨temporarySlot, some given, cursorId, settings⟩ = some given := if_neg same
      rw [kept]
      exact iff_of_true (filled_getOrInsert _ (some given) given) fun named => same (Option.some.inj named.2)

theorem settled_postgresCdc {config : PostgresCdcConfig} (stateId : Text) (persistent : config.temporarySlot = false) :
    Settled .native (.postgresCdc config) (resumeType stateId (.postgresCdc config)).2 := by
  have resumed := resumePostgresCdc_persistent stateId persistent
  simp only [resumeType, resumed, Prod.map_apply]
  constructor
  case frame => rfl
  case again =>
    intro stateId'
    let after : PostgresCdcConfig :=
      { config with slot := resumedSlot stateId config, cursorId := getOrInsert config.cursorId stateId }
    have again := @resumePostgresCdc_persistent after stateId' persistent
    have slot : resumedSlot stateId' after = after.slot := if_neg (resumedSlot_ne stateId config)
    rw [slot] at again
    exact congrArg (Prod.map id SourceType.postgresCdc) again
  case filled =>
    simp [SourceType.identities, filled_getOrInsert, filled_resumedSlot stateId persistent]

theorem resumeType_cases (stateId : Text) (source : SourceType) :
    (∃ error, resumeType stateId source = (.error error, source) ∧ ¬ NamesDefaultSlot source) ∨
      ∃ capability after, resumeType stateId source = (.ok capability, after) ∧ Settled capability source after := by
  cases source with
  | kafka config =>
    exact .inr ⟨_, _, rfl, settled_cursor rfl (fun _ => rfl) rfl rfl id⟩
  | mongodb config =>
    simp only [resumeType, resumeMongoDb]
    cases mode : config.consume.getD (if config.changeStream then .captureNew else .captureAll) with
    | captureNew =>
      exact .inr ⟨_, _, rfl, settled_cursor rfl (fun _ => by simp [resumeType, resumeMongoDb, mode]) rfl rfl id⟩
    | captureAll =>
      exact .inr ⟨_, _, rfl, settled_cursor rfl (fun _ => by simp [resumeType, resumeMongoDb, mode]) rfl rfl id⟩
    | snapshot => exact .inl ⟨_, rfl, id⟩
    | consumer => exact .inl ⟨_, rfl, id⟩
  | postgresCdc config =>
    cases temporary : config.temporarySlot with
    | true =>
      refine .inl ⟨_, by simp only [resumeType, resumePostgresCdc, temporary]; rfl, fun named => ?_⟩
      simp [NamesDefaultSlot, temporary] at named
    | false =>
      refine .inr ⟨.native, _, ?_, settled_postgresCdc stateId temporary⟩
      simp only [resumeType, resumePostgresCdc, temporary]
      rfl
  | sqlx config =>
    simp only [resumeType, resumeSqlx]
    split
    · next cdc =>
      refine .inr ⟨_, _, rfl, ?_, fun _ => by simp [resumeType, resumeSqlx, cdc], iff_of_true ?_ id⟩
      · simp [SourceType.withoutIdentities, cdc]
      · simp [SourceType.identities, cdc, filled_getOrInsert]
    · next polled =>
      split
      · exact .inl ⟨_, rfl, id⟩
      · next column =>
        refine .inr ⟨_, _, rfl, ?_, fun _ => by simp [resumeType, resumeSqlx, polled, column], iff_of_true ?_ id⟩
        · simp [SourceType.withoutIdentities, polled]
        · simp [SourceType.identities, polled, filled_getOrInsert]
  | clickhouse config =>
    simp only [resumeType, resumeClickHouse]
    split
    · exact .inl ⟨_, rfl, id⟩
    · next column =>
      split
      · exact .inl ⟨_, rfl, id⟩
      · next store =>
        exact .inr ⟨_, _, rfl,
          settled_cursor rfl (fun _ => by simp [resumeType, resumeClickHouse, column, store]) rfl rfl id⟩
  | objectStore config =>
    simp only [resumeType, resumeObjectStore]
    split
    · exact .inl ⟨_, rfl, id⟩
    · next store =>
      exact .inr ⟨_, _, rfl, settled_cursor rfl (fun _ => by simp [resumeType, resumeObjectStore, store]) rfl rfl id⟩
  | file config =>
    simp only [resumeType, resumeFile]
    split <;> exact .inl ⟨_, rfl, id⟩
  | other endpointType plain =>
    simp only [resumeType]
    unfold resumeOther
    split <;> exact .inl ⟨_, rfl, id⟩

end

/-- `configureResume` keeps what the user set, unless that is a persistent slot with the name of the default one. -/
theorem configureResume_keeps_iff (hashing : Hashing) (input : Source) (output : Endpoint) (filter : Option Text) :
    KeepsSource hashing input output filter ↔ ¬ NamesDefaultSlot input.sourceType := by
  unfold KeepsSource configureResume
  rcases resumeType_cases (checkpointIdentity hashing input.toEndpoint output filter) input.sourceType with
    ⟨error, failed, other⟩ | ⟨capability, after, resumed, settled⟩
  · simp only [failed]
    exact iff_of_true trivial other
  · simp only [resumed, settled.again]
    constructor
    · rintro ⟨-, kept, -⟩
      exact settled.filled.mp kept.filled
    · intro other
      exact ⟨trivial, ⟨settled.frame, settled.filled.mpr other⟩, fun _ _ => trivial⟩

/-- A slot of the default name, which the user asked for. -/
def namedSlotSource : Source where
  sourceType := .postgresCdc { slot := some "mq_bridge_slot" }

theorem named_slot_replaced : ¬ KeepsSource plainHashing namedSlotSource (.new .null) none := by
  rintro ⟨-, kept, -⟩
  obtain ⟨-, value, set, given⟩ := (List.forall₂_cons.mp kept.filled).1
  obtain rfl := given _ rfl
  exact absurd (Option.some.inj set) (postgresSlotName_ne _)

end MqBridge.Copy
