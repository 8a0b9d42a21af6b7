import MqBridgeApp.Lib.Assoc
import MqBridgeApp.Registry.Status

/-!
# The directory of leases

A record is written to a temporary file that then takes the place of the lease. A reader goes through
the directory and removes what has had its time or cannot be a lease.
-/

namespace MqBridge.Registry
open Text

structure LeaseFile where
  bytes : List UInt8
  /-- When the file was last written, in milliseconds. -/
  modified : Nat
deriving DecidableEq

abbrev Directory := List (Text × LeaseFile)

namespace Directory

def removeFile (dir : Directory) (name : Text) : Directory := dir.filter fun entry => entry.1 != name

/-- Opens a file that must not be there yet. -/
def createNew (dir : Directory) (name : Text) (clock : Nat) : Option Directory :=
  if (dir.lookup name).isSome then none else some (Assoc.insert dir (name, ⟨[], clock⟩))

/-- Writes to an open file, which may have lost its name. -/
def writeAll (dir : Directory) (name : Text) (bytes : List UInt8) (clock : Nat) : Directory :=
  if (dir.lookup name).isSome then Assoc.insert dir (name, ⟨bytes, clock⟩) else dir

def rename (dir : Directory) (source target : Text) : Option Directory :=
  (dir.lookup source).map fun file => Assoc.insert (dir.removeFile source) (target, file)

end Directory

def validInstanceId (instanceId : Text) : Bool :=
  !instanceId.isEmpty && instanceId.all fun c => c.isAlphanum || c == '-'

def leasePath (instanceId : Text) : Except Text Text :=
  if validInstanceId instanceId then .ok (instanceId ++ ".json") else .error "invalid instance id"

def temporaryName (instanceId token : Text) : Text := "." ++ instanceId ++ "." ++ token ++ ".tmp"

/-- What follows the last dot of a name, when something precedes it. -/
def extension (name : Text) : Option Text :=
  (rsplitOnce '.' name).bind fun (stem, rest) => if stem.isEmpty then none else some rest

def maxRecordBytes : Nat := 256 * 1024

/-- The JSON form of records. A double is read back as `reread` says. -/
structure Codec where
  toVec : InstanceStatus → List UInt8
  fromSlice : List UInt8 → Option InstanceStatus
  reread : F64 → F64

structure Publication where
  path : Text
  temporary : Text
  bytes : List UInt8

section
variable (codec : Codec)

def preparePublication (status : InstanceStatus) (token : Text) : Except Text Publication :=
  let status := status.sanitized
  match leasePath status.instanceId with
  | .error error => .error error
  | .ok path =>
    let bytes := codec.toVec status
    if maxRecordBytes < bytes.length then .error "status record exceeds size limit"
    else .ok { path, temporary := temporaryName status.instanceId token, bytes }

def publish (clock : Nat) (dir : Directory) (status : InstanceStatus) (token : Text) : Directory × Except Text Unit :=
  match preparePublication codec status token with
  | .error error => (dir, .error error)
  | .ok ready =>
    match dir.createNew ready.temporary clock with
    | none => (dir, .error "File exists (os error 17)")
    | some created =>
      let written := created.writeAll ready.temporary ready.bytes clock
      match written.rename ready.temporary ready.path with
      | none => (written.removeFile ready.temporary, .error "No such file or directory (os error 2)")
      | some renamed => (renamed, .ok ())

def remove (dir : Directory) (instanceId : Text) : Directory × Except Text Unit :=
  match leasePath instanceId with
  | .error error => (dir, .error error)
  | .ok path => (dir.removeFile path, .ok ())

def isAbandonedTemporary (clock : Nat) (name : Text) (file : LeaseFile) : Bool :=
  extension name == some ("tmp" : Text) && name.head? == some '.' && decide (leaseTtl < clock - file.modified)

inductive Glance where
  | pass
  | remove
  | read

/-- What a reader makes of a file's name and metadata. -/
def glance (clock : Nat) (name : Text) (file : LeaseFile) : Glance :=
  if extension name = some ("json" : Text) then
    if maxRecordBytes < file.bytes.length then .remove else .read
  else if isAbandonedTemporary clock name file then .remove
  else .pass

inductive Verdict where
  | pass
  | remove
  | present (status : InstanceStatus)

def judge (now : Nat) (bytes : List UInt8) : Verdict :=
  match codec.fromSlice bytes with
  | none => .remove
  | some status =>
    if status.schemaVersion ≠ statusSchemaVersion then .pass
    else if status.isFresh now then .present status.sanitized
    else .remove

def visit (now : Nat) (dir : Directory) (name : Text) : Directory × Option InstanceStatus :=
  match dir.lookup name with
  | none => (dir, none)
  | some file =>
    match glance now name file with
    | .pass => (dir, none)
    | .remove => (dir.removeFile name, none)
    | .read =>
      match judge codec now file.bytes with
      | .pass => (dir, none)
      | .remove => (dir.removeFile name, none)
      | .present status => (dir, some status)

def visitAll (now : Nat) : Directory → List Text → Directory × List InstanceStatus
  | dir, [] => (dir, [])
  | dir, name :: rest =>
    let (dir, found) := visit codec now dir name
    let (dir, others) := visitAll now dir rest
    (dir, found.toList ++ others)

/-- The records in the directory, read in the order that the system gives its names in. -/
def list (readDir : Directory → List Text) (now : Nat) (dir : Directory) : Directory × List InstanceStatus :=
  let (dir, statuses) := visitAll codec now dir (readDir dir)
  (dir, statuses.mergeSort fun left right => textLe left.instanceId right.instanceId)

end

end MqBridge.Registry
