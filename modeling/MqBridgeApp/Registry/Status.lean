import MqBridgeApp.Lib.Text

/-!
# Status records

What a process tells the others of itself, and how it is scrubbed before it is written or shown.
-/

namespace MqBridge.Registry
open Text

structure F64 where
  bits : BitVec 64
deriving DecidableEq

namespace F64

def zero : F64 := ⟨0⟩

def isFinite (x : F64) : Bool := x.bits.extractLsb' 52 11 != 0x7FF

def isNan (x : F64) : Bool := !x.isFinite && x.bits.extractLsb' 0 52 != 0

/-- Whether the number is less than zero, which a negative zero is not. -/
def isNegative (x : F64) : Bool := x.bits.msb && !x.isNan && x.bits.extractLsb' 0 63 != 0

end F64

inductive InstanceKind where
  | cli
  | webUi
  | mcp
  | tauri
deriving DecidableEq

structure StatusSummary where
  running : Bool := false
  healthy : Bool := false
  pending : Option Nat := none
  capacity : Option Nat := none
  error : Option Text := none
  throughput : F64 := .zero
  messageSequence : Nat := 0
deriving DecidableEq

structure StatusEntity where
  id : Text := []
  label : Text := []
  endpoint : Text := []
  summary : StatusSummary := {}
deriving DecidableEq

structure StatusRoute where
  id : Text := []
  label : Text := []
  input : StatusEntity := {}
  output : StatusEntity := {}
  summary : StatusSummary := {}
deriving DecidableEq

structure InstanceStatus where
  schemaVersion : Nat
  instanceId : Text
  pid : Nat
  kind : InstanceKind
  applicationVersion : Text
  startedAtMs : Nat
  lastSeenAtMs : Nat
  workspaceId : Text
  workspaceLabel : Text
  consumers : List StatusEntity := []
  publishers : List StatusEntity := []
  routes : List StatusRoute := []
deriving DecidableEq

def statusSchemaVersion : Nat := 1

def leaseTtl : Nat := 7000

def maxTextChars : Nat := 256

/-- A lease counts from a minute before it was written, for clocks that differ, until its time is over. -/
def InstanceStatus.isFresh (status : InstanceStatus) (now : Nat) : Bool :=
  decide (status.lastSeenAtMs ≤ now + 60000) && decide (now - status.lastSeenAtMs ≤ leaseTtl)

/-- The characters with the Unicode category `Cc`. -/
def isControl (c : Char) : Bool := c.toNat < 0x20 || (0x7F ≤ c.toNat && c.toNat ≤ 0x9F)

def sanitizeText (value : Text) : Text := (value.filter fun c => !isControl c).take maxTextChars

def sensitiveWords : List Text := ["://", "@", "password", "secret", "token"]

def isSensitive (value : Text) : Bool :=
  sensitiveWords.any fun word => decide (word <:+: toAsciiLowercase value)

def sanitizeLabel (value : Text) : Text := if isSensitive value then "redacted" else sanitizeText value

def isEndpointChar (c : Char) : Bool := c.isAlphanum || c == '_' || c == '-'

def sanitizeEndpoint (value : Text) : Text :=
  let value := toAsciiLowercase (trim value)
  if value.all isEndpointChar then value.take 64 else "unknown"

def sanitizeSummary (summary : StatusSummary) : StatusSummary :=
  { summary with
    error := summary.error.map fun _ => "error"
    throughput := if !summary.throughput.isFinite || summary.throughput.isNegative then .zero else summary.throughput }

def sanitizeEntity (entity : StatusEntity) : StatusEntity where
  id := sanitizeLabel entity.id
  label := sanitizeLabel entity.label
  endpoint := sanitizeEndpoint entity.endpoint
  summary := sanitizeSummary entity.summary

def sanitizeRoute (route : StatusRoute) : StatusRoute where
  id := sanitizeLabel route.id
  label := sanitizeLabel route.label
  input := sanitizeEntity route.input
  output := sanitizeEntity route.output
  summary := sanitizeSummary route.summary

def InstanceStatus.sanitized (status : InstanceStatus) : InstanceStatus :=
  { status with
    applicationVersion := sanitizeText status.applicationVersion
    workspaceLabel := sanitizeLabel status.workspaceLabel
    consumers := status.consumers.map sanitizeEntity
    publishers := status.publishers.map sanitizeEntity
    routes := status.routes.map sanitizeRoute }

end MqBridge.Registry
