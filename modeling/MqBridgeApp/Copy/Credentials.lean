import MqBridgeApp.Lib.Text

/-!
# Credential names

Which field names carry a credential. The log redaction and the checkpoint identity share it.
-/

namespace MqBridge.Copy
open Text

def credentialNeedles : List Text := ["password", "passphrase", "secret", "token", "credential"]

/-- `key` names a credential rather than a pipeline setting. A bare `key` is ambiguous, so the
enclosing field `parent` decides. -/
def isCredential (key parent : Option Text) : Bool :=
  match key.map toAsciiLowercase with
  | none => false
  | some key =>
    credentialNeedles.any (fun needle => decide (needle <:+: key)) ||
      key ∈ (["authorization", "cookie", "access_key"] : List Text) ||
      (key == ("key" : Text) && parent == some "encryption") ||
      parent == some "decrypt_keys"

@[simp] theorem isCredential_none (parent : Option Text) : isCredential none parent = false := rfl

/-- The asymmetry `key` has: key material under `encryption`, a template under `deduplication`. -/
example : isCredential (some "key") (some "encryption") = true ∧
    isCredential (some "key") (some "deduplication") = false ∧
    isCredential (some "partition_key") none = false := by decide

end MqBridge.Copy
