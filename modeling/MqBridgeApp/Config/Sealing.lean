import MqBridgeApp.Config.Encrypted
import MqBridgeApp.Lib.Assoc

/-!
# Writing encrypted configuration files

What the encrypted modes write around a plaintext. With the same master key the loader opens it.
-/

namespace MqBridge.Config
open Text

/-- What encryption relies on. -/
structure Sealer where
  /-- A new nonce from the system's generator. -/
  nonce : List UInt8
  base64Encode : List UInt8 → Text
  /-- AES-256-GCM, given the key, the nonce, the message and the associated data. -/
  encrypt : List UInt8 → List UInt8 → List UInt8 → List UInt8 → Option (List UInt8)
  write : FileFormat → EncryptedConfigFile → Except Text Text

def toUtf8 (text : Text) : List UInt8 := (String.ofList text).toUTF8.data.toList

def encryptConfigPayload (sealer : Sealer) (source : MasterKeySource) (plaintext : Text) :
    Except Text EncryptedEnvelope := do
  let (key, kid) ← readConfigMasterKey source
  let some ciphertext := sealer.encrypt key sealer.nonce (toUtf8 plaintext) configEnvelopeAad
    | throw ("Failed to encrypt sensitive config" : Text)
  return { v := 1
           alg := "AES-256-GCM"
           kid
           nonce := sealer.base64Encode sealer.nonce
           ciphertext := sealer.base64Encode ciphertext }

def encodeSensitiveConfigFile (sealer : Sealer) (source : MasterKeySource) (plaintext : Text) (format : FileFormat)
    (modeLabel : Text) : Except Text Text := do
  let envelope ← encryptConfigPayload sealer source plaintext
  sealer.write format { configSecurity := { mode := trim modeLabel }, encryptedConfig := some envelope }

/-- What is written is read, and what is encrypted is decrypted under the same key. -/
structure Sealer.Opens (sealer : Sealer) (formats : Formats) (cipher : Cipher) : Prop where
  nonce : sealer.nonce.length = 12
  base64 : ∀ bytes, cipher.base64Decode (sealer.base64Encode bytes) = some bytes
  decrypt : ∀ key nonce message aad ciphertext, sealer.encrypt key nonce message aad = some ciphertext →
    cipher.decrypt key nonce ciphertext aad = some message
  read : ∀ format file text, sealer.write format file = .ok text →
    (formats.parse format text).bind (EncryptedConfigFile.read formats format) = some file

/-- A member of an object, the last of its name. -/
def Node.get (name : Text) : Node → Option Node
  | .map members => members.reverse.lookup name
  | _ => none

def Node.asStr : Node → Option Text
  | .str text => some text
  | _ => none

def readConfigSecurityModeFromStr (formats : Formats) (content : Text) (format : FileFormat) : Option Text :=
  (formats.parse format content).bind fun value =>
    ((value.get "config_security").bind (Node.get "mode")).bind Node.asStr

/-- The text is an object with a `config_security` that holds this mode and nothing else. -/
def NamesMode (formats : Formats) (format : FileFormat) (content mode : Text) : Prop :=
  ∃ members, formats.parse format content = some (.map members) ∧
    GivenOnce members "config_security" (.map [("mode", .str mode)])

theorem GivenOnce.get {members : List (Text × Node)} {name : Text} {value : Node} (once : GivenOnce members name value) :
    (Node.map members).get name = some value := by
  have kept : members.reverse.filter (fun member => member.1 == name) = [(name, value)] := by
    rw [List.filter_reverse, once]
    rfl
  have found := Assoc.lookup_filter members.reverse (fun key => key == name) name
  rw [kept, if_pos (beq_self_eq_true name), List.lookup_cons, beq_self_eq_true] at found
  exact found.symm

theorem NamesMode.read {formats : Formats} {format : FileFormat} {content mode : Text}
    (named : NamesMode formats format content mode) : readConfigSecurityModeFromStr formats content format = some mode := by
  obtain ⟨members, parsed, once⟩ := named
  simp only [readConfigSecurityModeFromStr, parsed, Option.bind_some, once.get]
  rfl

/-- The typed reader finds the same mode. -/
theorem NamesMode.mode {formats : Formats} {format : FileFormat} {content mode : Text}
    (named : NamesMode formats format content mode) (strings : formats.readString format (.str mode) = some mode)
    {file : EncryptedConfigFile}
    (read : (formats.parse format content).bind (EncryptedConfigFile.read formats format) = some file) :
    file.configSecurity.mode = mode := by
  obtain ⟨members, parsed, once⟩ := named
  rw [parsed, Option.bind_some, EncryptedConfigFile.read] at read
  obtain ⟨security, found, envelope⟩ := Option.bind_eq_some_iff.mp read
  obtain ⟨_, -, same⟩ := Option.bind_eq_some_iff.mp envelope
  obtain rfl := Option.some.inj same
  have given : optional "config_security" {} (EncryptedConfigSecurity.read formats format) members =
      some ({ mode } : EncryptedConfigSecurity) := by
    refine optional_eq_some.mpr (.inr ⟨_, once, ?_⟩)
    have alone : GivenOnce [(("mode" : Text), Node.str mode)] "mode" (.str mode) := rfl
    rw [EncryptedConfigSecurity.read, optional_eq_some.mpr (.inr ⟨_, alone, strings⟩)]
    rfl
  rw [given] at found
  rw [← Option.some.inj found]

theorem fromUtf8_toUtf8 (text : Text) : fromUtf8 (toUtf8 text) = some text := by
  have valid : (ByteArray.mk (toUtf8 text).toArray) = text.utf8Encode := by
    rw [toUtf8, Array.toArray_toList]
    exact String.toByteArray_ofList
  unfold fromUtf8
  rw [valid, String.fromUTF8?, dif_pos ByteArray.isValidUTF8_utf8Encode, Option.map_some]
  have same : String.fromUTF8 text.utf8Encode ByteArray.isValidUTF8_utf8Encode = String.ofList text := by
    rw [← String.toByteArray_inj, String.toByteArray_ofList]
    rfl
  rw [same, String.toList_ofList]

/-- The loader opens what an encrypted mode wrote. -/
theorem maybeDecrypt_encode {sealer : Sealer} {formats : Formats} {cipher : Cipher} (opens : sealer.Opens formats cipher)
    {source : MasterKeySource} {plaintext text label : Text} {format : FileFormat}
    (encrypted : usesEncryptedConfigModeLabel label = true)
    (written : encodeSensitiveConfigFile sealer source plaintext format label = .ok text) :
    maybeDecryptConfigSource formats cipher source text format = .ok (some plaintext) := by
  unfold encodeSensitiveConfigFile encryptConfigPayload at written
  cases master : readConfigMasterKey source with
  | error error => simp [master, bind, Except.bind] at written
  | ok given =>
    obtain ⟨key, kid⟩ := given
    cases sealed : sealer.encrypt key sealer.nonce (toUtf8 plaintext) configEnvelopeAad with
    | none => simp [master, sealed, bind, Except.bind, throw, throwThe, MonadExceptOf.throw] at written
    | some ciphertext =>
      simp only [master, sealed, bind, Except.bind, pure, Except.pure] at written
      have mode : usesEncryptedConfigModeLabel (trim label) = true := by
        unfold usesEncryptedConfigModeLabel at encrypted ⊢
        rw [trim_trim]
        exact encrypted
      unfold maybeDecryptConfigSource
      simp only [opens.read _ _ _ written, mode, if_true]
      have opened : decryptConfigPayload cipher source
          { v := 1, alg := "AES-256-GCM", kid, nonce := sealer.base64Encode sealer.nonce,
            ciphertext := sealer.base64Encode ciphertext } = .ok plaintext := by
        unfold decryptConfigPayload
        simp [master, opens.base64, opens.nonce, opens.decrypt _ _ _ _ _ sealed, fromUtf8_toUtf8, bind, Except.bind, pure,
          Except.pure]
      rw [opened]
      rfl

end MqBridge.Config
