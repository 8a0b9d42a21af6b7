import MqBridgeApp.Lib.Text

/-!
# Encrypted configuration files

How a saved file is recognised as an encrypted one and opened. A file that is not read as an
envelope is loaded as plain configuration.
-/

namespace MqBridge.Config
open Text

inductive FileFormat where
  | json
  | yaml
  deriving DecidableEq

def configFileFormatFromPath (path : Text) : FileFormat :=
  if (".json" : Text) <:+ path then .json else .yaml

/-- A parsed document. An object keeps each member it was written with. -/
inductive Node where
  | null
  | bool (b : Bool)
  | int (i : Int)
  | float (text : Text)
  | str (s : Text)
  | seq (items : List Node)
  | map (members : List (Text × Node))

/-- The two file formats: their syntax, the scalars each reads as a string, and whether a struct may
be written as the sequence of its fields. -/
structure Formats where
  parse : FileFormat → Text → Option Node
  readString : FileFormat → Node → Option Text
  positional : FileFormat → Bool

structure EncryptedEnvelope where
  v : Nat
  alg : Text
  kid : Text
  nonce : Text
  ciphertext : Text

structure EncryptedConfigSecurity where
  mode : Text := []

structure EncryptedConfigFile where
  configSecurity : EncryptedConfigSecurity := {}
  encryptedConfig : Option EncryptedEnvelope := none

/-- The value of a field, if it is given. A field given twice is an error. -/
def field (name : Text) (members : List (Text × Node)) : Option (Option Node) :=
  match members.filter fun member => member.1 == name with
  | [] => some none
  | [member] => some (some member.2)
  | _ => none

def required {α : Type*} (name : Text) (read : Node → Option α) (members : List (Text × Node)) : Option α :=
  (field name members).bind fun given => given.bind read

def optional {α : Type*} (name : Text) (default : α) (read : Node → Option α)
    (members : List (Text × Node)) : Option α :=
  (field name members).bind fun given => given.elim (some default) read

def readU8 : Node → Option Nat
  | .int i => if 0 ≤ i ∧ i < 256 then some i.toNat else none
  | _ => none

section Reading
variable (formats : Formats) (format : FileFormat)

def EncryptedEnvelope.read : Node → Option EncryptedEnvelope
  | .map members => do
    let v ← required "v" readU8 members
    let alg ← required "alg" (formats.readString format) members
    let kid ← required "kid" (formats.readString format) members
    let nonce ← required "nonce" (formats.readString format) members
    let ciphertext ← required "ciphertext" (formats.readString format) members
    return { v, alg, kid, nonce, ciphertext }
  | .seq [v, alg, kid, nonce, ciphertext] =>
    if formats.positional format then do
      let v ← readU8 v
      let alg ← formats.readString format alg
      let kid ← formats.readString format kid
      let nonce ← formats.readString format nonce
      let ciphertext ← formats.readString format ciphertext
      return { v, alg, kid, nonce, ciphertext }
    else none
  | _ => none

def EncryptedConfigSecurity.read : Node → Option EncryptedConfigSecurity
  | .map members => (optional "mode" [] (formats.readString format) members).map fun mode => { mode }
  | .seq [] => if formats.positional format then some {} else none
  | .seq [mode] =>
    if formats.positional format then (formats.readString format mode).map fun mode => { mode } else none
  | _ => none

def readOptionalEnvelope : Node → Option (Option EncryptedEnvelope)
  | .null => some none
  | node => (EncryptedEnvelope.read formats format node).map some

def EncryptedConfigFile.read : Node → Option EncryptedConfigFile
  | .map members => do
    let configSecurity ← optional "config_security" {} (EncryptedConfigSecurity.read formats format) members
    let encryptedConfig ← optional "encrypted_config" none (readOptionalEnvelope formats format) members
    return { configSecurity, encryptedConfig }
  | .seq items =>
    if formats.positional format then
      match items with
      | [] => some {}
      | [security] => do
        return { configSecurity := ← EncryptedConfigSecurity.read formats format security }
      | [security, envelope] => do
        return { configSecurity := ← EncryptedConfigSecurity.read formats format security
                 encryptedConfig := ← readOptionalEnvelope formats format envelope }
      | _ => none
    else none
  | _ => none

end Reading

/-- Where the master key may be: set in this process, or in the environment. -/
structure MasterKeySource where
  memory : Option Text
  env : Option Text

structure Cipher where
  base64Decode : Text → Option (List UInt8)
  /-- AES-256-GCM, given the key, the nonce, the ciphertext and the associated data. -/
  decrypt : List UInt8 → List UInt8 → List UInt8 → List UInt8 → Option (List UInt8)

def configMasterKeyEnv : Text := "MQB_CONFIG_MASTER_KEY"

def configEnvelopeAad : List UInt8 := ("mq-bridge-app:config" : Text).map fun c => c.toNat.toUInt8

def hexDigitValue (c : Char) : Option Nat :=
  if c.isDigit then some (c.toNat - 48)
  else if 'a' ≤ c ∧ c ≤ 'f' then some (c.toNat - 87)
  else if 'A' ≤ c ∧ c ≤ 'F' then some (c.toNat - 55)
  else none

def hexDecode : Text → Option (List UInt8)
  | [] => some []
  | a :: b :: rest => do
    let high ← hexDigitValue a
    let low ← hexDigitValue b
    return (high * 16 + low).toUInt8 :: (← hexDecode rest)
  | _ => none

def readConfigMasterKey (source : MasterKeySource) : Except Text (List UInt8 × Text) := do
  let (raw, kid) ← match source.memory, source.env with
    | some value, _ => pure (value, ("process-memory" : Text))
    | none, some value => pure (value, configMasterKeyEnv)
    | none, none =>
      throw ("Sensitive config requires " ++ configMasterKeyEnv ++ " to be set to a 32-byte hex key" : Text)
  match hexDecode (trim raw) with
  | none => throw (configMasterKeyEnv ++ (" must contain a valid 32-byte hex key" : Text))
  | some bytes =>
    if bytes.length = 32 then pure (bytes, kid)
    else throw (configMasterKeyEnv ++ (" must contain exactly 32 bytes" : Text))

def fromUtf8 (bytes : List UInt8) : Option Text := (String.fromUTF8? ⟨bytes.toArray⟩).map String.toList

def decryptConfigPayload (cipher : Cipher) (source : MasterKeySource) (envelope : EncryptedEnvelope) :
    Except Text Text := do
  if envelope.v ≠ 1 then
    throw (("Unsupported encrypted config version: " : Text) ++ ofNat envelope.v)
  if envelope.alg ≠ ("AES-256-GCM" : Text) then
    throw (("Unsupported encrypted config algorithm: " : Text) ++ envelope.alg)
  let (key, _) ← readConfigMasterKey source
  let some nonce := cipher.base64Decode envelope.nonce
    | throw ("Invalid encrypted config nonce" : Text)
  if nonce.length ≠ 12 then
    throw ("Invalid encrypted config nonce length" : Text)
  let some ciphertext := cipher.base64Decode envelope.ciphertext
    | throw ("Invalid encrypted config ciphertext" : Text)
  let some plaintext := cipher.decrypt key nonce ciphertext configEnvelopeAad
    | throw ("Failed to decrypt sensitive config" : Text)
  match fromUtf8 plaintext with
  | some text => pure text
  | none => throw ("Sensitive config payload is not valid UTF-8" : Text)

def usesEncryptedConfigModeLabel (mode : Text) : Bool :=
  trim mode == ("sensitive" : Text) || trim mode == ("durable" : Text)

def maybeDecryptConfigSource (formats : Formats) (cipher : Cipher) (source : MasterKeySource)
    (content : Text) (format : FileFormat) : Except Text (Option Text) :=
  match (formats.parse format content).bind (EncryptedConfigFile.read formats format) with
  | none => .ok none
  | some file =>
    if usesEncryptedConfigModeLabel file.configSecurity.mode then
      match file.encryptedConfig with
      | none => .ok none
      | some encrypted => (decryptConfigPayload cipher source encrypted).map some
    else .ok none

/-- What the loader reads as configuration: the decrypted text, or the file itself. -/
def effectiveContent (formats : Formats) (cipher : Cipher) (source : MasterKeySource)
    (content : Text) (format : FileFormat) : Except Text Text :=
  (maybeDecryptConfigSource formats cipher source content format).map fun plaintext => plaintext.getD content

/-! ### Which files fail closed -/

section FailClosed
variable (formats : Formats) (format : FileFormat)

def DeclaresEncryption (members : List (Text × Node)) : Prop :=
  ∃ security mode label, (("config_security" : Text), Node.map security) ∈ members ∧
    (("mode" : Text), mode) ∈ security ∧ formats.readString format mode = some label ∧
    usesEncryptedConfigModeLabel label = true

/-- `name` is given once, with this value. -/
def GivenOnce (members : List (Text × Node)) (name : Text) (value : Node) : Prop :=
  members.filter (fun member => member.1 == name) = [(name, value)]

def IsString (node : Node) : Prop := ∃ text, formats.readString format node = some text

/-- An envelope with a version byte and its four texts. Other members do not matter. -/
inductive EnvelopeShape : Node → Prop where
  | object {members : List (Text × Node)} {v : Int} {alg kid nonce ciphertext : Node}
      (version : 0 ≤ v ∧ v < 256) (givenV : GivenOnce members "v" (.int v))
      (givenAlg : GivenOnce members "alg" alg) (algText : IsString formats format alg)
      (givenKid : GivenOnce members "kid" kid) (kidText : IsString formats format kid)
      (givenNonce : GivenOnce members "nonce" nonce) (nonceText : IsString formats format nonce)
      (givenCiphertext : GivenOnce members "ciphertext" ciphertext)
      (ciphertextText : IsString formats format ciphertext) : EnvelopeShape (.map members)
  | positional {v : Int} {alg kid nonce ciphertext : Node} (allowed : formats.positional format = true)
      (version : 0 ≤ v ∧ v < 256) (algText : IsString formats format alg)
      (kidText : IsString formats format kid) (nonceText : IsString formats format nonce)
      (ciphertextText : IsString formats format ciphertext) :
      EnvelopeShape (.seq [.int v, alg, kid, nonce, ciphertext])

/-- The mode and the envelope are each given once, and the envelope is one. -/
def ReadableEnvelope (members : List (Text × Node)) : Prop :=
  ∃ security mode envelope, GivenOnce members "config_security" (.map security) ∧
    GivenOnce security "mode" mode ∧ GivenOnce members "encrypted_config" envelope ∧
    EnvelopeShape formats format envelope

/-- An error, or the plaintext of the envelope in the file. -/
def FailsClosed (cipher : Cipher) (source : MasterKeySource) (content : Text) : Prop :=
  (∃ error, maybeDecryptConfigSource formats cipher source content format = .error error) ∨
    ∃ node file envelope plaintext, formats.parse format content = some node ∧
      EncryptedConfigFile.read formats format node = some file ∧ file.encryptedConfig = some envelope ∧
      decryptConfigPayload cipher source envelope = .ok plaintext ∧
      maybeDecryptConfigSource formats cipher source content format = .ok (some plaintext)

end FailClosed

theorem field_eq_some {name : Text} {members : List (Text × Node)} {node : Node} :
    field name members = some (some node) ↔ GivenOnce members name node := by
  unfold field GivenOnce
  constructor
  · intro read
    split at read
    · simp at read
    · next member single =>
      have named : member ∈ members.filter fun member => member.1 == name := by simp [single]
      have key : member.1 = name := by simpa using (List.mem_filter.mp named).2
      simp only [Option.some.injEq] at read
      rw [single, ← key, ← read]
    · cases read
  · intro single
    simp [single]

theorem field_eq_none {name : Text} {members : List (Text × Node)} :
    field name members = some none ↔ ∀ node, (name, node) ∉ members := by
  unfold field
  constructor
  · intro read node member
    have kept : (name, node) ∈ members.filter fun member => member.1 == name := by simp [member]
    split at read
    · next empty => simp [empty] at kept
    · cases read
    · cases read
  · intro absent
    have empty : (members.filter fun member => member.1 == name) = [] := by
      apply List.filter_eq_nil_iff.mpr
      rintro ⟨key, node⟩ member named
      obtain rfl : key = name := eq_of_beq named
      exact absent node member
    simp [empty]

theorem GivenOnce.unique {members : List (Text × Node)} {name : Text} {node node' : Node}
    (once : GivenOnce members name node) (member : (name, node') ∈ members) : node' = node := by
  have kept : (name, node') ∈ members.filter fun member => member.1 == name := by simp [member]
  rw [once] at kept
  simpa using kept

theorem required_eq_some {α : Type*} {name : Text} {read : Node → Option α} {members : List (Text × Node)}
    {value : α} : required name read members = some value ↔
      ∃ node, GivenOnce members name node ∧ read node = some value := by
  simp only [required, Option.bind_eq_some_iff]
  constructor
  · rintro ⟨given, found, node, rfl, value⟩
    exact ⟨node, field_eq_some.mp found, value⟩
  · rintro ⟨node, once, value⟩
    exact ⟨some node, field_eq_some.mpr once, node, rfl, value⟩

theorem optional_eq_some {α : Type*} {name : Text} {default : α} {read : Node → Option α}
    {members : List (Text × Node)} {value : α} : optional name default read members = some value ↔
      ((∀ node, (name, node) ∉ members) ∧ value = default) ∨
        ∃ node, GivenOnce members name node ∧ read node = some value := by
  simp only [optional, Option.bind_eq_some_iff]
  constructor
  · rintro ⟨_ | node, found, value⟩
    · exact Or.inl ⟨field_eq_none.mp found, (Option.some.inj value).symm⟩
    · exact Or.inr ⟨node, field_eq_some.mp found, value⟩
  · rintro (⟨absent, rfl⟩ | ⟨node, once, value⟩)
    · exact ⟨none, field_eq_none.mpr absent, rfl⟩
    · exact ⟨some node, field_eq_some.mpr once, value⟩

theorem readU8_eq_some {node : Node} {n : Nat} :
    readU8 node = some n ↔ ∃ i : Int, node = .int i ∧ (0 ≤ i ∧ i < 256) ∧ i.toNat = n := by
  cases node <;> simp [readU8, and_assoc]

theorem envelope_read_iff {formats : Formats} {format : FileFormat} {node : Node} :
    (∃ envelope, EncryptedEnvelope.read formats format node = some envelope) ↔
      EnvelopeShape formats format node := by
  constructor
  · rintro ⟨envelope, read⟩
    unfold EncryptedEnvelope.read at read
    split at read
    · simp only [Option.bind_eq_bind, Option.bind_eq_some_iff, required_eq_some, readU8_eq_some] at read
      obtain ⟨v, ⟨_, onceV, i, rfl, version, -⟩, alg, ⟨_, onceAlg, algText⟩, kid, ⟨_, onceKid, kidText⟩,
        nonce, ⟨_, onceNonce, nonceText⟩, ciphertext, ⟨_, onceText, cipherText⟩, -⟩ := read
      exact .object version onceV onceAlg ⟨_, algText⟩ onceKid ⟨_, kidText⟩ onceNonce ⟨_, nonceText⟩
        onceText ⟨_, cipherText⟩
    · split at read
      · next allowed =>
        simp only [Option.bind_eq_bind, Option.bind_eq_some_iff, readU8_eq_some] at read
        obtain ⟨v, ⟨i, rfl, version, -⟩, alg, algText, kid, kidText, nonce, nonceText, ciphertext,
          cipherText, -⟩ := read
        exact .positional allowed version ⟨_, algText⟩ ⟨_, kidText⟩ ⟨_, nonceText⟩ ⟨_, cipherText⟩
      · cases read
    · cases read
  · rintro (⟨version, onceV, onceAlg, ⟨alg, algText⟩, onceKid, ⟨kid, kidText⟩, onceNonce, ⟨nonce, nonceText⟩,
      onceText, ⟨ciphertext, cipherText⟩⟩ | ⟨allowed, version, ⟨alg, algText⟩, ⟨kid, kidText⟩,
      ⟨nonce, nonceText⟩, ⟨ciphertext, cipherText⟩⟩)
    · next v _ _ _ _ =>
      refine ⟨⟨v.toNat, alg, kid, nonce, ciphertext⟩, ?_⟩
      simp only [EncryptedEnvelope.read, required_eq_some.mpr ⟨_, onceAlg, algText⟩,
        required_eq_some.mpr ⟨_, onceKid, kidText⟩, required_eq_some.mpr ⟨_, onceNonce, nonceText⟩,
        required_eq_some.mpr ⟨_, onceText, cipherText⟩,
        required_eq_some.mpr ⟨_, onceV, readU8_eq_some.mpr ⟨_, rfl, version, rfl⟩⟩]
      rfl
    · next v _ _ _ _ =>
      refine ⟨⟨v.toNat, alg, kid, nonce, ciphertext⟩, ?_⟩
      simp only [EncryptedEnvelope.read, allowed, if_true, algText, kidText, nonceText, cipherText,
        readU8_eq_some.mpr ⟨_, rfl, version, rfl⟩]
      rfl

theorem EnvelopeShape.readOptional {formats : Formats} {format : FileFormat} {node : Node} :
    (∃ envelope, readOptionalEnvelope formats format node = some (some envelope)) ↔
      EnvelopeShape formats format node := by
  rw [← envelope_read_iff]
  cases node <;> simp only [readOptionalEnvelope, Option.map_eq_some_iff, Option.some.injEq,
    exists_eq_right, reduceCtorEq, exists_false, EncryptedEnvelope.read]

/-- A file that declares encryption is read with its mode and an envelope only when both are given
once and the envelope is one. -/
theorem read_with_envelope_iff {formats : Formats} {format : FileFormat} {members : List (Text × Node)}
    (declared : DeclaresEncryption formats format members) :
    (∃ file envelope, EncryptedConfigFile.read formats format (.map members) = some file ∧
      usesEncryptedConfigModeLabel file.configSecurity.mode = true ∧ file.encryptedConfig = some envelope) ↔
      ReadableEnvelope formats format members := by
  obtain ⟨security, mode, label, inFile, inSecurity, text, encrypted⟩ := declared
  constructor
  · rintro ⟨file, envelope, read, -, given⟩
    simp only [EncryptedConfigFile.read, Option.bind_eq_bind, Option.bind_eq_some_iff] at read
    obtain ⟨config, readConfig, opened, readOpened, file⟩ := read
    obtain rfl := Option.some.inj file
    subst given
    rcases optional_eq_some.mp readConfig with ⟨absent, -⟩ | ⟨_, onceSecurity, readSecurity⟩
    · exact absurd inFile (absent _)
    obtain rfl := onceSecurity.unique inFile
    obtain ⟨_, readMode, -⟩ := Option.map_eq_some_iff.mp readSecurity
    rcases optional_eq_some.mp readMode with ⟨absent, -⟩ | ⟨modeNode, onceMode, -⟩
    · exact absurd inSecurity (absent _)
    rcases optional_eq_some.mp readOpened with ⟨-, missing⟩ | ⟨node, onceEnvelope, readEnvelope⟩
    · cases missing
    · exact ⟨security, modeNode, node, onceSecurity, onceMode, onceEnvelope,
        EnvelopeShape.readOptional.mp ⟨envelope, readEnvelope⟩⟩
  · rintro ⟨security', mode', node, onceSecurity, onceMode, onceEnvelope, shape⟩
    obtain ⟨envelope, opened⟩ := EnvelopeShape.readOptional.mpr shape
    have sameSecurity := onceSecurity.unique inFile
    simp only [Node.map.injEq] at sameSecurity
    subst sameSecurity
    obtain rfl := onceMode.unique inSecurity
    have readSecurity : EncryptedConfigSecurity.read formats format (.map security) = some ⟨label⟩ := by
      rw [EncryptedConfigSecurity.read, optional_eq_some.mpr (Or.inr ⟨_, onceMode, text⟩), Option.map_some]
    refine ⟨⟨⟨label⟩, some envelope⟩, envelope, ?_, encrypted, rfl⟩
    rw [EncryptedConfigFile.read, optional_eq_some.mpr (Or.inr ⟨_, onceSecurity, readSecurity⟩),
      optional_eq_some.mpr (Or.inr ⟨_, onceEnvelope, opened⟩)]
    rfl

/-- A file that declares encryption fails closed exactly when its envelope is readable. -/
theorem failsClosed_iff (formats : Formats) (cipher : Cipher) (source : MasterKeySource)
    (content : Text) (format : FileFormat) {members : List (Text × Node)}
    (parsed : formats.parse format content = some (.map members))
    (declared : DeclaresEncryption formats format members) :
    FailsClosed formats format cipher source content ↔ ReadableEnvelope formats format members := by
  rw [← read_with_envelope_iff declared]
  constructor
  · rintro (⟨error, failed⟩ | ⟨node, file, envelope, plaintext, parsed', read, given, -, opened⟩)
    · unfold maybeDecryptConfigSource at failed
      rw [parsed, Option.bind_some] at failed
      split at failed
      · cases failed
      · next file read =>
        split at failed
        · next label =>
          split at failed
          · cases failed
          · next envelope given => exact ⟨file, envelope, read, label, given⟩
        · cases failed
    · obtain rfl : Node.map members = node := Option.some.inj (parsed.symm.trans parsed')
      unfold maybeDecryptConfigSource at opened
      rw [parsed, Option.bind_some, read] at opened
      dsimp only at opened
      split at opened
      · next label => exact ⟨file, envelope, read, label, given⟩
      · cases opened
  · rintro ⟨file, envelope, read, label, given⟩
    have result : maybeDecryptConfigSource formats cipher source content format =
        (decryptConfigPayload cipher source envelope).map some := by
      simp [maybeDecryptConfigSource, parsed, read, label, given]
    cases decrypted : decryptConfigPayload cipher source envelope with
    | error error => exact Or.inl ⟨error, by rw [result, decrypted]; rfl⟩
    | ok plaintext =>
      exact Or.inr ⟨_, file, envelope, plaintext, parsed, read, given, decrypted,
        by rw [result, decrypted]; rfl⟩

def truncatedEnvelope : Text :=
  "\x7b\"config_security\":\x7b\"mode\":\"sensitive\"\x7d,\"encrypted_config\":\x7b\"v\":1,\"alg\":\"AES-256-GCM\"\x7d\x7d"

def truncatedMembers : List (Text × Node) :=
  [("config_security", .map [("mode", .str "sensitive")]),
    ("encrypted_config", .map [("v", .int 1), ("alg", .str "AES-256-GCM")])]

def truncatedFormats : Formats where
  parse _ content := if content = truncatedEnvelope then some (.map truncatedMembers) else none
  readString _ := fun
    | .str s => some s
    | _ => none
  positional format := format == .json

theorem truncated_declares (format : FileFormat) :
    DeclaresEncryption truncatedFormats format truncatedMembers :=
  ⟨[("mode", .str "sensitive")], .str "sensitive", "sensitive", by simp [truncatedMembers], by simp, rfl,
    by decide⟩

theorem truncated_parses (format : FileFormat) :
    truncatedFormats.parse format truncatedEnvelope = some (.map truncatedMembers) := by
  simp [truncatedFormats]

theorem failsClosed_iff_truncated :
    FailsClosed truncatedFormats .json ⟨fun _ => none, fun _ _ _ _ => none⟩ ⟨none, none⟩ truncatedEnvelope ↔
      ReadableEnvelope truncatedFormats .json truncatedMembers :=
  failsClosed_iff truncatedFormats _ _ truncatedEnvelope .json (truncated_parses .json)
    (truncated_declares .json)

/-- It is loaded as plain configuration, whatever the key. -/
theorem truncated_envelope_loads_plain :
    truncatedFormats.parse .json truncatedEnvelope = some (.map truncatedMembers) ∧
      DeclaresEncryption truncatedFormats .json truncatedMembers ∧
      (∃ node, (("encrypted_config" : Text), node) ∈ truncatedMembers) ∧
      ∀ cipher source,
        maybeDecryptConfigSource truncatedFormats cipher source truncatedEnvelope .json = .ok none ∧
        effectiveContent truncatedFormats cipher source truncatedEnvelope .json = .ok truncatedEnvelope ∧
        ¬ FailsClosed truncatedFormats .json cipher source truncatedEnvelope := by
  have plain : ∀ cipher source,
      maybeDecryptConfigSource truncatedFormats cipher source truncatedEnvelope .json = .ok none :=
    fun _ _ => rfl
  refine ⟨truncated_parses .json, truncated_declares .json, ⟨_, List.mem_cons_of_mem _ List.mem_cons_self⟩, ?_⟩
  intro cipher source
  refine ⟨plain cipher source, ?_, ?_⟩
  · rw [effectiveContent, plain]
    rfl
  · rintro (⟨error, failed⟩ | ⟨_, _, _, _, -, -, -, -, opened⟩)
    · rw [plain] at failed
      cases failed
    · rw [plain] at opened
      cases opened

end MqBridge.Config
