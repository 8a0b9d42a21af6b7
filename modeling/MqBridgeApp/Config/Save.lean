import MqBridgeApp.Config.Encrypted
import MqBridgeApp.Config.Migrate
import MqBridgeApp.Config.Secrets

/-!
# Saving

A configuration is migrated, its secrets are handed to the secret store when the mode asks for it,
and the rest is written to the file, encrypted in the encrypted modes.
-/

namespace MqBridge.Config
open Text

structure Storage where
  bridge : Bridge
  ids : IdSupply
  storeSecrets : List (Text × Text) → Except Text Unit
  createParent : Text → Except Text Unit
  serialize : FileFormat → Json → Except Text Text
  /-- The encrypted file around a plaintext, given the format and the mode's label. -/
  encrypt : Text → FileFormat → Text → Except Text Text
  /-- Writes a file. A failed write leaves the content it returns with the error. -/
  write : Option Text → Text → Except (Text × Option Text) Unit

mutual
def stripNulls : Json → Json
  | .obj entries => .obj (stripNullEntries entries)
  | .arr items => .arr (stripNullItems items)
  | value => value
def stripNullEntries : List (Text × Json) → List (Text × Json)
  | [] => []
  | (key, value) :: rest =>
    if value.isNull then stripNullEntries rest else (key, stripNulls value) :: stripNullEntries rest
def stripNullItems : List Json → List Json
  | [] => []
  | item :: rest => stripNulls item :: stripNullItems rest
end

def usesEncryptedConfigMode : ConfigSecurityMode → Bool
  | .sensitive | .durable => true
  | _ => false

def extractsSecrets : ConfigSecurityMode → Bool
  | .balanced | .envTemporaryMessages => true
  | _ => false

/-- The configuration that is written, before its secrets are taken out. -/
def AppConfig.toSave (ids : IdSupply) (config : AppConfig) : AppConfig :=
  let config := config.migrateLegacyRoutes ids
  { config with
    routes := Assoc.insertAll [] (config.routes.map fun entry => (trim entry.1, entry.2))
    consumers := config.consumers.map fun consumer => { consumer with name := trim consumer.name }
    publishers := config.publishers.map fun publisher => { publisher with name := trim publisher.name } }

def AppConfig.fileText (storage : Storage) (path : Text) (config : AppConfig) : Except Text Text := do
  let toSave := config.toSave storage.ids
  let mode := toSave.securityMode
  let toSave ←
    if extractsSecrets mode then do
      let (extracted, secrets) := toSave.extractSecretValues storage.bridge
      storage.storeSecrets secrets
      pure extracted
    else pure toSave
  let toSave := { toSave with configSecurity := some { mode }, extractSecrets := false }
  storage.createParent path
  let format := configFileFormatFromPath path
  let plaintext ← storage.serialize format (stripNulls toSave.toValue)
  if usesEncryptedConfigMode mode then storage.encrypt plaintext format mode.label else pure plaintext

/-- Saves a configuration over `file`, and returns what the file then holds. -/
def AppConfig.saveWithSecretStore (storage : Storage) (path : Text) (config : AppConfig) (file : Option Text) :
    Option Text × Except Text Unit :=
  match config.fileText storage path with
  | .error error => (file, .error error)
  | .ok output =>
    match storage.write file output with
    | .ok () => (some output, .ok ())
    | .error (error, left) => (left, .error error)

/-- A failing write leaves the file as it is. -/
def Storage.KeepsFileOnFailure (storage : Storage) (path : Text) (config : AppConfig) (file : Option Text) : Prop :=
  ∀ output error left, config.fileText storage path = .ok output →
    storage.write file output = .error (error, left) → left = file

theorem save_error_file_iff {storage : Storage} {path : Text} {config : AppConfig} {file after : Option Text}
    {error : Text} (failed : config.saveWithSecretStore storage path file = (after, .error error)) :
    after = file ↔ storage.KeepsFileOnFailure path config file := by
  unfold AppConfig.saveWithSecretStore at failed
  unfold Storage.KeepsFileOnFailure
  cases text : config.fileText storage path with
  | error reason =>
    simp only [text, Prod.mk.injEq] at failed
    simp [failed.1]
  | ok output =>
    simp only [text] at failed
    cases wrote : storage.write file output with
    | ok _ => simp [wrote] at failed
    | error result =>
      obtain ⟨reason, left⟩ := result
      simp only [wrote, Prod.mk.injEq] at failed
      obtain ⟨rfl, -⟩ := failed
      constructor
      · rintro kept output' error' left' same failing
        obtain rfl := Except.ok.inj same
        rw [wrote] at failing
        rw [← kept, (Prod.mk.inj (Except.error.inj failing)).2]
      · exact fun keeps => keeps output reason left rfl wrote

theorem save_ok {storage : Storage} {path : Text} {config : AppConfig} {file after : Option Text}
    (saved : config.saveWithSecretStore storage path file = (after, .ok ())) :
    ∃ output, config.fileText storage path = .ok output ∧ after = some output := by
  unfold AppConfig.saveWithSecretStore at saved
  cases text : config.fileText storage path with
  | error reason => simp [text] at saved
  | ok output =>
    simp only [text] at saved
    cases wrote : storage.write file output with
    | ok _ =>
      simp only [wrote, Prod.mk.injEq] at saved
      exact ⟨output, rfl, saved.1.symm⟩
    | error result => simp [wrote] at saved

end MqBridge.Config
