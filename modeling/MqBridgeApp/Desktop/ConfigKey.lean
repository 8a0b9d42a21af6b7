import MqBridgeApp.Config.Save
import MqBridgeApp.Config.Sealing
import MqBridgeApp.Config.RoundTrip
import MqBridgeApp.Desktop.Keyring
import MqBridgeApp.Ui.Recovery
import MqBridgeApp.Lib.Steps

/-!
# The key of the desktop configuration

The desktop application keeps the key of an encrypted configuration in the keyring. It creates the key the first time
that a configuration is saved encrypted, and holds it in memory. Saves read the key that is in memory when they write,
which another update may have set or cleared since. The secrets that a configuration is saved without are entries of
the same keyring.
-/

namespace MqBridge.Desktop
open Text Config Ui

/-- A call that fails. A failed write may have written. -/
inductive KeyFault where
  | opening
  | reading (error : Text)
  | setting (written : Bool)

def desktopKeyAccount (kind configPath : Text) : Text := kind ++ (":" : Text) ++ configPath

/-- The value of an entry, which is generated when there is none. -/
def loadOrCreateDesktopHexKey (account : Text) (fault : Option KeyFault) (generated : Except Text Text)
    (keyring : List (Text × Text)) : Except Text Text × List (Text × Text) :=
  match fault with
  | some .opening => (.error ("Failed to open desktop config key entry '" ++ account ++ "'"), keyring)
  | some (.reading error) => (.error ("Failed to load desktop config key '" ++ account ++ "': " ++ error), keyring)
  | _ =>
    match keyring.lookup account, generated with
    | some value, _ => (.ok value, keyring)
    | none, .error error => (.error error, keyring)
    | none, .ok value =>
      match fault with
      | some (.setting written) =>
        (.error ("Failed to store desktop config key '" ++ account ++ "'"),
          if written then Assoc.insert keyring (account, value) else keyring)
      | _ => (.ok value, Assoc.insert keyring (account, value))

inductive ProbeFault where
  | opening
  | setting (written : Bool)
  | deleting

/-- Whether an entry of its own can be written. It is deleted again, if that works. -/
def probeDesktopKeyStoreAvailable (configPath uuid : Text) (fault : Option ProbeFault) (keyring : List (Text × Text)) :
    Bool × List (Text × Text) :=
  let account := desktopKeyAccount "key-store-probe" configPath ++ (":" : Text) ++ uuid
  let probed := Assoc.insert keyring (account, ("probe" : Text))
  match fault with
  | some .opening => (false, keyring)
  | some (.setting written) => (false, if written then probed else keyring)
  | some .deleting => (true, probed)
  | none => (true, Assoc.erase probed account)

/-! ### The application -/

structure KeyServices where
  formats : Formats
  cipher : Cipher
  configPath : Text
  /-- The key in the environment. -/
  env : Option Text
  strings : ∀ text, formats.readString (configFileFormatFromPath configPath) (.str text) = some text

namespace KeyServices

def format (services : KeyServices) : FileFormat := configFileFormatFromPath services.configPath

/-- The mode that a file names, as plain data. -/
def readMode (services : KeyServices) (content : Text) : Option Text :=
  readConfigSecurityModeFromStr services.formats content services.format

def account (services : KeyServices) : Text := desktopKeyAccount "config-key" services.configPath

def messageAccount (services : KeyServices) : Text := desktopKeyAccount "message-history-key" services.configPath

end KeyServices

/-- A configuration as text. It names its mode. -/
structure ConfigText (services : KeyServices) where
  mode : ConfigSecurityMode
  plaintext : Text
  named : NamesMode services.formats services.format plaintext mode.label

structure KeyedDesktop (services : KeyServices) where
  keyring : List (Text × Text) := []
  /-- The file that lists the stored secrets. -/
  metadata : Option (List Text) := none
  /-- The variables that secrets have been loaded into. -/
  loaded : List (Text × Text) := []
  memory : Option Text := none
  file : Option Text := none
  recovery : Option ConfigRecoveryStatusResponse := none
  /-- Updates that have prepared their save. -/
  updates : List (ConfigText services) := []
  /-- What the file was last saved from. -/
  saved : Option (ConfigText services) := none

def classifyDesktopConfigRecoveryReason (error : Text) : Text :=
  let message := toAsciiLowercase error
  if ("decrypt" : Text) <:+: message ∨ ("ciphertext" : Text) <:+: message ∨ ("nonce" : Text) <:+: message then
    "decrypt-failed"
  else if ("key" : Text) <:+: message ∨ ("keyring" : Text) <:+: message ∨ ("credential" : Text) <:+: message then
    "key-store-unavailable"
  else "load-failed"

def configRecoveryMessageForMode (mode : Option Text) (reason : Text) : Text :=
  if reason = "key-store-unavailable" then
    "The encrypted config could not be opened because the OS key store is unavailable."
  else if (mode.getD [] = "durable" ∨ mode.getD [] = "sensitive") ∧ reason = "decrypt-failed" then
    "The encrypted config could not be decrypted with the available key."
  else "The saved encrypted config could not be opened."

def buildDesktopConfigRecoveryStatus (mode : Option Text) (error : Text) : ConfigRecoveryStatusResponse where
  mode
  reason := classifyDesktopConfigRecoveryReason error
  message := configRecoveryMessageForMode mode (classifyDesktopConfigRecoveryReason error)
  detail := some error

/-- How a start goes on: with the text of a configuration, if there is a file, or with a temporary configuration. -/
inductive Started where
  | loaded (content : Option Text)
  | recovering (status : ConfigRecoveryStatusResponse)
  | failed (error : Text)

section
variable {services : KeyServices}

namespace KeyedDesktop
variable (desktop : KeyedDesktop services)

/-- The content of the file under the key in memory. -/
def openFile (savedMode : Option Text) : Started :=
  match desktop.file with
  | none => .loaded none
  | some content =>
    match effectiveContent services.formats services.cipher ⟨desktop.memory, services.env⟩ content services.format with
    | .ok text => .loaded (some text)
    | .error error =>
      if savedMode.any usesEncryptedConfigModeLabel then .recovering (buildDesktopConfigRecoveryStatus savedMode error)
      else .failed "Failed to load desktop configuration"

def keyError : Text := "Failed to load or create desktop config encryption key"

def loadDesktopConfigWithRecovery (fault : Option KeyFault) (generated : Except Text Text) :
    Started × KeyedDesktop services :=
  let savedMode := desktop.file.bind services.readMode
  if savedMode.any usesEncryptedConfigModeLabel then
    match loadOrCreateDesktopHexKey services.account fault generated desktop.keyring with
    | (.ok key, keyring) =>
      let desktop := { desktop with keyring, memory := some key }
      (desktop.openFile savedMode, desktop)
    | (.error _, keyring) =>
      (.recovering (buildDesktopConfigRecoveryStatus savedMode keyError), { desktop with keyring, memory := none })
  else
    let desktop := { desktop with memory := none }
    (desktop.openFile savedMode, desktop)

def prepareDesktopEncryptionForMode (mode : ConfigSecurityMode) (fault : Option KeyFault)
    (generated : Except Text Text) : Except Text Unit × KeyedDesktop services :=
  if usesEncryptedConfigMode mode then
    match loadOrCreateDesktopHexKey services.account fault generated desktop.keyring with
    | (.ok key, keyring) => (.ok (), { desktop with keyring, memory := some key })
    | (.error _, keyring) => (.error keyError, { desktop with keyring })
  else (.ok (), { desktop with memory := none })

/-- The text of a file, under the key that is in memory. -/
def textToWrite (sealer : Sealer) (config : ConfigText services) : Except Text Text :=
  if usesEncryptedConfigMode config.mode then
    encodeSensitiveConfigFile sealer ⟨desktop.memory, services.env⟩ config.plaintext services.format config.mode.label
  else .ok config.plaintext

/-- Saves a configuration. A write that fails leaves the content that is given. -/
def save (sealer : Sealer) (config : ConfigText services) (failed : Option (Option Text)) : KeyedDesktop services :=
  match desktop.textToWrite sealer config, failed with
  | .error _, _ => desktop
  | .ok text, none => { desktop with file := some text, saved := some config }
  | .ok _, some left => { desktop with file := left }

def secrets : DesktopSecrets where
  keyring := desktop.keyring
  metadata := desktop.metadata
  env := desktop.loaded

inductive KeyAction (services : KeyServices) where
  | start (fault : Option KeyFault) (generated : Except Text Text)
  /-- What the start does for a loaded configuration that is encrypted, when there is no key. -/
  | ready (mode : ConfigSecurityMode) (fault : Option KeyFault) (generated : Except Text Text)
  | prepare (config : ConfigText services) (fault : Option KeyFault) (generated : Except Text Text)
  | save (index : Nat) (sealer : Sealer) (failed : Option (Option Text))
  | reset (config : ConfigText services) (renamed : Bool) (sealer : Sealer) (failed : Option (Option Text))
  | provisionMessageKey (fault : Option KeyFault) (generated : Except Text Text)
  | probe (uuid : Text) (fault : Option ProbeFault)
  /-- Secrets are stored, deleted or loaded into the environment. -/
  | secrets (action : DesktopSecrets.Action)

/-- A start comes after the end of the process before, whatever it was doing. -/
def keyStep : KeyAction services → Option (KeyedDesktop services)
  | .start fault generated =>
    let started := { desktop with updates := [], recovery := none }.loadDesktopConfigWithRecovery fault generated
    match started.1 with
    | .recovering status => some { started.2 with recovery := some status }
    | _ => some started.2
  | .ready mode fault generated =>
    if usesEncryptedConfigMode mode ∧ desktop.memory.isNone ∧ services.env.isNone then
      some (desktop.prepareDesktopEncryptionForMode mode fault generated).2
    else none
  | .prepare config fault generated =>
    match desktop.prepareDesktopEncryptionForMode config.mode fault generated with
    | (.ok _, desktop) => some { desktop with updates := desktop.updates ++ [config] }
    | (.error _, desktop) => some desktop
  | .save index sealer failed =>
    desktop.updates[index]?.map fun config =>
      { desktop with updates := desktop.updates.eraseIdx index }.save sealer config failed
  | .reset config renamed sealer failed =>
    if desktop.recovery.isNone then none
    else if desktop.file.isSome ∧ ¬renamed then some desktop
    else
      let emptied := { desktop with file := none, saved := none }
      let reset := emptied.save sealer config failed
      some (if (emptied.textToWrite sealer config).isOk ∧ failed.isNone then { reset with recovery := none } else reset)
  | .provisionMessageKey fault generated =>
    some { desktop with
      keyring := (loadOrCreateDesktopHexKey services.messageAccount fault generated desktop.keyring).2 }
  | .probe uuid fault =>
    some { desktop with keyring := (probeDesktopKeyStoreAvailable services.configPath uuid fault desktop.keyring).2 }
  | .secrets action =>
    (desktop.secrets.step action).map fun secrets =>
      { desktop with keyring := secrets.keyring, metadata := secrets.metadata, loaded := secrets.env }

/-! ### What is kept -/

/-- A start with the key of the keyring reads a configuration in the content of a file. -/
def Holds (content : Text) (config : ConfigText services) : Prop :=
  services.readMode content = some config.mode.label ∧
    if usesEncryptedConfigMode config.mode then
      ∃ key, desktop.keyring.lookup services.account = some key ∧
        effectiveContent services.formats services.cipher ⟨some key, services.env⟩ content services.format =
          .ok config.plaintext
    else ∀ source, effectiveContent services.formats services.cipher source content services.format =
      .ok config.plaintext

/-- The key in memory is the one in the keyring, which opens the file. Its entry is not listed as a secret's. -/
structure Sound : Prop where
  memory : ∀ key, desktop.memory = some key → desktop.keyring.lookup services.account = some key
  file : ∀ content, desktop.file = some content → ∃ config, desktop.saved = some config ∧ desktop.Holds content config
  unlisted : services.account ∉ desktop.secrets.readMetadata

/-- The files of a sealer are opened, and they name the mode that they are sealed for. -/
structure SealsFor (services : KeyServices) (sealer : Sealer) : Prop where
  opens : sealer.Opens services.formats services.cipher
  names : ∀ file text, sealer.write services.format file = .ok text →
    NamesMode services.formats services.format text file.configSecurity.mode

/-- A save writes all or nothing, and it does not encrypt with the key of the environment because there is none in
memory. No secret is stored under the account of the key. -/
def Meets : KeyAction services → Prop
  | .save index sealer failed =>
    SealsFor services sealer ∧ (∀ left, failed = some left → left = desktop.file) ∧
      ∀ config, desktop.updates[index]? = some config → usesEncryptedConfigMode config.mode = true →
        desktop.memory.isSome ∨ services.env = none
  | .reset config _ sealer failed =>
    SealsFor services sealer ∧ (∀ left, failed = some left → left = none) ∧
      (usesEncryptedConfigMode config.mode = true → desktop.memory.isSome ∨ services.env = none)
  | .secrets (.save entries _ _) => services.account ∉ entries.map Prod.fst
  | _ => True

variable {desktop} {after : KeyedDesktop services}

/-- A key is found, or written where there was none. -/
theorem loadOrCreate_cases (account : Text) (fault : Option KeyFault) (generated : Except Text Text)
    (keyring : List (Text × Text)) :
    let result := loadOrCreateDesktopHexKey account fault generated keyring
    (result.2 = keyring ∧ ∀ key, result.1 = .ok key → keyring.lookup account = some key) ∨
      ∃ value, keyring.lookup account = none ∧ result.2 = Assoc.insert keyring (account, value) ∧
        ∀ key, result.1 = .ok key → key = value := by
  intro result
  have failing {error : Text} (same : result = (.error error, keyring)) :
      result.2 = keyring ∧ ∀ key, result.1 = .ok key → keyring.lookup account = some key := by
    rw [same]
    exact ⟨rfl, fun key given => by cases given⟩
  cases found : keyring.lookup account with
  | some value =>
    left
    rcases fault with _ | _ | error | written
    · simp [result, loadOrCreateDesktopHexKey, found]
    · exact found ▸ failing rfl
    · exact found ▸ failing rfl
    · simp [result, loadOrCreateDesktopHexKey, found]
  | none =>
    rcases fault with _ | _ | error | written
    · cases generated with
      | error error => exact .inl (found ▸ failing (by simp [result, loadOrCreateDesktopHexKey, found]; rfl))
      | ok value => exact .inr ⟨value, by simp [result, loadOrCreateDesktopHexKey, found]⟩
    · exact .inl (found ▸ failing rfl)
    · exact .inl (found ▸ failing rfl)
    · cases generated with
      | error error => exact .inl (found ▸ failing (by simp [result, loadOrCreateDesktopHexKey, found]; rfl))
      | ok value =>
        cases written with
        | true => exact .inr ⟨value, by simp [result, loadOrCreateDesktopHexKey, found]⟩
        | false => exact .inl (found ▸ failing (by simp [result, loadOrCreateDesktopHexKey, found]; rfl))

theorem loadOrCreate_keeps {account other value : Text} {keyring : List (Text × Text)} (fault : Option KeyFault)
    (generated : Except Text Text) (there : keyring.lookup other = some value) :
    (loadOrCreateDesktopHexKey account fault generated keyring).2.lookup other = some value := by
  rcases loadOrCreate_cases account fault generated keyring with ⟨same, -⟩ | ⟨new, free, inserted, -⟩
  · rw [same, there]
  · rw [inserted]
    exact Assoc.lookup_insert_free free there _

theorem loadOrCreate_ok {account key : Text} {keyring keyring' : List (Text × Text)} {fault : Option KeyFault}
    {generated : Except Text Text}
    (given : loadOrCreateDesktopHexKey account fault generated keyring = (.ok key, keyring')) :
    keyring'.lookup account = some key := by
  have results := loadOrCreate_cases account fault generated keyring
  rw [given] at results
  rcases results with ⟨rfl, found⟩ | ⟨value, -, rfl, only⟩
  · exact found key rfl
  · rw [only key rfl, Assoc.lookup_insert]
    exact if_pos (beq_self_eq_true account)

theorem loadOrCreate_found {account key : Text} {keyring : List (Text × Text)} (generated : Except Text Text)
    (there : keyring.lookup account = some key) :
    loadOrCreateDesktopHexKey account none generated keyring = (.ok key, keyring) := by
  simp [loadOrCreateDesktopHexKey, there]

theorem account_ne_probe (services : KeyServices) (uuid : Text) :
    services.account ≠ desktopKeyAccount "key-store-probe" services.configPath ++ (":" : Text) ++ uuid := by
  intro same
  cases same

theorem probe_keeps {account : Text} {keyring : List (Text × Text)} (configPath uuid : Text) (fault : Option ProbeFault)
    (other : account ≠ desktopKeyAccount "key-store-probe" configPath ++ (":" : Text) ++ uuid) :
    (probeDesktopKeyStoreAvailable configPath uuid fault keyring).2.lookup account = keyring.lookup account := by
  have inserted : (Assoc.insert keyring (desktopKeyAccount "key-store-probe" configPath ++ (":" : Text) ++ uuid,
      ("probe" : Text))).lookup account = keyring.lookup account := Assoc.lookup_insert_other other _ _
  unfold probeDesktopKeyStoreAvailable
  dsimp only
  split
  · rfl
  · next written =>
    cases written with
    | true => exact inserted
    | false => rfl
  · exact inserted
  · rw [Assoc.lookup_erase, if_neg fun same => other (eq_of_beq same), inserted]

def Keeps (desktop after : KeyedDesktop services) : Prop :=
  ∀ key, desktop.keyring.lookup services.account = some key → after.keyring.lookup services.account = some key

theorem Holds.kept {content : Text} {config : ConfigText services} (holds : desktop.Holds content config)
    (keeps : Keeps desktop after) : after.Holds content config := by
  refine ⟨holds.1, ?_⟩
  have opened := holds.2
  split at opened
  · obtain ⟨key, there, reads⟩ := opened
    rw [if_pos ‹_›]
    exact ⟨key, keeps key there, reads⟩
  · rw [if_neg ‹_›]
    exact opened

theorem Sound.of_keyring (sound : desktop.Sound) (keeps : Keeps desktop after) (file : after.file = desktop.file)
    (saved : after.saved = desktop.saved) (metadata : after.metadata = desktop.metadata)
    (memory : ∀ key, after.memory = some key → after.keyring.lookup services.account = some key) : after.Sound := by
  have listing : after.secrets.readMetadata = desktop.secrets.readMetadata :=
    congrArg (fun listed : Option (List Text) => (listed.getD []).dedup) metadata
  refine ⟨memory, fun content here => ?_, listing ▸ sound.unlisted⟩
  obtain ⟨config, last, holds⟩ := sound.file content (file ▸ here)
  exact ⟨config, saved.trans last, holds.kept keeps⟩

/-- The keyring that a key is taken from holds what was there. -/
theorem loadOrCreate_stays {desktop : KeyedDesktop services} {fault : Option KeyFault} {generated given : Except Text Text}
    {keyring : List (Text × Text)} (memory : Option Text)
    (taken : loadOrCreateDesktopHexKey services.account fault generated desktop.keyring = (given, keyring)) :
    Keeps desktop { desktop with keyring, memory } := fun _ there => by
  have kept := @loadOrCreate_keeps services.account _ _ _ fault generated there
  rwa [taken] at kept

theorem Sound.loadOrCreate (sound : desktop.Sound) {fault : Option KeyFault} {generated : Except Text Text} {key : Text}
    {keyring : List (Text × Text)}
    (taken : loadOrCreateDesktopHexKey services.account fault generated desktop.keyring = (.ok key, keyring)) :
    Keeps desktop { desktop with keyring, memory := some key } ∧
      ({ desktop with keyring, memory := some key } : KeyedDesktop services).Sound := by
  have stays := loadOrCreate_stays (some key) taken
  refine ⟨stays, sound.of_keyring stays rfl rfl rfl fun held same => ?_⟩
  obtain rfl := Option.some.inj same
  exact loadOrCreate_ok taken

theorem prepare_keeps (sound : desktop.Sound) (mode : ConfigSecurityMode) (fault : Option KeyFault)
    (generated : Except Text Text) :
    Keeps desktop (desktop.prepareDesktopEncryptionForMode mode fault generated).2 ∧
      (desktop.prepareDesktopEncryptionForMode mode fault generated).2.Sound := by
  unfold prepareDesktopEncryptionForMode
  split
  · split
    · next key keyring given => exact sound.loadOrCreate given
    · next error keyring given =>
      have stays := loadOrCreate_stays desktop.memory given
      exact ⟨stays, sound.of_keyring stays rfl rfl rfl fun key held => stays key (sound.memory key held)⟩
  · exact ⟨fun _ there => there, sound.of_keyring (fun _ there => there) rfl rfl rfl fun key held => by cases held⟩

theorem load_keeps (sound : desktop.Sound) (fault : Option KeyFault) (generated : Except Text Text) :
    Keeps desktop (desktop.loadDesktopConfigWithRecovery fault generated).2 ∧
      (desktop.loadDesktopConfigWithRecovery fault generated).2.Sound := by
  unfold loadDesktopConfigWithRecovery
  dsimp only
  split
  · split
    · next key keyring given => exact sound.loadOrCreate given
    · next error keyring given =>
      have stays := loadOrCreate_stays none given
      exact ⟨stays, sound.of_keyring stays rfl rfl rfl fun key held => by cases held⟩
  · exact ⟨fun _ there => there, sound.of_keyring (fun _ there => there) rfl rfl rfl fun key held => by cases held⟩

theorem label_mode (mode : ConfigSecurityMode) : trim mode.label = mode.label := by cases mode <;> decide

theorem encode_names {sealer : Sealer} (seals : SealsFor services sealer) {source : MasterKeySource}
    {plaintext text : Text} {mode : ConfigSecurityMode}
    (written : encodeSensitiveConfigFile sealer source plaintext services.format mode.label = .ok text) :
    services.readMode text = some mode.label := by
  unfold encodeSensitiveConfigFile at written
  cases envelope : encryptConfigPayload sealer source plaintext with
  | error error => simp [envelope, bind, Except.bind] at written
  | ok envelope' =>
    simp only [envelope, bind, Except.bind] at written
    rw [KeyServices.readMode, (seals.names _ _ written).read, label_mode]

theorem encode_without_key (sealer : Sealer) (plaintext label : Text) (format : FileFormat) :
    ∃ error, encodeSensitiveConfigFile sealer ⟨none, none⟩ plaintext format label = .error error :=
  ⟨_, rfl⟩

theorem textToWrite_holds {sealer : Sealer} {config : ConfigText services} {text : Text} (sound : desktop.Sound)
    (seals : SealsFor services sealer)
    (keyed : usesEncryptedConfigMode config.mode = true → desktop.memory.isSome ∨ services.env = none)
    (written : desktop.textToWrite sealer config = .ok text) : desktop.Holds text config := by
  unfold textToWrite at written
  split at written
  · next encrypted =>
    refine ⟨encode_names seals written, ?_⟩
    rw [if_pos encrypted]
    cases held : desktop.memory with
    | none =>
      have absent : services.env = none := by simpa [held] using keyed encrypted
      obtain ⟨error, failed⟩ := encode_without_key sealer config.plaintext config.mode.label services.format
      rw [held, absent, failed] at written
      cases written
    | some key =>
      refine ⟨key, sound.memory key held, ?_⟩
      rw [held] at written
      have label : usesEncryptedConfigModeLabel config.mode.label = true := by
        rw [usesEncryptedConfigMode_label, encrypted]
      rw [effectiveContent, maybeDecrypt_encode seals.opens label written]
      rfl
  · next clear =>
    obtain rfl := Except.ok.inj written
    refine ⟨config.named.read, ?_⟩
    rw [if_neg clear]
    intro source
    have unopened : maybeDecryptConfigSource services.formats services.cipher source config.plaintext services.format =
        .ok none := by
      unfold maybeDecryptConfigSource
      split
      · rfl
      · next file read =>
        rw [config.named.mode (services.strings _) read, usesEncryptedConfigMode_label, if_neg clear]
    rw [effectiveContent, unopened]
    rfl

theorem save_keeps {sealer : Sealer} {config : ConfigText services} {failed : Option (Option Text)} (sound : desktop.Sound)
    (seals : SealsFor services sealer) (whole : ∀ left, failed = some left → left = desktop.file)
    (keyed : usesEncryptedConfigMode config.mode = true → desktop.memory.isSome ∨ services.env = none) :
    Keeps desktop (desktop.save sealer config failed) ∧ (desktop.save sealer config failed).Sound := by
  unfold save
  split
  · exact ⟨fun _ there => there, sound⟩
  · next text written =>
    refine ⟨fun _ there => there, sound.memory, fun content here => ?_, sound.unlisted⟩
    obtain rfl := Option.some.inj here
    have holds := textToWrite_holds sound seals keyed written
    exact ⟨config, rfl, holds.kept fun _ there => there⟩
  · next left _ =>
    exact ⟨fun _ there => there, sound.of_keyring (fun _ there => there) (whole left rfl) rfl rfl sound.memory⟩

/-! ### A step -/

theorem keyStep_keeps {action : KeyAction services} (sound : desktop.Sound) (meets : desktop.Meets action)
    (stepped : desktop.keyStep action = some after) : Keeps desktop after ∧ after.Sound := by
  cases action with
  | start fault generated =>
    have ended : ({ desktop with updates := [], recovery := none } : KeyedDesktop services).Sound :=
      ⟨sound.memory, sound.file, sound.unlisted⟩
    obtain ⟨keeps, loaded⟩ := load_keeps ended fault generated
    rw [keyStep] at stepped
    dsimp only at stepped
    split at stepped
    · obtain rfl := Option.some.inj stepped
      exact ⟨keeps, loaded.memory, loaded.file, loaded.unlisted⟩
    · obtain rfl := Option.some.inj stepped
      exact ⟨keeps, loaded⟩
  | ready mode fault generated =>
    rw [keyStep] at stepped
    split at stepped
    · obtain rfl := Option.some.inj stepped
      exact prepare_keeps sound mode fault generated
    · cases stepped
  | prepare config fault generated =>
    obtain ⟨keeps, prepared⟩ := prepare_keeps sound config.mode fault generated
    rw [keyStep] at stepped
    split at stepped
    · next result =>
      rw [result] at keeps prepared
      obtain rfl := Option.some.inj stepped
      exact ⟨keeps, prepared.memory, prepared.file, prepared.unlisted⟩
    · next result =>
      rw [result] at keeps prepared
      obtain rfl := Option.some.inj stepped
      exact ⟨keeps, prepared⟩
  | save index sealer failed =>
    obtain ⟨config, pending, rfl⟩ := Option.map_eq_some_iff.mp stepped
    obtain ⟨seals, whole, keyed⟩ := meets
    have taken : ({ desktop with updates := desktop.updates.eraseIdx index } : KeyedDesktop services).Sound :=
      ⟨sound.memory, sound.file, sound.unlisted⟩
    exact save_keeps taken seals whole (keyed config pending)
  | reset config renamed sealer failed =>
    obtain ⟨seals, whole, keyed⟩ := meets
    have emptied : ({ desktop with file := none, saved := none } : KeyedDesktop services).Sound :=
      ⟨sound.memory, fun content here => (by cases here), sound.unlisted⟩
    obtain ⟨keeps, saved⟩ := save_keeps emptied seals whole keyed
    rw [keyStep] at stepped
    dsimp only at stepped
    split at stepped
    · cases stepped
    · split at stepped
      · obtain rfl := Option.some.inj stepped
        exact ⟨fun _ there => there, sound⟩
      · obtain rfl := Option.some.inj stepped
        split
        · exact ⟨keeps, saved.memory, saved.file, saved.unlisted⟩
        · exact ⟨keeps, saved⟩
  | provisionMessageKey fault generated =>
    obtain rfl := Option.some.inj stepped
    have keeps : Keeps desktop { desktop with keyring :=
        (loadOrCreateDesktopHexKey services.messageAccount fault generated desktop.keyring).2 } :=
      fun _ there => loadOrCreate_keeps fault generated there
    exact ⟨keeps, sound.of_keyring keeps rfl rfl rfl fun key held => keeps key (sound.memory key held)⟩
  | probe uuid fault =>
    obtain rfl := Option.some.inj stepped
    have same := @probe_keeps services.account desktop.keyring services.configPath uuid fault (account_ne_probe services uuid)
    have keeps : Keeps desktop { desktop with keyring :=
        (probeDesktopKeyStoreAvailable services.configPath uuid fault desktop.keyring).2 } :=
      fun _ there => same.trans there
    exact ⟨keeps, sound.of_keyring keeps rfl rfl rfl fun key held => keeps key (sound.memory key held)⟩
  | secrets action =>
    obtain ⟨secrets, done, rfl⟩ := Option.map_eq_some_iff.mp stepped
    have other : ∀ entries fault write, action = .save entries fault write → services.account ∉ entries.map Prod.fst := by
      rintro entries fault write rfl
      exact meets
    obtain ⟨same, unlisted⟩ := DesktopSecrets.step_other sound.unlisted other done
    have keeps : Keeps desktop { desktop with
        keyring := secrets.keyring, metadata := secrets.metadata, loaded := secrets.env } :=
      fun _ there => same.trans there
    refine ⟨keeps, fun key held => keeps key (sound.memory key held), fun content here => ?_, unlisted⟩
    obtain ⟨config, last, holds⟩ := sound.file content here
    exact ⟨config, last, holds.kept keeps⟩

theorem classify_keyError : classifyDesktopConfigRecoveryReason keyError = ("key-store-unavailable" : Text) := by
  decide

/-- What a start reads of a file that it holds a configuration in. -/
theorem load_holds {content : Text} {config : ConfigText services} (here : desktop.file = some content)
    (holds : desktop.Holds content config) (generated : Except Text Text) :
    (desktop.loadDesktopConfigWithRecovery none generated).1 = .loaded (some config.plaintext) := by
  have savedMode : desktop.file.bind services.readMode = some config.mode.label := by
    rw [here, Option.bind_some, holds.1]
  unfold loadDesktopConfigWithRecovery
  rw [savedMode]
  have opened := holds.2
  cases encrypted : usesEncryptedConfigMode config.mode with
  | true =>
    have label : usesEncryptedConfigModeLabel config.mode.label = true := by
      rw [usesEncryptedConfigMode_label, encrypted]
    rw [encrypted, if_pos rfl] at opened
    obtain ⟨key, there, reads⟩ := opened
    simp only [Option.any_some, label, if_true, loadOrCreate_found generated there]
    simp [openFile, here, reads]
  | false =>
    have label : usesEncryptedConfigModeLabel config.mode.label = false := by
      rw [usesEncryptedConfigMode_label, encrypted]
    rw [encrypted, if_neg (by decide)] at opened
    simp [label, openFile, here, opened]

/-- A keyring that cannot be read makes a start recover from an encrypted file, and it leaves the file and the
keyring. -/
theorem load_unavailable {content : Text} {config : ConfigText services} {fault : KeyFault}
    (here : desktop.file = some content) (holds : desktop.Holds content config)
    (encrypted : usesEncryptedConfigMode config.mode = true) (unread : ∀ written, fault ≠ .setting written)
    (generated : Except Text Text) :
    ∃ status, desktop.loadDesktopConfigWithRecovery (some fault) generated =
        (.recovering status, { desktop with memory := none }) ∧
      status.reason = "key-store-unavailable" ∧ status.mode = some config.mode.label := by
  have savedMode : desktop.file.bind services.readMode = some config.mode.label := by
    rw [here, Option.bind_some, holds.1]
  have label : usesEncryptedConfigModeLabel config.mode.label = true := by
    rw [usesEncryptedConfigMode_label, encrypted]
  have failing : ∃ error, loadOrCreateDesktopHexKey services.account (some fault) generated desktop.keyring =
      (.error error, desktop.keyring) := by
    rcases fault with _ | error | written
    · exact ⟨_, rfl⟩
    · exact ⟨_, rfl⟩
    · exact absurd rfl (unread written)
  obtain ⟨error, failed⟩ := failing
  refine ⟨buildDesktopConfigRecoveryStatus (some config.mode.label) keyError, ?_, classify_keyError, rfl⟩
  unfold loadDesktopConfigWithRecovery
  rw [savedMode]
  simp only [Option.any_some, label, if_true, failed]

/-- In a run whose saves write all or nothing and encrypt with a key from memory, the key of the configuration stays as
it was first stored, whatever goes wrong with the keyring. A start that can read it gets the configuration that was
saved last. A start that cannot read it recovers from an encrypted file and leaves the file and the key. -/
theorem config_key_kept {start : KeyedDesktop services} {actions : List (KeyAction services)} (sound : start.Sound)
    (careful : Steps.Careful keyStep Meets start actions) (played : Steps.play keyStep start actions = some after) :
    Keeps start after ∧ ∀ content, after.file = some content → ∃ config, after.saved = some config ∧
      (∀ generated, (after.loadDesktopConfigWithRecovery none generated).1 = .loaded (some config.plaintext)) ∧
      (usesEncryptedConfigMode config.mode = true → ∀ fault generated, (∀ written, fault ≠ .setting written) →
        ∃ status, after.loadDesktopConfigWithRecovery (some fault) generated =
            (.recovering status, { after with memory := none }) ∧
          status.reason = "key-store-unavailable" ∧ status.mode = some config.mode.label) := by
  have kept := @Steps.play_invariant _ _ keyStep Meets start after actions (fun now => Keeps start now ∧ now.Sound)
    (fun both meets stepped => by
      obtain ⟨keeps, sound⟩ := both
      obtain ⟨keepsNext, soundNext⟩ := keyStep_keeps sound meets stepped
      exact ⟨fun key there => keepsNext key (keeps key there), soundNext⟩)
    ⟨fun _ there => there, sound⟩ careful played
  refine ⟨kept.1, fun content here => ?_⟩
  obtain ⟨config, saved, holds⟩ := kept.2.file content here
  exact ⟨config, saved, load_holds here holds, fun encrypted fault generated unread =>
    load_unavailable here holds encrypted unread generated⟩

end KeyedDesktop

end

/-! ### A first save -/

deriving instance DecidableEq for EncryptedEnvelope, EncryptedConfigSecurity, EncryptedConfigFile

def keyHex : Text := "00112233445566778899aabbccddeeff00112233445566778899aabbccddeeff"

def keyNonce : List UInt8 := [0, 1, 2, 3, 4, 5, 6, 7, 8, 9, 10, 11]

def keyBytes : List UInt8 :=
  [0, 17, 34, 51, 68, 85, 102, 119, 136, 153, 170, 187, 204, 221, 238, 255,
    0, 17, 34, 51, 68, 85, 102, 119, 136, 153, 170, 187, 204, 221, 238, 255]

def sealedBytes : List UInt8 :=
  [117, 119, 219, 80, 41, 46, 146, 197, 172, 88, 26, 142, 88, 161, 29, 21, 100, 21, 135, 19, 148, 96, 30, 165, 25, 81,
    36, 162, 87, 139, 94, 94, 148, 161, 191, 223, 113, 145, 1, 157, 189, 98, 93, 44, 160, 15, 160, 3, 185, 91, 225]

def clearText : Text := "config_security:\n  mode: sensitive\n"

def sealedFile : EncryptedConfigFile where
  configSecurity := { mode := "sensitive" }
  encryptedConfig := some {
    v := 1
    alg := "AES-256-GCM"
    kid := "process-memory"
    nonce := "AAECAwQFBgcICQoL"
    ciphertext := "dXfbUCkuksWsWBqOWKEdFWQVhxOUYB6lGVEkoleLXl6Uob/fcZEBnb1iXSygD6ADuVvh" }

def sealedText : Text :=
  ("config_security:\n  mode: sensitive\nencrypted_config:\n  v: 1\n  alg: AES-256-GCM\n  kid: process-memory\n" : Text) ++
    ("  nonce: AAECAwQFBgcICQoL\n" : Text) ++
    ("  ciphertext: dXfbUCkuksWsWBqOWKEdFWQVhxOUYB6lGVEkoleLXl6Uob/fcZEBnb1iXSygD6ADuVvh\n" : Text)

def securityNode : Text × Node := ("config_security", .map [("mode", .str "sensitive")])

def envelopeNode : Text × Node :=
  ("encrypted_config", .map [("v", .int 1), ("alg", .str "AES-256-GCM"), ("kid", .str "process-memory"),
    ("nonce", .str "AAECAwQFBgcICQoL"),
    ("ciphertext", .str "dXfbUCkuksWsWBqOWKEdFWQVhxOUYB6lGVEkoleLXl6Uob/fcZEBnb1iXSygD6ADuVvh")])

/-- What the libraries do with the texts and the bytes of a first save. -/
def firstServices : KeyServices where
  formats := {
    parse _ text :=
      if text = sealedText then some (.map [securityNode, envelopeNode])
      else if text = clearText then some (.map [securityNode]) else none
    readString _ node := match node with
      | .str text => some text
      | _ => none
    positional _ := false }
  cipher := {
    base64Decode text :=
      if text = ("AAECAwQFBgcICQoL" : Text) then some keyNonce
      else if text = ("dXfbUCkuksWsWBqOWKEdFWQVhxOUYB6lGVEkoleLXl6Uob/fcZEBnb1iXSygD6ADuVvh" : Text) then some sealedBytes
      else match text with
        | '!' :: digits => some (digits.map fun c => c.toNat.toUInt8)
        | _ => none
    decrypt key nonce ciphertext aad :=
      if key = keyBytes ∧ nonce = keyNonce ∧ ciphertext = sealedBytes ∧ aad = configEnvelopeAad then
        some (toUtf8 clearText) else none }
  configPath := "/home/me/.config/mq-bridge/config.yml"
  env := none
  strings _ := rfl

def firstSealer : Sealer where
  nonce := keyNonce
  base64Encode bytes :=
    if bytes = keyNonce then "AAECAwQFBgcICQoL"
    else if bytes = sealedBytes then "dXfbUCkuksWsWBqOWKEdFWQVhxOUYB6lGVEkoleLXl6Uob/fcZEBnb1iXSygD6ADuVvh"
    else '!' :: bytes.map fun byte => Char.ofNat byte.toNat
  encrypt key nonce message aad :=
    if key = keyBytes ∧ nonce = keyNonce ∧ message = toUtf8 clearText ∧ aad = configEnvelopeAad then some sealedBytes
    else none
  write _ file := if file = sealedFile then .ok sealedText else .error "unknown file"

theorem firstServices_parse (format : FileFormat) :
    firstServices.formats.parse format sealedText = some (.map [securityNode, envelopeNode]) := by
  simp only [firstServices, if_true]

theorem firstSealer_seals : KeyedDesktop.SealsFor firstServices firstSealer where
  opens := {
    nonce := rfl
    base64 := by
      intro bytes
      simp only [firstSealer, firstServices]
      by_cases isNonce : bytes = keyNonce
      · rw [if_pos isNonce, if_pos rfl, isNonce]
      · by_cases isSealed : bytes = sealedBytes
        · rw [if_neg isNonce, if_pos isSealed, isSealed]
          rfl
        · rw [if_neg isNonce, if_neg isSealed, if_neg (fun same => by cases same), if_neg (fun same => by cases same)]
          simp only [Option.some.injEq, List.map_map]
          refine (List.map_congr_left fun byte _ => ?_).trans (List.map_id bytes)
          have small := byte.toNat_lt
          have valid : byte.toNat.isValidChar := .inl (by omega)
          rw [Function.comp_apply, Char.ofNat, dif_pos valid]
          exact UInt8.ofNat_toNat
    decrypt := by
      intro key nonce message aad ciphertext given
      simp only [firstSealer, Option.ite_none_right_eq_some, Option.some.injEq] at given
      obtain ⟨⟨rfl, rfl, rfl, rfl⟩, rfl⟩ := given
      simp [firstServices]
    read := by
      intro format file text written
      simp only [firstSealer] at written
      split at written
      · next same =>
        obtain rfl := Except.ok.inj written
        rw [same]
        rw [firstServices_parse]
        rfl
      · cases written }
  names := by
    intro file text written
    simp only [firstSealer] at written
    split at written
    · next same =>
      obtain rfl := Except.ok.inj written
      exact ⟨_, firstServices_parse _, by rw [same]; rfl⟩
    · cases written

def firstConfig : ConfigText firstServices where
  mode := .sensitive
  plaintext := clearText
  named := ⟨[securityNode], rfl, rfl⟩

def firstSave : List (KeyedDesktop.KeyAction firstServices) :=
  [.start none (.ok keyHex), .secrets (DesktopSecrets.saving [("MQB__TOKEN", "t0ken")]),
    .prepare firstConfig none (.ok keyHex), .save 0 firstSealer none,
    .secrets (.delete ["MQB__TOKEN"] (fun _ => none) .written)]

theorem config_key_kept_first : ∃ after : KeyedDesktop firstServices,
    Steps.play KeyedDesktop.keyStep {} firstSave = some after ∧
      (after.loadDesktopConfigWithRecovery none (.error "")).1 = .loaded (some clearText) := by
  have fresh : ({} : KeyedDesktop firstServices).Sound :=
    ⟨fun key held => (by cases held), fun content here => (by cases here), List.not_mem_nil⟩
  have careful : Steps.Careful KeyedDesktop.keyStep KeyedDesktop.Meets {} firstSave :=
    ⟨trivial, (by decide : firstServices.account ∉ _), trivial,
      ⟨firstSealer_seals, fun left failed => (by cases failed), fun _ _ _ => .inl rfl⟩, trivial, trivial⟩
  refine ⟨_, rfl, ?_⟩
  obtain ⟨-, read⟩ := KeyedDesktop.config_key_kept fresh careful rfl
  obtain ⟨config, saved, loads, -⟩ := read sealedText rfl
  cases saved
  exact loads _

end MqBridge.Desktop
