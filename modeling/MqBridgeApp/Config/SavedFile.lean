import MqBridgeApp.Config.RoundTrip
import MqBridgeApp.Lib.Fallible

/-!
# What a saved file holds

A file holds a configuration when loading it gives that configuration. Saving a configuration that is
migrated, has trimmed names and no secret to take out leaves a file that holds it.
-/

namespace MqBridge.Config
open Text

/-- How a configuration file is read. -/
structure FileReader where
  crates : Crates
  formats : Formats
  cipher : Cipher
  source : MasterKeySource
  path : Text

/-- The settings of a file, before variables in it are expanded. -/
def FileReader.settings (reader : FileReader) (content : Text) : Option Json :=
  let format := configFileFormatFromPath reader.path
  (effectiveContent reader.formats reader.cipher reader.source content format).toOption.bind fun effective =>
    reader.crates.build settingDefaults (some (format, effective))

def FileHolds (reader : FileReader) (config : AppConfig) (file : Option Text) : Prop :=
  ∃ content settings, file = some content ∧ reader.settings content = some settings ∧
    ∀ ids, ∃ loaded, reader.crates.configOf ids settings = some loaded ∧ loaded.Alike config

theorem FileHolds.alike {reader : FileReader} {a b : AppConfig} {file : Option Text} (holdsA : FileHolds reader a file)
    (holdsB : FileHolds reader b file) (ids : IdSupply) : ∃ loaded : AppConfig, loaded.Alike a ∧ loaded.Alike b := by
  obtain ⟨content, settings, rfl, read, each⟩ := holdsA
  obtain ⟨content', settings', same, read', each'⟩ := holdsB
  obtain rfl := Option.some.inj same
  obtain rfl := Option.some.inj (read.symm.trans read')
  obtain ⟨loaded, found, alike⟩ := each ids
  obtain ⟨loaded', found', alike'⟩ := each' ids
  obtain rfl := Option.some.inj (found.symm.trans found')
  exact ⟨loaded, alike, alike'⟩

/-- What is written of the configuration is the configuration itself. -/
structure SavedWhole (storage : Storage) (config : AppConfig) : Prop where
  settled : config.Settled
  secured : { config with configSecurity := some { mode := config.securityMode }, extractSecrets := false } = config
  outputs : config.normalizeConsumerPublisherOutputs = config
  publishers : ∀ publisher ∈ config.publishers, trim publisher.name = publisher.name
  consumers : ∀ consumer ∈ config.consumers, trim consumer.name = consumer.name
  secrets : extractsSecrets config.securityMode = true → (config.extractSecretValues storage.bridge).1 = config

namespace SavedWhole
variable {storage : Storage} {config : AppConfig}

theorem migrate (whole : SavedWhole storage config) (ids : IdSupply) : config.migrateLegacyRoutes ids = config := by
  have outputs : (config.consumers.map fun consumer =>
      { consumer with
        output := normalizePublisherOutput (nameOfId config.publishers) (idOfName config.publishers) consumer.output }) =
      config.consumers := congrArg AppConfig.consumers whole.outputs
  rw [migrate_settled whole.settled, outputs]
  exact whole.secured

theorem toSave (whole : SavedWhole storage config) (ids : IdSupply) : config.toSave ids = config := by
  have consumers : (config.consumers.map fun consumer => { consumer with name := trim consumer.name }) =
      config.consumers := by
    rw [List.map_congr_left fun consumer member => show _ = consumer by rw [whole.consumers consumer member], List.map_id']
  have publishers : (config.publishers.map fun publisher => { publisher with name := trim publisher.name }) =
      config.publishers := by
    rw [List.map_congr_left fun publisher member => show _ = publisher by rw [whole.publishers publisher member],
      List.map_id']
  have routes : Assoc.insertAll [] (config.routes.map fun entry => (trim entry.1, entry.2)) = config.routes := by
    rw [whole.settled.routes]
    rfl
  unfold AppConfig.toSave
  rw [whole.migrate]
  dsimp only
  rw [routes, consumers, publishers]

/-- The text that is written is the one of the configuration. -/
theorem fileText (whole : SavedWhole storage config) {path output : Text} (text : config.fileText storage path = .ok output) :
    ∃ plaintext, storage.serialize (configFileFormatFromPath path) (stripNulls config.toValue) = .ok plaintext ∧
      (if usesEncryptedConfigMode config.securityMode then
        storage.encrypt plaintext (configFileFormatFromPath path) config.securityMode.label else .ok plaintext) =
          .ok output := by
  have secured := whole.secured
  have written : ∀ saved, saved = config → (do
      storage.createParent path
      let plaintext ← storage.serialize (configFileFormatFromPath path) (stripNulls saved.toValue)
      if usesEncryptedConfigMode config.securityMode then
        storage.encrypt plaintext (configFileFormatFromPath path) config.securityMode.label
      else pure plaintext) = .ok output → ∃ plaintext,
        storage.serialize (configFileFormatFromPath path) (stripNulls config.toValue) = .ok plaintext ∧
        (if usesEncryptedConfigMode config.securityMode then
          storage.encrypt plaintext (configFileFormatFromPath path) config.securityMode.label else .ok plaintext) =
            .ok output := by
    rintro saved rfl wrote
    obtain ⟨_, -, wrote⟩ := Fallible.bind_ok.mp wrote
    exact Fallible.bind_ok.mp wrote
  unfold AppConfig.fileText at text
  rw [whole.toSave] at text
  dsimp only at text
  split at text
  · next extracts =>
    obtain ⟨_, -, text⟩ := Fallible.bind_ok.mp text
    simp only [pure_bind, whole.secrets extracts] at text
    exact written _ secured text
  · simp only [pure_bind] at text
    exact written _ secured text

end SavedWhole

theorem holds_of_save {storage : Storage} {reader : FileReader} {config : AppConfig} {file after : Option Text}
    (whole : SavedWhole storage config)
    (trips : RoundTrips storage reader.crates reader.formats reader.cipher reader.source reader.path config)
    (saved : config.saveWithSecretStore storage reader.path file = (after, .ok ())) : FileHolds reader config after := by
  obtain ⟨output, text, rfl⟩ := save_ok saved
  obtain ⟨plaintext, serialized, written⟩ := whole.fileText text
  have effective := effectiveContent_saved trips rfl serialized written
  obtain ⟨settings, built, shown⟩ := trips.build plaintext serialized
  refine ⟨output, settings, rfl, ?_, fun ids => ?_⟩
  · unfold FileReader.settings
    simp only [effective, Except.toOption, Option.bind_some, built]
  · obtain ⟨loaded, found, alike⟩ := configOf_shown trips.laws trips.readsBack whole.settled whole.secured ids
      (show Shows settings _ from shown)
    rw [whole.outputs] at alike
    exact ⟨loaded, found, alike⟩

end MqBridge.Config
