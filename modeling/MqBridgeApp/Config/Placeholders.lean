import MqBridgeApp.Config.SavedFile
import MqBridgeApp.Lib.JsonStrings

/-!
# Values from the environment

A file is loaded with its placeholders replaced, and what is loaded is what is saved. So the values of
variables reach the saved file wherever saving keeps what they change.
-/

namespace MqBridge.Config
open Text

section Resaving
variable (storage : Storage) (crates : Crates) (formats : Formats) (cipher : Cipher) (source : MasterKeySource)
  (ids : IdSupply) (path : Text)

def Crates.settingsIn (env : Text → Option Text) (text : Text) : Option Json :=
  crates.settings formats cipher source env path (some text)

/-- What the file holds once the configuration loaded from its text is saved. -/
def resaved (env : Text → Option Text) (text : Text) : Option Text :=
  (crates.loadConfigAtPath formats cipher source ids env path (some text)).bind fun loaded =>
    (loaded.fileText storage path).toOption

/-- No file was written, or two with the same contents up to the order of members. -/
def SameContents : Option Text → Option Text → Prop
  | none, none => True
  | some a, some b => ∃ document document',
      crates.build settingDefaults (some (configFileFormatFromPath path, a)) = some document ∧
      crates.build settingDefaults (some (configFileFormatFromPath path, b)) = some document' ∧
      document.same document' = true
  | _, _ => False

def KeptAlike (a b : AppConfig) : Prop :=
  (a.toSave storage.ids).Alike (b.toSave storage.ids) ∧ a.history.isEmpty = b.history.isEmpty

/-- The configuration is saved as a plain file that is read back. -/
structure SavesPlain (config : AppConfig) : Prop where
  readsBack : crates.ReadsBack (config.toSave storage.ids)
  inline : extractsSecrets config.securityMode = false
  unencrypted : usesEncryptedConfigMode config.securityMode = false
  writes : ∃ text, config.fileText storage path = .ok text
  build : ∀ text, storage.serialize (configFileFormatFromPath path) (stripNulls (config.toSave storage.ids).toValue) =
      .ok text →
    ∃ document, crates.build settingDefaults (some (configFileFormatFromPath path, text)) = some document ∧
      document.Distinct ∧ document.same (stripNulls (config.toSave storage.ids).toValue) = true

/-- A value of the text with its placeholders replaced. -/
def Crates.expandValue (env : Text → Option Text) (text value : Text) : Text :=
  crates.expand (fun key => (env key).or ((crates.extractInlineEnvVars text (configFileFormatFromPath path)).lookup key)) value

/-- The part of the settings that is read: the application's own members, or everything where routes stand at the
top level. -/
def readPart (settings : Json) : Json :=
  match settings with
  | .obj entries =>
    if (liftBareRoutes (.obj entries)).isSome then .obj entries
    else .obj (entries.filter fun entry => decide (entry.1 ∈ settingNames))
  | other => other

/-- The placeholders of the text stand in values of the template, and the variables change nothing but those. -/
def Substitutes (env : Text → Option Text) (text : Text) (template : Json) : Prop :=
  crates.settingsIn formats cipher source path env text = some (template.mapStrings (crates.expandValue path env text))

/-- What is read of the settings is a configuration as the application writes it. -/
structure Canonical (settings : Json) (config : AppConfig) : Prop where
  whole : SavedWhole storage config
  readsBack : crates.ReadsBack config
  history : ∀ entry ∈ config.history, entry.2.isNull = false
  shown : Shows (readPart settings) (.record config.toFields)

end Resaving

/-! ### What is read -/

section
variable {crates : Crates} {ids : IdSupply}

theorem readOptional_known {α : Type} {names : List Text} (known : ∀ name ∈ names, name ∈ settingNames) (default : α)
    (read : Json → Option α) (entries : List (Text × Json)) :
    readOptional names default read (entries.filter fun entry => decide (entry.1 ∈ settingNames)) =
      readOptional names default read entries := by
  have same : ((entries.filter fun entry => decide (entry.1 ∈ settingNames)).filter fun entry => decide (entry.1 ∈ names)) =
      entries.filter fun entry => decide (entry.1 ∈ names) := by
    rw [List.filter_filter]
    apply List.filter_congr
    intro entry _
    by_cases listed : entry.1 ∈ names
    · simp [listed, known _ listed]
    · simp [listed]
  rw [readOptional, givenField, same, ← givenField, ← readOptional]

theorem read_known (laws : crates.Lawful) (entries : List (Text × Json)) :
    AppConfig.read crates ids (.obj (entries.filter fun entry => decide (entry.1 ∈ settingNames))) =
      AppConfig.read crates ids (.obj entries) := by
  unfold AppConfig.read
  rw [bind_of_some (laws.fields _ _), bind_of_some (laws.fields _ _)]
  simp (disch := decide) only [readOptional_known]

theorem hasKey_known {key : Text} (known : key ∈ settingNames) (entries : List (Text × Json)) :
    hasKey key (entries.filter fun entry => decide (entry.1 ∈ settingNames)) = hasKey key entries := by
  rw [hasKey, hasKey, Assoc.lookup_filter entries fun other => decide (other ∈ settingNames), if_pos (by simpa using known)]

theorem lift_known {entries : List (Text × Json)} (flat : liftBareRoutes (.obj entries) = none) :
    liftBareRoutes (.obj (entries.filter fun entry => decide (entry.1 ∈ settingNames))) = none := by
  unfold liftBareRoutes at flat ⊢
  dsimp only at flat ⊢
  rw [hasKey_known (by decide)]
  split at flat
  · next routes => rw [if_pos routes]
  · next unrouted =>
    rw [if_neg unrouted]
    have alone : hasKey "input" (entries.filter fun entry => decide (entry.1 ∈ settingNames)) = false := by
      rw [hasKey, Assoc.lookup_filter entries fun other => decide (other ∈ settingNames), if_neg (by decide)]
      rfl
    rw [if_neg (by rw [alone]; decide)]
    split at flat
    · cases flat
    · split at flat
      · next unnamed =>
        have fewer : ((entries.filter fun entry => decide (entry.1 ∈ settingNames)).filter isNamedRoute) = [] := by
          rw [List.filter_eq_nil_iff]
          intro entry member
          exact List.filter_eq_nil_iff.mp (List.isEmpty_iff.mp unnamed) entry (List.mem_of_mem_filter member)
        rw [fewer]
        rfl
      · cases flat

/-- Only the part that is read counts. -/
theorem configOf_readPart (laws : crates.Lawful) (settings : Json) :
    crates.configOf ids (readPart settings) = crates.configOf ids settings := by
  cases settings with
  | obj entries =>
    unfold readPart
    dsimp only
    split
    · rfl
    · next flat =>
      have flat : liftBareRoutes (.obj entries) = none := by simpa using flat
      unfold Crates.configOf
      rw [flat, lift_known flat]
      dsimp only
      rw [read_known laws]
  | _ => rfl

theorem readPart_mapStrings (f : Text → Text) (settings : Json) :
    readPart (settings.mapStrings f) = (readPart settings).mapStrings f := by
  cases settings with
  | obj entries =>
    have key : ∀ key, hasKey key (Json.mapEntries f entries) = hasKey key entries := by
      intro key
      rw [hasKey, hasKey, Json.lookup_mapEntries, Option.isSome_map]
    have named : ∀ entry : Text × Json, isNamedRoute (entry.1, entry.2.mapStrings f) = isNamedRoute entry := by
      rintro ⟨name, value⟩
      cases value with
      | obj route =>
        show (_ && hasKey "input" (Json.mapEntries f route)) = (_ && hasKey "input" route)
        rw [hasKey, hasKey, Json.lookup_mapEntries, Option.isSome_map]
        rfl
      | _ => rfl
    have routes : ((Json.mapEntries f entries).filter isNamedRoute).isEmpty = (entries.filter isNamedRoute).isEmpty := by
      rw [Json.mapEntries_eq, List.filter_map, List.isEmpty_map]
      exact congrArg List.isEmpty (List.filter_congr fun entry _ => named entry)
    have lifted : (liftBareRoutes (.obj (Json.mapEntries f entries))).isSome = (liftBareRoutes (.obj entries)).isSome := by
      unfold liftBareRoutes
      dsimp only
      rw [key, key, routes]
      split
      · rfl
      · split
        · rfl
        · split <;> rfl
    unfold readPart
    rw [Json.mapStrings]
    dsimp only
    rw [lifted]
    split
    · rfl
    · rw [Json.mapStrings, Json.mapEntries_eq, Json.mapEntries_eq, List.filter_map]
      rfl
  | _ => rfl

end

section
variable {storage : Storage} {crates : Crates} {formats : Formats} {cipher : Cipher} {source : MasterKeySource}
  {ids : IdSupply} {path : Text}

theorem toSave_routes (config : AppConfig) : (config.toSave ids).routes = [] := by
  have drained : (config.toSave ids).routes = Assoc.insertAll []
      ((config.migrateLegacyRoutes ids).routes.map fun entry => (trim entry.1, entry.2)) := rfl
  rw [drained, migrateLegacyRoutes_eq]
  rfl

theorem toSave_history (config : AppConfig) : (config.toSave ids).history = config.history := by
  unfold AppConfig.toSave
  rw [migrateLegacyRoutes_eq]

theorem SavesPlain.document {config : AppConfig} (saves : SavesPlain storage crates path config) :
    ∃ text document, (config.fileText storage path).toOption = some text ∧
      crates.build settingDefaults (some (configFileFormatFromPath path, text)) = some document ∧
      Shows document (.record (config.toSave storage.ids).toFields) := by
  obtain ⟨text, written⟩ := saves.writes
  obtain ⟨plaintext, serialized, same⟩ := fileText_inline saves.inline written
  rw [saves.unencrypted, if_neg (by decide)] at same
  obtain rfl := Except.ok.inj same
  obtain ⟨document, built, shown⟩ := saves.build plaintext serialized
  exact ⟨plaintext, document, by rw [written]; rfl, built, shown⟩

theorem history_of_shown {config : AppConfig} {document : Json} (shown : Shows document (.record config.toFields)) :
    config.history.isEmpty = (document.get? "history").isNone := by
  obtain ⟨entries, rfl, -⟩ := shows_record.mp shown
  have record := AppConfig.recordHeld (shows_iff.mp shown)
  have lookup := record.lookup (i := 8) rfl
  show _ = (entries.lookup _).isNone
  cases empty : config.history.isEmpty with
  | true =>
    rw [empty] at lookup
    have absent : entries.lookup ("history" : Text) = none := lookup_unheld record.held lookup
    rw [absent]
    rfl
  | false =>
    rw [empty] at lookup
    obtain ⟨value, found, -⟩ := lookup_held record.keys record.held lookup rfl
    rw [found]
    rfl

/-- Two configurations are saved as the same document exactly when what saving keeps of them is alike. -/
theorem same_document_iff {a b : AppConfig} (laws : crates.Lawful) (savesA : crates.ReadsBack (a.toSave storage.ids))
    (savesB : crates.ReadsBack (b.toSave storage.ids)) {document document' : Json}
    (shown : Shows document (.record (a.toSave storage.ids).toFields))
    (shown' : Shows document' (.record (b.toSave storage.ids).toFields)) :
    document.same document' = true ↔ KeptAlike storage a b := by
  constructor
  · intro same
    have both : Shows document (.record (b.toSave storage.ids).toFields) := ⟨shown.1, Json.same_trans same shown'.2⟩
    obtain ⟨read, found, alike⟩ := config_shown laws savesA (toSave_routes a) storage.ids document shown
    obtain ⟨read', found', alike'⟩ := config_shown laws savesB (toSave_routes b) storage.ids document both
    obtain rfl := (Prod.mk.inj (Option.some.inj (found.symm.trans found'))).1
    refine ⟨alike.symm.trans alike', ?_⟩
    have history := history_of_shown shown
    rw [← history_of_shown both, toSave_history, toSave_history] at history
    exact history
  · rintro ⟨alike, history⟩
    have documents := alike.sameDocuments (by rw [toSave_history, toSave_history, history])
    have both := (documents document).mp shown
    have back := Json.same_symm shown'.1 (Json.distinct_of_same shown'.1 shown'.2) shown'.2
    exact Json.same_trans both.2 back

theorem AppConfig.Alike.toSave_whole {a b : AppConfig} (ab : a.Alike b) (whole : SavedWhole storage b) (ids : IdSupply) :
    (a.toSave ids).Alike b := by
  have migrated := ab.migrate whole.settled whole.secured ids
  rw [whole.outputs] at migrated
  have consumers : (b.consumers.map fun consumer => { consumer with name := trim consumer.name }) = b.consumers := by
    rw [List.map_congr_left fun consumer member => show _ = consumer by rw [whole.consumers consumer member], List.map_id']
  have publishers : (b.publishers.map fun publisher => { publisher with name := trim publisher.name }) = b.publishers := by
    rw [List.map_congr_left fun publisher member => show _ = publisher by rw [whole.publishers publisher member],
      List.map_id']
  refine { migrated with routes := ⟨toSave_routes a, whole.settled.routes⟩, consumers := ?_, publishers := ?_ }
  · rw [← consumers, AppConfig.toSave, List.forall₂_map_left_iff, List.forall₂_map_right_iff]
    exact migrated.consumers.imp fun _ _ same => { same with name := congrArg trim same.name }
  · rw [← publishers, AppConfig.toSave, List.forall₂_map_left_iff, List.forall₂_map_right_iff]
    exact migrated.publishers.imp fun _ _ same => { same with name := congrArg trim same.name }

section
variable {settings settings' : Json} {config config' loaded loaded' : AppConfig}

theorem Canonical.lift (canonical : Canonical storage crates settings config) : liftBareRoutes (readPart settings) = none := by
  have shown := canonical.shown
  obtain ⟨entries, same, -⟩ := shows_record.mp shown
  rw [same] at shown ⊢
  exact lift_shown canonical.whole.settled.routes shown

theorem Canonical.reads (laws : crates.Lawful) (canonical : Canonical storage crates settings config) (ids : IdSupply) :
    ∃ loaded, crates.configOf ids settings = some loaded ∧ (loaded.toSave storage.ids).Alike config ∧
      loaded.history.isEmpty = config.history.isEmpty := by
  obtain ⟨read, found, alike⟩ :=
    config_shown laws canonical.readsBack canonical.whole.settled.routes ids _ canonical.shown
  have readsParts : crates.ReadsParts true config :=
    ⟨canonical.readsBack.endpoint, canonical.readsBack.options, by
      rw [canonical.whole.settled.routes]
      exact fun _ member => absurd member List.not_mem_nil⟩
  obtain ⟨read', found', restores⟩ := config_held laws readsParts ids _ (shows_iff.mp canonical.shown)
  obtain rfl := (Prod.mk.inj (Option.some.inj (found.symm.trans found'))).1
  refine ⟨read.migrateLegacyRoutes fun n => ids (0 + n), ?_, ?_, ?_⟩
  · rw [← configOf_readPart laws, Crates.configOf, canonical.lift]
    dsimp only
    rw [found]
    rfl
  · have migrated := alike.migrate canonical.whole.settled canonical.whole.secured fun n => ids (0 + n)
    rw [canonical.whole.outputs] at migrated
    exact migrated.toSave_whole canonical.whole storage.ids
  · have history : (read.migrateLegacyRoutes fun n => ids (0 + n)).history = read.history := by
      rw [migrateLegacyRoutes_eq]
    obtain ⟨entries, same, -, length, -⟩ := holds_record.mp (holds_map.mp restores.history)
    obtain rfl := Json.obj.inj same
    have kept : members true (config.history.map fun entry => (entry.1, ofJson entry.2)) =
        config.history.map fun entry => (entry.1, ofJson entry.2) := by
      rw [members, List.filter_eq_self]
      intro field member
      obtain ⟨⟨name, value⟩, inside, rfl⟩ := List.mem_map.mp member
      have full := canonical.history _ inside
      cases value with
      | null => cases full
      | _ => rfl
    rw [kept, List.length_map] at length
    show (AppConfig.migrateLegacyRoutes _ _).history.isEmpty = _
    rw [history, Bool.eq_iff_iff, List.isEmpty_iff_length_eq_zero, List.isEmpty_iff_length_eq_zero, length]

/-- What saving keeps of two canonical settings is alike exactly when the parts that are read are the same. -/
theorem Canonical.alike_iff (laws : crates.Lawful) (canonical : Canonical storage crates settings config)
    (canonical' : Canonical storage crates settings' config') (loads : crates.configOf ids settings = some loaded)
    (loads' : crates.configOf ids settings' = some loaded') :
    KeptAlike storage loaded loaded' ↔ (readPart settings).same (readPart settings') = true := by
  obtain ⟨own, found, saved, history⟩ := canonical.reads laws ids
  obtain ⟨own', found', saved', history'⟩ := canonical'.reads laws ids
  obtain rfl := Option.some.inj (loads.symm.trans found)
  obtain rfl := Option.some.inj (loads'.symm.trans found')
  have shown := canonical.shown
  have shown' := canonical'.shown
  constructor
  · rintro ⟨alike, empty⟩
    have configs := saved.symm.trans (alike.trans saved')
    have documents := configs.sameDocuments (by rw [← history, ← history', empty])
    have both := (documents _).mp shown
    exact Json.same_trans both.2 (Json.same_symm shown'.1 (Json.distinct_of_same shown'.1 shown'.2) shown'.2)
  · intro same
    have both : Shows (readPart settings) (.record config'.toFields) := ⟨shown.1, Json.same_trans same shown'.2⟩
    obtain ⟨read, found, alike⟩ :=
      config_shown laws canonical.readsBack canonical.whole.settled.routes ids _ shown
    obtain ⟨read', found', alike'⟩ :=
      config_shown laws canonical'.readsBack canonical'.whole.settled.routes ids _ both
    obtain rfl := (Prod.mk.inj (Option.some.inj (found.symm.trans found'))).1
    refine ⟨saved.trans ((alike.symm.trans alike').trans saved'.symm), ?_⟩
    rw [history, history', history_of_shown shown, history_of_shown both]

end

/-! ### Two environments -/

variable {text : Text} {env env' : Text → Option Text}

/-- Files that are written are the same exactly when what saving keeps of the loaded configurations is alike. -/
theorem sameContents_iff (laws : crates.Lawful)
    (saves : ∀ loaded, crates.loadConfigAtPath formats cipher source ids env path (some text) = some loaded →
      SavesPlain storage crates path loaded)
    (saves' : ∀ loaded, crates.loadConfigAtPath formats cipher source ids env' path (some text) = some loaded →
      SavesPlain storage crates path loaded) :
    SameContents crates path (resaved storage crates formats cipher source ids path env text)
        (resaved storage crates formats cipher source ids path env' text) ↔
      Option.Rel (KeptAlike storage) (crates.loadConfigAtPath formats cipher source ids env path (some text))
        (crates.loadConfigAtPath formats cipher source ids env' path (some text)) := by
  unfold resaved
  cases loads : crates.loadConfigAtPath formats cipher source ids env path (some text) with
  | none =>
    cases loads' : crates.loadConfigAtPath formats cipher source ids env' path (some text) with
    | none => exact ⟨fun _ => .none, fun _ => trivial⟩
    | some loaded' =>
      obtain ⟨written', -, file', -⟩ := (saves' loaded' loads').document
      rw [Option.bind_none, Option.bind_some, file']
      exact ⟨nofun, nofun⟩
  | some loaded =>
    obtain ⟨written, document, file, built, shown⟩ := (saves loaded loads).document
    cases loads' : crates.loadConfigAtPath formats cipher source ids env' path (some text) with
    | none =>
      rw [Option.bind_none, Option.bind_some, file]
      exact ⟨nofun, nofun⟩
    | some loaded' =>
      obtain ⟨written', document', file', built', shown'⟩ := (saves' loaded' loads').document
      rw [Option.bind_some, Option.bind_some, file, file']
      have alike := same_document_iff laws (saves loaded loads).readsBack (saves' loaded' loads').readsBack shown shown'
      constructor
      · rintro ⟨other, other', found, found', same⟩
        obtain rfl := Option.some.inj (built.symm.trans found)
        obtain rfl := Option.some.inj (built'.symm.trans found')
        exact .some (alike.mp same)
      · intro related
        cases related with
        | some kept => exact ⟨document, document', built, built', alike.mpr kept⟩

theorem KeptAlike.refl (config : AppConfig) : KeptAlike storage config config :=
  ⟨.refl (toSave_routes config), rfl⟩

/-- Saving what is loaded writes the same in two environments when what is read of the settings is the same. Where the
placeholders stand in the values of settings as the application writes them, it does so exactly when no value that is
read stands for two texts. -/
theorem resaved_same_iff (laws : crates.Lawful) (text : Text) (env env' : Text → Option Text)
    (saves : ∀ loaded, crates.loadConfigAtPath formats cipher source ids env path (some text) = some loaded →
      SavesPlain storage crates path loaded)
    (saves' : ∀ loaded, crates.loadConfigAtPath formats cipher source ids env' path (some text) = some loaded →
      SavesPlain storage crates path loaded) :
    ((crates.settingsIn formats cipher source path env text).map readPart =
        (crates.settingsIn formats cipher source path env' text).map readPart →
      SameContents crates path (resaved storage crates formats cipher source ids path env text)
        (resaved storage crates formats cipher source ids path env' text)) ∧
    ∀ template, Substitutes crates formats cipher source path env text template →
      Substitutes crates formats cipher source path env' text template →
      (∃ config, Canonical storage crates (template.mapStrings (crates.expandValue path env text)) config) →
      (∃ config, Canonical storage crates (template.mapStrings (crates.expandValue path env' text)) config) →
      (SameContents crates path (resaved storage crates formats cipher source ids path env text)
          (resaved storage crates formats cipher source ids path env' text) ↔
        ∀ value ∈ (readPart template).strings,
          crates.expandValue path env text value = crates.expandValue path env' text value) := by
  rw [sameContents_iff laws saves saves']
  have loadsAs : ∀ env settings, crates.settingsIn formats cipher source path env text = settings →
      crates.loadConfigAtPath formats cipher source ids env path (some text) =
        (settings.map readPart).bind (crates.configOf ids) := by
    rintro env settings rfl
    rw [Option.bind_map]
    exact Option.bind_congr fun settings _ => (configOf_readPart laws settings).symm
  constructor
  · intro same
    rw [loadsAs env _ rfl, loadsAs env' _ rfl, same]
    cases (Option.map readPart _).bind (crates.configOf ids) with
    | none => exact .none
    | some loaded => exact .some (.refl loaded)
  · rintro template substitutes substitutes' ⟨config, canonical⟩ ⟨config', canonical'⟩
    obtain ⟨loaded, loads, -⟩ := canonical.reads laws ids
    obtain ⟨loaded', loads', -⟩ := canonical'.reads laws ids
    have distinct : (readPart template).Distinct := by
      have shown := canonical.shown.1
      rw [readPart_mapStrings] at shown
      exact (Json.distinct_mapStrings _).mp shown
    rw [← Json.same_mapStrings_iff distinct, ← readPart_mapStrings, ← readPart_mapStrings,
      ← canonical.alike_iff laws canonical' loads loads', Crates.loadConfigAtPath, Crates.loadConfigAtPath]
    have first : crates.settings formats cipher source env path (some text) = _ := substitutes
    have second : crates.settings formats cipher source env' path (some text) = _ := substitutes'
    rw [first, second, Option.bind_some, Option.bind_some, loads, loads', Option.rel_some_some]

end

/-! ### A password from the environment -/

/-- Replaces `$` and a name in braces by the variable's value, if it has one. -/
def expandBraces (lookup : Text → Option Text) : Nat → Text → Text
  | 0, text => text
  | _ + 1, [] => []
  | left + 1, '$' :: '{' :: rest =>
    match splitOnce '}' rest with
    | some (name, more) => (lookup name).getD ('$' :: '{' :: name ++ ['}']) ++ expandBraces lookup left more
    | none => '$' :: '{' :: expandBraces lookup left rest
  | left + 1, c :: rest => c :: expandBraces lookup left rest

def passwordConfig (password : Text) : AppConfig where
  publishers := [{ id := "p1", name := "orders", endpoint := .new .response, payload := password }]
  configSecurity := some { mode := .unencrypted }

def passwordSaved (password : Text) : AppConfig := (passwordConfig password).toSave tallyIds

def passwordDocument (password : Text) : Json := stripNulls (passwordSaved password).toValue

def passwordTemplate : Json := passwordDocument "$\x7bKAFKA_PASSWORD\x7d"

def placeholderText : Text := prettyAt 0 passwordTemplate

def passwordEnv (password : Text) (name : Text) : Option Text :=
  if name = ("KAFKA_PASSWORD" : Text) then some password else none

def passwordDocuments : List Json :=
  [passwordDocument "alpha", passwordDocument "beta", passwordTemplate]

def passwordCrates : Crates := plainCrates (fun lookup text => expandBraces lookup text.length text) passwordDocuments

def passwordFormats : Formats := plainFormats passwordTemplate

/-- The password is read back from the file that is written. -/
structure PasswordRead (password : Text) : Prop where
  expanded : expandBraces (passwordEnv password) placeholderText.length placeholderText =
    prettyAt 0 (passwordDocument password)
  parsed : plainParse passwordDocuments (prettyAt 0 (passwordDocument password)) = some (passwordDocument password)
  distinct : (passwordDocument password).Distinct
  substituted : passwordTemplate.mapStrings (passwordCrates.expandValue "config.json" (passwordEnv password) placeholderText) =
    passwordDocument password
  part : readPart (passwordDocument password) = passwordDocument password
  config : passwordCrates.configOf tallyIds (passwordDocument password) = some (passwordSaved password)

theorem alpha_read : PasswordRead "alpha" where
  expanded := by decide +kernel
  parsed := by decide +kernel
  distinct := by decide +kernel
  substituted := by decide +kernel
  part := by decide +kernel
  config := rfl

theorem beta_read : PasswordRead "beta" where
  expanded := by decide +kernel
  parsed := by decide +kernel
  distinct := by decide +kernel
  substituted := by decide +kernel
  part := by decide +kernel
  config := rfl

theorem passwordSaved_saved (password : Text) : (passwordSaved password).toSave plainStorage.ids = passwordSaved password :=
  rfl

theorem password_text (password path : Text) :
    (passwordSaved password).fileText plainStorage path = .ok (prettyAt 0 (passwordDocument password)) := by
  have text := @plainStorage_text (passwordSaved password) rfl rfl path
  have saved : (passwordSaved password).toSave tallyIds = passwordSaved password := passwordSaved_saved password
  rw [saved] at text
  exact text

theorem passwordSaved_plain (password : Text) : (passwordSaved password).Plain where
  consumers consumer member := absurd (show consumer ∈ [] from member) List.not_mem_nil
  publishers publisher member := by
    obtain rfl : publisher = _ := List.mem_singleton.mp (show publisher ∈ [_] from member)
    rfl

section
variable {password : Text} (read : PasswordRead password)
include read

theorem password_build : passwordCrates.build settingDefaults (some (.json, prettyAt 0 (passwordDocument password))) =
    some (passwordDocument password) := plainCrates_build_of _ read.parsed _

theorem password_settings : passwordCrates.settingsIn passwordFormats noCipher ⟨none, none⟩ "config.json"
    (passwordEnv password) placeholderText = some (passwordDocument password) := by
  have clear : effectiveContent passwordFormats noCipher ⟨none, none⟩ placeholderText .json = .ok placeholderText :=
    @plainFormats_clear _ "unencrypted" (by rfl) (by decide)
  have inline : passwordCrates.extractInlineEnvVars placeholderText .json = [] := by decide +kernel
  have variable_ : (fun key => (passwordEnv password key).or
      ((passwordCrates.extractInlineEnvVars placeholderText .json).lookup key)) = passwordEnv password := by
    funext key
    rw [inline]
    exact Option.or_none
  have expand : passwordCrates.expand = fun lookup text => expandBraces lookup text.length text := rfl
  have text : passwordCrates.expandVariables (passwordEnv password) placeholderText .json =
      prettyAt 0 (passwordDocument password) := by
    rw [Crates.expandVariables, variable_, expand, ← read.expanded]
  exact plainCrates_settings clear text read.parsed

theorem password_loads : passwordCrates.loadConfigAtPath passwordFormats noCipher ⟨none, none⟩ tallyIds (passwordEnv password)
    "config.json" (some placeholderText) = some (passwordSaved password) := by
  have settings : passwordCrates.settings passwordFormats noCipher ⟨none, none⟩ (passwordEnv password) "config.json"
    (some placeholderText) = _ := password_settings read
  rw [Crates.loadConfigAtPath, settings, Option.bind_some, read.config]

theorem password_canonical : Canonical plainStorage passwordCrates (passwordDocument password) (passwordSaved password) where
  whole := {
    settled := toSave_settled (tallyIds_fresh (by rfl))
    secured := toSave_secured tallyIds _
    outputs := rfl
    publishers := fun publisher member => by
      obtain rfl : publisher = _ := List.mem_singleton.mp (show publisher ∈ [_] from member)
      exact (by decide : trim (trim ("orders" : Text)) = trim ("orders" : Text))
    consumers := fun consumer member => absurd (show consumer ∈ [] from member) List.not_mem_nil
    secrets := fun extracts => absurd extracts Bool.false_ne_true }
  readsBack := plainCrates_readsBack _ _ (passwordSaved_plain password)
  history entry member := absurd (show entry ∈ [] from member) List.not_mem_nil
  shown := by
    rw [read.part]
    exact ⟨read.distinct, Json.same_refl read.distinct⟩

theorem password_saves : SavesPlain plainStorage passwordCrates "config.json" (passwordSaved password) where
  readsBack := by
    rw [passwordSaved_saved]
    exact plainCrates_readsBack _ _ (passwordSaved_plain password)
  inline := rfl
  unencrypted := rfl
  writes := ⟨_, password_text password _⟩
  build text serialized := by
    rw [passwordSaved_saved] at serialized ⊢
    obtain rfl := Except.ok.inj serialized
    rw [json_path]
    exact ⟨passwordDocument password, password_build read, read.distinct, Json.same_refl read.distinct⟩

theorem password_resaved : resaved plainStorage passwordCrates passwordFormats noCipher ⟨none, none⟩ tallyIds "config.json"
    (passwordEnv password) placeholderText = some (prettyAt 0 (passwordDocument password)) := by
  rw [resaved, password_loads read, Option.bind_some, password_text]
  rfl

end

theorem resaved_same_iff_password :
    SameContents passwordCrates "config.json"
        (resaved plainStorage passwordCrates passwordFormats noCipher ⟨none, none⟩ tallyIds "config.json"
          (passwordEnv "alpha") placeholderText)
        (resaved plainStorage passwordCrates passwordFormats noCipher ⟨none, none⟩ tallyIds "config.json"
          (passwordEnv "beta") placeholderText) ↔
      ∀ value ∈ (readPart passwordTemplate).strings,
        passwordCrates.expandValue "config.json" (passwordEnv "alpha") placeholderText value =
          passwordCrates.expandValue "config.json" (passwordEnv "beta") placeholderText value := by
  have laws : passwordCrates.Lawful := plainCrates_lawful _ _
  refine (resaved_same_iff laws placeholderText (passwordEnv "alpha") (passwordEnv "beta") ?_ ?_).2 passwordTemplate ?_ ?_
    ⟨passwordSaved "alpha", ?_⟩ ⟨passwordSaved "beta", ?_⟩
  · intro loaded found
    obtain rfl := Option.some.inj ((password_loads alpha_read).symm.trans found)
    exact password_saves alpha_read
  · intro loaded found
    obtain rfl := Option.some.inj ((password_loads beta_read).symm.trans found)
    exact password_saves beta_read
  · exact (password_settings alpha_read).trans (congrArg some alpha_read.substituted.symm)
  · exact (password_settings beta_read).trans (congrArg some beta_read.substituted.symm)
  · rw [alpha_read.substituted]
    exact password_canonical alpha_read
  · rw [beta_read.substituted]
    exact password_canonical beta_read

/-- Two environments that differ in the value of the password make two files of one. -/
theorem password_is_saved :
    (∀ name, name ≠ ("KAFKA_PASSWORD" : Text) → passwordEnv "alpha" name = passwordEnv "beta" name) ∧
    (∀ name, (passwordEnv "alpha" name).isSome = (passwordEnv "beta" name).isSome) ∧
    (splitAtText "$\x7bKAFKA_PASSWORD\x7d" placeholderText).isSome ∧
    ¬ SameContents passwordCrates "config.json"
        (resaved plainStorage passwordCrates passwordFormats noCipher ⟨none, none⟩ tallyIds "config.json"
          (passwordEnv "alpha") placeholderText)
        (resaved plainStorage passwordCrates passwordFormats noCipher ⟨none, none⟩ tallyIds "config.json"
          (passwordEnv "beta") placeholderText) := by
  refine ⟨?_, ?_, by decide +kernel, ?_⟩
  · intro name other
    rw [passwordEnv, passwordEnv, if_neg other, if_neg other]
  · intro name
    unfold passwordEnv
    split <;> rfl
  · rw [password_resaved alpha_read, password_resaved beta_read]
    rintro ⟨document, document', found, found', same⟩
    rw [json_path] at found found'
    obtain rfl := Option.some.inj ((password_build alpha_read).symm.trans found)
    obtain rfl := Option.some.inj ((password_build beta_read).symm.trans found')
    have different : (passwordDocument "alpha").same (passwordDocument "beta") = false := by decide +kernel
    rw [different] at same
    cases same

end MqBridge.Config
