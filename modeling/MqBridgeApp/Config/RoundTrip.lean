import MqBridgeApp.Config.EntityIds
import MqBridgeApp.Config.ReadBack
import MqBridgeApp.Config.Sealing
import MqBridgeApp.Lib.Lists

/-!
# Saving and loading

What is saved is migrated already, so loading it migrates no more than the names in its outputs.
-/

namespace MqBridge.Config
open Text

theorem toSave_settled {ids : IdSupply} {config : AppConfig} (fresh : ids.Fresh config.entityIds) :
    (config.toSave ids).Settled := by
  have settled := settled_migrate fresh
  have consumerIds : ((config.toSave ids).consumers.map (·.id)) = (config.migrateLegacyRoutes ids).consumers.map (·.id) := by
    unfold AppConfig.toSave
    rw [List.map_map]
    rfl
  have publisherIds : ((config.toSave ids).publishers.map (·.id)) = (config.migrateLegacyRoutes ids).publishers.map (·.id) := by
    unfold AppConfig.toSave
    rw [List.map_map]
    rfl
  refine ⟨?_, ?_, ?_, ?_, ?_, ?_, settled.tab⟩
  · have drained : (config.toSave ids).routes = Assoc.insertAll []
        ((config.migrateLegacyRoutes ids).routes.map fun entry => (trim entry.1, entry.2)) := rfl
    rw [drained, settled.routes]
    rfl
  · rw [publisherIds]
    exact settled.publisherIds
  · intro publisher member
    obtain ⟨original, inside, rfl⟩ := List.mem_map.mp member
    exact settled.publisherIdsFull original inside
  · rw [consumerIds]
    exact settled.consumerIds
  · intro consumer member
    obtain ⟨original, inside, rfl⟩ := List.mem_map.mp member
    exact settled.consumerIdsFull original inside
  · intro consumer member
    obtain ⟨original, inside, rfl⟩ := List.mem_map.mp member
    exact settled.responses original inside

theorem toSave_security (ids : IdSupply) (config : AppConfig) :
    (config.toSave ids).configSecurity = some { mode := config.securityMode } ∧
      (config.toSave ids).extractSecrets = false := by
  unfold AppConfig.toSave
  rw [migrateLegacyRoutes_eq]
  exact ⟨rfl, rfl⟩

theorem toSave_secured (ids : IdSupply) (config : AppConfig) :
    { config.toSave ids with
      configSecurity := some { mode := (config.toSave ids).securityMode }, extractSecrets := false } =
        config.toSave ids := by
  obtain ⟨security, extract⟩ := toSave_security ids config
  have mode : (config.toSave ids).securityMode = config.securityMode := by rw [AppConfig.securityMode, security]
  rw [mode, ← security, ← extract]

/-- The text that is written in a mode that keeps secrets in the configuration. -/
theorem fileText_inline {storage : Storage} {path content : Text} {config : AppConfig}
    (inline : extractsSecrets config.securityMode = false) (written : config.fileText storage path = .ok content) :
    ∃ plaintext, storage.serialize (configFileFormatFromPath path) (stripNulls (config.toSave storage.ids).toValue) =
        .ok plaintext ∧
      (if usesEncryptedConfigMode config.securityMode then
        storage.encrypt plaintext (configFileFormatFromPath path) config.securityMode.label else .ok plaintext) =
          .ok content := by
  have mode : (config.toSave storage.ids).securityMode = config.securityMode := by
    rw [AppConfig.securityMode, (toSave_security storage.ids config).1]
  have secured := toSave_secured storage.ids config
  unfold AppConfig.fileText at written
  rw [mode] at secured
  simp only [mode, inline, Bool.false_eq_true, if_false, pure_bind, secured] at written
  cases parent : storage.createParent path with
  | error error => simp [parent, bind, Except.bind] at written
  | ok _ =>
    cases serialized : storage.serialize (configFileFormatFromPath path) (stripNulls (config.toSave storage.ids).toValue) with
    | error error => simp [parent, serialized, bind, Except.bind] at written
    | ok plaintext =>
      refine ⟨plaintext, rfl, ?_⟩
      simp only [parent, serialized, bind, Except.bind] at written
      exact written

section Alike
variable {a b : AppConfig}

theorem AppConfig.Alike.settled (ab : a.Alike b) (settled : b.Settled) : a.Settled := by
  refine ⟨ab.routes.1, ?_, ?_, ?_, ?_, ?_, ?_⟩
  · rw [Lists.map_of_forall₂ (r := PublisherClient.Alike) (fun _ _ => PublisherClient.Alike.id) ab.publishers]
    exact settled.publisherIds
  · intro publisher member
    obtain ⟨other, inside, same⟩ := Lists.exists_of_forall₂ ab.publishers member
    rw [same.id]
    exact settled.publisherIdsFull other inside
  · rw [Lists.map_of_forall₂ (r := ConsumerConfig.Alike) (fun _ _ => ConsumerConfig.Alike.id) ab.consumers]
    exact settled.consumerIds
  · intro consumer member
    obtain ⟨other, inside, same⟩ := Lists.exists_of_forall₂ ab.consumers member
    rw [same.id]
    exact settled.consumerIdsFull other inside
  · intro consumer member none
    obtain ⟨other, inside, same⟩ := Lists.exists_of_forall₂ ab.consumers member
    have output := same.output
    rw [none] at output
    cases given : other.output with
    | none =>
      have response := same.response
      rw [settled.responses other inside given] at response
      cases gone : consumer.response with
      | none => rfl
      | some _ => rw [gone] at response; cases response
    | publisher _ _ => rw [given] at output; cases output
    | response _ => rw [given] at output; cases output
  · rw [ab.defaultTab]
    exact settled.tab

theorem alike_normalize (nameOf idOf : Text → Option Text) {output output' : ConsumerOutputConfig}
    (same : output.Alike output') :
    (normalizePublisherOutput nameOf idOf output).Alike (normalizePublisherOutput nameOf idOf output') := by
  cases same with
  | none => exact .none
  | publisher name id =>
    cases found : normalizePublisherOutput nameOf idOf (.publisher name id) with
    | none => exact .none
    | publisher name id => exact .publisher name id
    | response answer =>
      unfold normalizePublisherOutput at found
      split at found
      · split at found <;> cases found
      · next other => exact absurd rfl (other name id)
  | response answer => exact .response answer

/-- Migrating what was read of a settled configuration resolves the names in its outputs. -/
theorem AppConfig.Alike.migrate (ab : a.Alike b) (settled : b.Settled)
    (secured : { b with configSecurity := some { mode := b.securityMode }, extractSecrets := false } = b) (ids : IdSupply) :
    (a.migrateLegacyRoutes ids).Alike b.normalizeConsumerPublisherOutputs := by
  have names : nameOfId a.publishers = nameOfId b.publishers := by
    have entries := Lists.map_of_forall₂ (r := PublisherClient.Alike) (f := fun publisher => (publisher.id, publisher.name))
      (fun _ _ same => by rw [same.id, same.name]) ab.publishers
    funext id
    rw [nameOfId, entries, ← nameOfId]
  have ids_ : idOfName a.publishers = idOfName b.publishers := by
    have entries := Lists.map_of_forall₂ (r := PublisherClient.Alike) (f := fun publisher => (publisher.name, publisher.id))
      (fun _ _ same => by rw [same.id, same.name]) ab.publishers
    funext name
    rw [idOfName, entries, ← idOfName]
  have mode : a.securityMode = b.securityMode := by
    unfold AppConfig.securityMode
    rw [ab.configSecurity, ab.extractSecrets]
  have security : b.configSecurity = some { mode := b.securityMode } := (congrArg AppConfig.configSecurity secured).symm
  have extract : b.extractSecrets = false := (congrArg AppConfig.extractSecrets secured).symm
  rw [migrate_settled (ab.settled settled), normalizeConsumerPublisherOutputs_eq, names, ids_, mode]
  refine ⟨ab.logLevel, ab.logger, ab.uiAddr, ab.metricsAddr, ab.plugins, ab.routes, ?_, ab.publishers, ab.history,
    ab.envVars, security.symm, extract.symm, ab.defaultTab⟩
  rw [List.forall₂_map_left_iff, List.forall₂_map_right_iff]
  exact ab.consumers.imp fun _ _ same => { same with output := alike_normalize _ _ same.output }

end Alike

/-! ### Loading what was saved -/

theorem lift_shown {config : AppConfig} {entries : List (Text × Json)} (routes : config.routes = [])
    (shown : Shows (.obj entries) (.record config.toFields)) : liftBareRoutes (.obj entries) = none := by
  have record := AppConfig.recordHeld (shows_iff.mp shown)
  have own : ∀ entry ∈ entries, entry.1 ∈ appFields := by
    intro entry member
    have key := (keys_perm_members record.held).mem_iff.mp (List.mem_map_of_mem member)
    have field := (List.filter_sublist.map Prod.fst).subset key
    have part := (keys_fieldsOf config.parts).subset field
    rw [record.named] at part
    exact part
  have unrouted : hasKey "routes" entries = false := by
    have gone : entries.lookup ("routes" : Text) = none := by
      apply lookup_unheld record.held
      rw [record.lookup (i := 5) rfl, routes]
      rfl
    rw [hasKey, gone]
    rfl
  have alone : hasKey "input" entries = false := by
    have gone : entries.lookup ("input" : Text) = none := by
      rw [Assoc.lookup_eq_none]
      intro value member
      exact absurd (own _ member) (by decide : ("input" : Text) ∉ appFields)
    rw [hasKey, gone]
    rfl
  have unnamed : entries.filter isNamedRoute = [] := by
    rw [List.filter_eq_nil_iff]
    intro entry member
    have app : ∀ name ∈ appFields, name ∈ appLevelFields := by decide
    have field : isAppField entry = true := decide_eq_true (app _ (own entry member))
    simp [isNamedRoute, field]
  rw [liftBareRoutes, unrouted, alone, unnamed]
  rfl

theorem configOf_shown {crates : Crates} (laws : crates.Lawful) {config : AppConfig} (readsBack : crates.ReadsBack config)
    (settled : config.Settled)
    (secured : { config with configSecurity := some { mode := config.securityMode }, extractSecrets := false } = config)
    (ids : IdSupply) {settings : Json} (shown : Shows settings (.record config.toFields)) :
    ∃ loaded, crates.configOf ids settings = some loaded ∧ loaded.Alike config.normalizeConsumerPublisherOutputs := by
  obtain ⟨read, found, alike⟩ := config_shown laws readsBack settled.routes ids settings shown
  obtain ⟨entries, rfl, -⟩ := shows_record.mp shown
  refine ⟨read.migrateLegacyRoutes fun n => ids (0 + n), ?_, alike.migrate settled secured _⟩
  rw [Crates.configOf, lift_shown settled.routes shown]
  simp only [found, Option.map_some]

/-- What saving and loading a configuration rely on: the text it is serialised to is read back, the text of a
plain file is not taken for an encrypted one, and an encrypted file is written by the application's own
encoder, under the key it is read with. -/
structure RoundTrips (storage : Storage) (crates : Crates) (formats : Formats) (cipher : Cipher) (source : MasterKeySource)
    (path : Text) (saved : AppConfig) : Prop where
  laws : crates.Lawful
  readsBack : crates.ReadsBack saved
  build : ∀ plaintext, storage.serialize (configFileFormatFromPath path) (stripNulls saved.toValue) = .ok plaintext →
    ∃ settings, crates.build settingDefaults (some (configFileFormatFromPath path, plaintext)) = some settings ∧
      settings.Distinct ∧ settings.same (stripNulls saved.toValue) = true
  plain : ∀ plaintext file, storage.serialize (configFileFormatFromPath path) (stripNulls saved.toValue) = .ok plaintext →
    (formats.parse (configFileFormatFromPath path) plaintext).bind
        (EncryptedConfigFile.read formats (configFileFormatFromPath path)) = some file →
      file.configSecurity.mode = saved.securityMode.label
  sealer : usesEncryptedConfigMode saved.securityMode = true →
    ∃ sealer : Sealer, sealer.Opens formats cipher ∧ storage.encrypt = encodeSensitiveConfigFile sealer source

theorem usesEncryptedConfigMode_label (mode : ConfigSecurityMode) :
    usesEncryptedConfigModeLabel mode.label = usesEncryptedConfigMode mode := by
  cases mode <;> decide

theorem effectiveContent_saved {storage : Storage} {crates : Crates} {formats : Formats} {cipher : Cipher}
    {source : MasterKeySource} {path content plaintext : Text} {saved : AppConfig} {mode : ConfigSecurityMode}
    (assumed : RoundTrips storage crates formats cipher source path saved) (security : saved.securityMode = mode)
    (serialized : storage.serialize (configFileFormatFromPath path) (stripNulls saved.toValue) = .ok plaintext)
    (written : (if usesEncryptedConfigMode mode then
      storage.encrypt plaintext (configFileFormatFromPath path) mode.label else .ok plaintext) = .ok content) :
    effectiveContent formats cipher source content (configFileFormatFromPath path) = .ok plaintext := by
  unfold effectiveContent
  cases encrypted : usesEncryptedConfigMode mode with
  | true =>
    obtain ⟨sealer, opens, encoder⟩ := assumed.sealer (by rw [security, encrypted])
    rw [encrypted, if_pos rfl, encoder] at written
    rw [maybeDecrypt_encode opens (by rw [usesEncryptedConfigMode_label, encrypted]) written]
    rfl
  | false =>
    rw [encrypted, if_neg (by decide)] at written
    obtain rfl := Except.ok.inj written
    have unopened : maybeDecryptConfigSource formats cipher source plaintext (configFileFormatFromPath path) = .ok none := by
      unfold maybeDecryptConfigSource
      split
      · rfl
      · next file read =>
        rw [assumed.plain plaintext file serialized read, security, usesEncryptedConfigMode_label, encrypted,
          if_neg (by decide)]
    rw [unopened]
    rfl

/-- Loading what was saved gives the configuration as it was migrated and trimmed, with the names in its outputs
resolved again, when expansion leaves the saved text as it is. -/
theorem load_saved {storage : Storage} {crates : Crates} {formats : Formats} {cipher : Cipher} {source : MasterKeySource}
    {path content : Text} {file : Option Text} {config : AppConfig} {env : Text → Option Text} (ids : IdSupply)
    (fresh : storage.ids.Fresh config.entityIds) (inline : extractsSecrets config.securityMode = false)
    (assumed : RoundTrips storage crates formats cipher source path (config.toSave storage.ids))
    (saved : config.saveWithSecretStore storage path file = (some content, .ok ()))
    (unexpanded : ∀ plaintext, storage.serialize (configFileFormatFromPath path)
        (stripNulls (config.toSave storage.ids).toValue) = .ok plaintext →
      crates.expandVariables env plaintext (configFileFormatFromPath path) = plaintext) :
    ∃ loaded, crates.loadConfigAtPath formats cipher source ids env path (some content) = some loaded ∧
      loaded.Alike (config.toSave storage.ids).normalizeConsumerPublisherOutputs := by
  obtain ⟨output, text, same⟩ := save_ok saved
  obtain rfl := Option.some.inj same
  obtain ⟨plaintext, serialized, written⟩ := fileText_inline inline text
  have mode : (config.toSave storage.ids).securityMode = config.securityMode := by
    rw [AppConfig.securityMode, (toSave_security storage.ids config).1]
  have effective := effectiveContent_saved assumed mode serialized written
  obtain ⟨settings, built, shown⟩ := assumed.build plaintext serialized
  obtain ⟨loaded, found, alike⟩ := configOf_shown assumed.laws assumed.readsBack (toSave_settled fresh)
    (toSave_secured storage.ids config) ids (show Shows settings _ from shown)
  refine ⟨loaded, ?_, alike⟩
  rw [Crates.loadConfigAtPath, Crates.settings]
  simp only [effective, Except.toOption, Option.bind_some, unexpanded plaintext serialized, built, found]

/-! ### Readers of one document -/

def lineBreak (depth : Nat) : Text := '\n' :: List.replicate (2 * depth) ' '

mutual
def prettyAt (depth : Nat) : Json → Text
  | .arr [] => ['[', ']']
  | .arr (item :: rest) => '[' :: prettyItems (depth + 1) (item :: rest) ++ lineBreak depth ++ [']']
  | .obj [] => ['{', '}']
  | .obj (entry :: rest) => '{' :: prettyEntries (depth + 1) (entry :: rest) ++ lineBreak depth ++ ['}']
  | scalar => scalar.render
def prettyItems (depth : Nat) : List Json → Text
  | [] => []
  | item :: rest =>
    lineBreak depth ++ prettyAt depth item ++ (if rest.isEmpty then [] else [',']) ++ prettyItems depth rest
def prettyEntries (depth : Nat) : List (Text × Json) → Text
  | [] => []
  | (key, value) :: rest =>
    lineBreak depth ++ Json.renderString key ++ [':', ' '] ++ prettyAt depth value ++ (if rest.isEmpty then [] else [',']) ++
      prettyEntries depth rest
end

/-- `$$` becomes `$`. -/
def unescapeDollars : Text → Text
  | '$' :: '$' :: rest => '$' :: unescapeDollars rest
  | c :: rest => c :: unescapeDollars rest
  | [] => []

def readDigits (text : Text) : Option Nat :=
  if text.all Char.isDigit then some (Nat.ofDigitChars 10 text 0) else none

def readInteger (text : Text) : Option Int :=
  if text.head? = some '-' then (readDigits text.tail).map Int.negOfNat else (readDigits text).map Int.ofNat

def plainParse (documents : List Json) (text : Text) : Option Json :=
  documents.find? fun document => decide (text = prettyAt 0 document)

/-- Readers of some JSON documents, where every endpoint is a response and every route has default options. -/
def plainCrates (expand : (Text → Option Text) → Text → Text) (documents : List Json) : Crates where
  expand
  value format text := if format = .json then plainParse documents text else none
  build
    | defaults, none => some (.obj defaults)
    | _, some (format, text) => if format = .json then plainParse documents text else none
  string
    | .str text => some text
    | _ => none
  bool
    | .bool b => some b
    | _ => none
  nat
    | .num n => readDigits n.text
    | _ => none
  int
    | .num n => readInteger n.text
    | _ => none
  items
    | .arr items => some items
    | _ => none
  table
    | .obj entries => some entries
    | _ => none
  fields
    | _, .obj entries => some entries
    | names, .arr items => some (names.zip items)
    | _, _ => none
  endpoint document :=
    if document.same (stripNulls (Endpoint.new .response).toValue) then some (.new .response) else none
  route _ := none
  routeOptions entries := if (Json.obj entries).same (Data.record (RouteOptions.toFields {})).toValue then some {} else none

theorem readDigits_ofNat (n : Nat) : readDigits (ofNat n) = some n := by
  have digits : (ofNat n).all Char.isDigit = true := List.all_eq_true.mpr fun c member => isDigit_of_mem_ofNat member
  rw [readDigits, if_pos digits, ofNat, Nat.ofDigitChars_ten_toDigits]

theorem readInteger_ofInt (i : Int) : readInteger (JsonNumber.ofInt i).text = some i := by
  cases i with
  | ofNat n =>
    have digit : (ofNat n).head? ≠ some '-' := by
      intro head
      have member := List.mem_of_head? head
      exact absurd (isDigit_of_mem_ofNat member) (by decide)
    show readInteger (ofNat n) = _
    rw [readInteger, if_neg digit, readDigits_ofNat]
    rfl
  | negSucc n =>
    show readInteger ('-' :: ofNat (n + 1)) = _
    rw [readInteger, if_pos (List.head?_cons ..), List.tail_cons, readDigits_ofNat]
    rfl

section PlainCrates
variable (expand : (Text → Option Text) → Text → Text) (documents : List Json)

theorem plainCrates_lawful : (plainCrates expand documents).Lawful where
  string _ := rfl
  bool _ := rfl
  nat n := readDigits_ofNat n
  int i := readInteger_ofInt i
  items _ := rfl
  table _ := rfl
  fields _ _ := rfl

theorem plainCrates_build_of {documents : List Json} {text : Text} {document : Json}
    (parsed : plainParse documents text = some document) (defaults : List (Text × Json)) :
    (plainCrates expand documents).build defaults (some (.json, text)) = some document := parsed

theorem plainParse_first (document : Json) :
    plainParse (document :: documents) (prettyAt 0 document) = some document := by
  rw [plainParse, List.find?_cons_of_pos (by simp)]

theorem plainCrates_build (document : Json) (defaults : List (Text × Json)) :
    (plainCrates expand (document :: documents)).build defaults (some (.json, prettyAt 0 document)) = some document :=
  plainCrates_build_of expand (plainParse_first documents document) defaults

structure AppConfig.Plain (config : AppConfig) : Prop where
  consumers : ∀ consumer ∈ config.consumers, consumer.endpoint = .new .response ∧ consumer.options = {}
  publishers : ∀ publisher ∈ config.publishers, publisher.endpoint = .new .response

theorem plainCrates_readsBack {config : AppConfig} (plain : config.Plain) :
    (plainCrates expand documents).ReadsBack config where
  endpoint endpoint member given shown := by
    have response : endpoint = .new .response := by
      rcases List.mem_append.mp member with inside | inside
      · obtain ⟨consumer, there, rfl⟩ := List.mem_map.mp inside
        exact (plain.consumers consumer there).1
      · obtain ⟨publisher, there, rfl⟩ := List.mem_map.mp inside
        exact plain.publishers publisher there
    subst response
    exact ⟨.new .response, if_pos shown.2, SameDocuments.refl _⟩
  options consumer member entries shown := by
    rw [(plain.consumers consumer member).2] at shown ⊢
    exact if_pos shown.2

end PlainCrates

mutual
def nodeOf : Json → Node
  | .null => .null
  | .bool b => .bool b
  | .num n =>
    match readInteger n.text with
    | some i => .int i
    | none => .float n.text
  | .str text => .str text
  | .arr items => .seq (nodesOf items)
  | .obj entries => .map (membersOf entries)
def nodesOf : List Json → List Node
  | [] => []
  | item :: rest => nodeOf item :: nodesOf rest
def membersOf : List (Text × Json) → List (Text × Node)
  | [] => []
  | (key, value) :: rest => (key, nodeOf value) :: membersOf rest
end

def plainFormats (document : Json) : Formats where
  parse format text := if format = .json ∧ text = prettyAt 0 document then some (nodeOf document) else none
  readString _ := fun
    | .str text => some text
    | _ => none
  positional format := format == .json

theorem plainFormats_parse (document : Json) :
    (plainFormats document).parse .json (prettyAt 0 document) = some (nodeOf document) := if_pos ⟨rfl, rfl⟩

theorem json_path : configFileFormatFromPath "config.json" = .json := by decide

/-- A file system on which nothing fails, for plain JSON files. -/
def plainStorage : Storage where
  bridge := { toUppercase := toAsciiUppercase, endpoint := fun e => (e, []), route := fun r => (r, []), iterate := id }
  ids := tallyIds
  storeSecrets := fun _ => .ok ()
  createParent := fun _ => .ok ()
  serialize := fun _ value => .ok (prettyAt 0 value)
  encrypt := fun _ _ _ => .error "Failed to encrypt sensitive config"
  write := fun _ _ => .ok ()

section
variable {config : AppConfig} (inline : extractsSecrets config.securityMode = false)
  (unencrypted : usesEncryptedConfigMode config.securityMode = false) (path : Text)
include inline unencrypted

theorem plainStorage_text : config.fileText plainStorage path =
    .ok (prettyAt 0 (stripNulls (config.toSave tallyIds).toValue)) := by
  have mode : (config.toSave tallyIds).securityMode = config.securityMode := by
    rw [AppConfig.securityMode, (toSave_security tallyIds config).1]
  have secured := toSave_secured tallyIds config
  rw [mode] at secured
  unfold AppConfig.fileText
  simp only [plainStorage, mode, inline, unencrypted, secured, Bool.false_eq_true, if_false, pure_bind]
  rfl

theorem plainStorage_saves (file : Option Text) : config.saveWithSecretStore plainStorage path file =
    (some (prettyAt 0 (stripNulls (config.toSave tallyIds).toValue)), .ok ()) := by
  rw [AppConfig.saveWithSecretStore, plainStorage_text inline unencrypted]
  rfl

end

def noCipher : Cipher := ⟨fun _ => none, fun _ _ _ _ => none⟩

section
variable {expand : (Text → Option Text) → Text → Text} {document : Json}

theorem plainFormats_clear {mode : Text}
    (marked : EncryptedConfigFile.read (plainFormats document) .json (nodeOf document) = some ⟨⟨mode⟩, none⟩)
    (unencrypted : usesEncryptedConfigModeLabel mode = false) :
    effectiveContent (plainFormats document) noCipher ⟨none, none⟩ (prettyAt 0 document) .json =
      .ok (prettyAt 0 document) := by
  rw [effectiveContent, maybeDecryptConfigSource, plainFormats_parse, Option.bind_some, marked]
  show Except.map _ (if usesEncryptedConfigModeLabel mode = true then _ else _) = _
  rw [unencrypted]
  rfl

theorem plainCrates_settings {documents : List Json} {formats : Formats} {content : Text} {env : Text → Option Text}
    (clear : effectiveContent formats noCipher ⟨none, none⟩ content .json = .ok content)
    (expanded : (plainCrates expand documents).expandVariables env content .json = prettyAt 0 document)
    (parsed : plainParse documents (prettyAt 0 document) = some document) :
    (plainCrates expand documents).settings formats noCipher ⟨none, none⟩ env "config.json" (some content) =
      some document := by
  have built := plainCrates_build_of expand parsed settingDefaults
  rw [Crates.settings]
  simp only [json_path, clear, Except.toOption, Option.bind_some, expanded, built]

theorem plainCrates_loads {documents : List Json} {formats : Formats} {content : Text} {ids : IdSupply}
    {env : Text → Option Text} {loaded : AppConfig}
    (clear : effectiveContent formats noCipher ⟨none, none⟩ content .json = .ok content)
    (expanded : (plainCrates expand documents).expandVariables env content .json = prettyAt 0 document)
    (parsed : plainParse documents (prettyAt 0 document) = some document)
    (found : (plainCrates expand documents).configOf ids document = some loaded) :
    (plainCrates expand documents).loadConfigAtPath formats noCipher ⟨none, none⟩ ids env "config.json"
      (some content) = some loaded := by
  rw [Crates.loadConfigAtPath, plainCrates_settings clear expanded parsed, Option.bind_some, found]

theorem plainStorage_roundTrips {saved : AppConfig} (file : stripNulls saved.toValue = document) (plain : saved.Plain)
    (unencrypted : usesEncryptedConfigMode saved.securityMode = false) (distinct : document.Distinct)
    (marked : EncryptedConfigFile.read (plainFormats document) .json (nodeOf document) =
      some ⟨⟨saved.securityMode.label⟩, none⟩) :
    RoundTrips plainStorage (plainCrates expand [document]) (plainFormats document) noCipher ⟨none, none⟩ "config.json"
      saved where
  laws := plainCrates_lawful _ _
  readsBack := plainCrates_readsBack _ _ plain
  build plaintext serialized := by
    rw [file] at serialized ⊢
    obtain rfl : prettyAt 0 document = plaintext := Except.ok.inj serialized
    rw [json_path]
    exact ⟨document, plainCrates_build _ _ _ _, distinct, Json.same_refl distinct⟩
  plain plaintext parsed serialized read := by
    rw [file] at serialized
    obtain rfl : prettyAt 0 document = plaintext := Except.ok.inj serialized
    rw [json_path, plainFormats_parse, Option.bind_some, marked] at read
    obtain rfl := Option.some.inj read
    rfl
  sealer encrypted := by
    rw [unencrypted] at encrypted
    cases encrypted

end

def paddedConfig (payload : Text) : AppConfig where
  publishers := [{ id := "p1", name := " orders ", endpoint := .new .response, payload }]
  consumers := [{ id := "c1", name := "inbox", endpoint := .new .response, output := .publisher " orders " (some "p1") }]
  history := [("p1", .obj [("note", .null)])]
  configSecurity := some { mode := .unencrypted }

def paddedDocument (payload : Text) : Json := stripNulls ((paddedConfig payload).toSave tallyIds).toValue

def paddedCrates (payload : Text) : Crates :=
  plainCrates (fun _ => unescapeDollars) [paddedDocument payload]

theorem paddedConfig_plain (payload : Text) : ((paddedConfig payload).toSave tallyIds).Plain where
  consumers consumer member := by
    obtain rfl : consumer = _ := List.mem_singleton.mp (show consumer ∈ [_] from member)
    exact ⟨rfl, rfl⟩
  publishers publisher member := by
    obtain rfl : publisher = _ := List.mem_singleton.mp (show publisher ∈ [_] from member)
    rfl

theorem padded_roundTrips :
    RoundTrips plainStorage (paddedCrates "pay 5") (plainFormats (paddedDocument "pay 5")) noCipher
      ⟨none, none⟩ "config.json" ((paddedConfig "pay 5").toSave tallyIds) :=
  plainStorage_roundTrips rfl (paddedConfig_plain _) rfl (by decide +kernel) (by rfl)

theorem load_saved_padded : ∃ loaded,
    (paddedCrates "pay 5").loadConfigAtPath (plainFormats (paddedDocument "pay 5")) noCipher ⟨none, none⟩
        tallyIds (fun _ => none) "config.json" (some (prettyAt 0 (paddedDocument "pay 5"))) = some loaded ∧
      loaded.Alike ((paddedConfig "pay 5").toSave tallyIds).normalizeConsumerPublisherOutputs := by
  have fresh : plainStorage.ids.Fresh (paddedConfig "pay 5").entityIds := tallyIds_fresh (by decide)
  have unexpanded : (paddedCrates "pay 5").expandVariables (fun _ => none) (prettyAt 0 (paddedDocument "pay 5")) .json =
      prettyAt 0 (paddedDocument "pay 5") := by decide +kernel
  refine load_saved tallyIds fresh rfl padded_roundTrips (plainStorage_saves rfl rfl _ none) fun plaintext serialized => ?_
  obtain rfl : prettyAt 0 (paddedDocument "pay 5") = plaintext := Except.ok.inj serialized
  rw [json_path]
  exact unexpanded

/-- A saved dollar pair, a null in a payload and the padded name of an output are not what is loaded. -/
theorem padded_reloads_changed : ∃ content loaded,
    (paddedConfig "pay $$5").saveWithSecretStore plainStorage "config.json" none = (some content, .ok ()) ∧
    (paddedCrates "pay $5").loadConfigAtPath (plainFormats (paddedDocument "pay $$5")) noCipher ⟨none, none⟩
        tallyIds (fun _ => none) "config.json" (some content) = some loaded ∧
    loaded.publishers.map (·.payload) = ["pay $5"] ∧
      ((paddedConfig "pay $$5").toSave tallyIds).publishers.map (·.payload) = ["pay $$5"] ∧
    loaded.history = [(("p1" : Text), Json.obj [])] ∧
      ((paddedConfig "pay $$5").toSave tallyIds).history = [(("p1" : Text), Json.obj [("note", .null)])] ∧
    loaded.consumers.map (·.output) = [.publisher "orders" (some "p1")] ∧
      ((paddedConfig "pay $$5").toSave tallyIds).consumers.map (·.output) = [.publisher " orders " (some "p1")] := by
  have marked : EncryptedConfigFile.read (plainFormats (paddedDocument "pay $$5")) .json
      (nodeOf (paddedDocument "pay $$5")) = some ⟨⟨"unencrypted"⟩, none⟩ := by rfl
  have expanded : (paddedCrates "pay $5").expandVariables (fun _ => none) (prettyAt 0 (paddedDocument "pay $$5")) .json =
      prettyAt 0 (paddedDocument "pay $5") := by decide +kernel
  have read : ∃ loaded, (paddedCrates "pay $5").configOf tallyIds (paddedDocument "pay $5") = some loaded ∧
      loaded.publishers.map (·.payload) = ["pay $5"] ∧ loaded.history = [(("p1" : Text), Json.obj [])] ∧
      loaded.consumers.map (·.output) = [.publisher "orders" (some "p1")] := ⟨_, rfl, rfl, rfl, rfl⟩
  obtain ⟨loaded, found, payload, history, output⟩ := read
  exact ⟨prettyAt 0 (paddedDocument "pay $$5"), loaded, plainStorage_saves rfl rfl _ _,
    plainCrates_loads (plainFormats_clear marked (by decide)) expanded (plainParse_first _ _) found, payload, rfl, history,
    rfl, output, rfl⟩

end MqBridge.Config
