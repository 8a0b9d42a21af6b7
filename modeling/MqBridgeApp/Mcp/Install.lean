import MqBridgeApp.Lib.JsonAgree
import MqBridgeApp.Lib.JsonText

/-!
# Registering the server with clients

An install puts one entry into the configuration file of each client, unless the client's own command line does it.
The file belongs to the client, so everything else in it has to stay.
-/

namespace MqBridge.Mcp
open Text

def serverName : Text := "mq-bridge"

def serversKey : Text := "mcpServers"

inductive Client where
  | claude
  | claudeDesktop
  | cursor
  deriving DecidableEq

def clients : List Client := [.claude, .claudeDesktop, .cursor]

def Client.clientLabel : Client → Text
  | .claude => "Claude Code"
  | .claudeDesktop => "Claude Desktop"
  | .cursor => "Cursor"

inductive Platform where
  | macos
  | windows
  | other

structure Machine where
  home : Option Text
  appData : Option Text
  platform : Platform
  claudeOnPath : Bool
  exe : Text

def claudeDesktopConfigPath (machine : Machine) : Option Text := do
  let home ← machine.home
  let directory ← match machine.platform with
    | .macos => some (home ++ ("/Library/Application Support/Claude" : Text))
    | .windows => machine.appData.map fun roaming => roaming ++ ("/Claude" : Text)
    | .other => some (home ++ ("/.config/Claude" : Text))
  some (directory ++ ("/claude_desktop_config.json" : Text))

/-- The file of a client, in the project or for the user. -/
def Client.configPath (machine : Machine) : Client → Bool → Option Text
  | .claude, true => some ".mcp.json"
  | .claude, false => machine.home.map fun home => home ++ ("/.claude.json" : Text)
  | .cursor, true => some ".cursor/mcp.json"
  | .cursor, false => machine.home.map fun home => home ++ ("/.cursor/mcp.json" : Text)
  | .claudeDesktop, true => none
  | .claudeDesktop, false => claudeDesktopConfigPath machine

abbrev ClientFiles := Text → Option Text

def Client.detected (machine : Machine) (files : ClientFiles) (client : Client) : Bool :=
  (client = .claude ∧ machine.claudeOnPath) || ((client.configPath machine false).bind files).isSome

def clientTargets (machine : Machine) (files : ClientFiles) : Option Client → Except Text (List Client)
  | some client => .ok [client]
  | none =>
    let detected := clients.filter (Client.detected machine files)
    if detected.isEmpty then
      .error (("no MCP client detected; pass --client <claude|claude-desktop|cursor>, " : Text) ++
        ("or use --print-config to configure one by hand" : Text))
    else .ok detected

structure JsonLibrary where
  parse : Text → Option Json
  pretty : Json → Text

/-- What goes wrong with a file. A write that fails may have cut it off. -/
inductive FileFault where
  | reading
  | creating
  | writing (truncated : Bool)

section
variable (json : JsonLibrary) (fault : Text → Option FileFault)

/-- The value of a file. One that is missing or blank is an empty object. -/
def parsedConfig : Option Text → Option Json
  | none => some (.obj [])
  | some text => if (trim text).isEmpty then some (.obj []) else json.parse text

def readClientConfig (path : Text) (files : ClientFiles) : Except Text Json :=
  match files path, fault path with
  | some _, some .reading => .error (("failed to read " : Text) ++ path)
  | content, _ =>
    match parsedConfig json content with
    | some config => .ok config
    | none => .error (path ++ (" is not valid JSON" : Text))

def putFile (files : ClientFiles) (path : Text) (content : Option Text) : ClientFiles :=
  fun other => if other = path then content else files other

def writeClientConfig (path : Text) (config : Json) (files : ClientFiles) : Except Text Unit × ClientFiles :=
  match fault path with
  | some .creating =>
    (.error (("failed to create " : Text) ++ ((rsplitOnce '/' path).map Prod.fst).getD []), files)
  | some (.writing truncated) =>
    (.error (("failed to write " : Text) ++ path), if truncated then putFile files path (some []) else files)
  | _ => (.ok (), putFile files path (some (json.pretty config ++ ("\n" : Text))))

def serverEntry (exe : Text) : Json :=
  .obj [("args", .arr [.str "mcp", .str "--transport", .str "stdio"]), ("command", .str exe)]

def mergeServer (path : Text) (entry : Json) (files : ClientFiles) : Except Text Unit × ClientFiles :=
  match readClientConfig json fault path files with
  | .error error => (.error error, files)
  | .ok (.obj config) =>
    match (config.lookup serversKey).getD (.obj []) with
    | .obj servers =>
      writeClientConfig json fault path
        (.obj (Assoc.insert config (serversKey, .obj (Assoc.insert servers (serverName, entry))))) files
    | _ => (.error (("'mcpServers' in " : Text) ++ path ++ (" is not an object" : Text)), files)
  | .ok _ => (.error (path ++ (" does not contain a JSON object" : Text)), files)

/-- Removes the entry of the server, and tells whether there was one. -/
def removeServer (path : Text) (files : ClientFiles) : Except Text Bool × ClientFiles :=
  if (files path).isNone then (.ok false, files)
  else
    match readClientConfig json fault path files with
    | .error error => (.error error, files)
    | .ok (.obj config) =>
      match config.lookup serversKey with
      | some (.obj servers) =>
        if (servers.lookup serverName).isSome then
          let (written, files) := writeClientConfig json fault path
            (.obj (Assoc.insert config (serversKey, .obj (Assoc.erase servers serverName)))) files
          (written.map fun _ => true, files)
        else (.ok false, files)
      | _ => (.ok false, files)
    | .ok _ => (.ok false, files)

/-! ### Commands -/

inductive CliOutcome where
  | done
  | refused
  | notRun
  deriving DecidableEq

/-- How the command line of a client ends, and what it does to the files. -/
abbrev ClaudeCli := ClientFiles → CliOutcome × ClientFiles

structure Ran where
  lines : List Text := []
  outcome : Except Text Unit := .ok ()
  files : ClientFiles

def Ran.before (line : Text) (ran : Ran) : Ran := { ran with lines := line :: ran.lines }

def installAll (machine : Machine) (inProject : Bool) (cli : ClaudeCli) : List Client → ClientFiles → Ran
  | [], files => { lines := ["Restart the client fully (not just a new tab) for it to pick the server up."], files }
  | client :: rest, files =>
    let byCli := if client = .claude ∧ machine.claudeOnPath then cli files else (.refused, files)
    match byCli with
    | (.notRun, files) => { outcome := .error "failed to run the claude CLI", files }
    | (.done, files) =>
      (installAll machine inProject cli rest files).before
        (client.clientLabel ++ (": registered '" : Text) ++ serverName ++ ("' via the claude CLI" : Text))
    | (.refused, files) =>
      match client.configPath machine inProject with
      | none => { outcome := .error (client.clientLabel ++ (" has no project-scoped config; drop --local" : Text)), files }
      | some path =>
        match mergeServer json fault path (serverEntry machine.exe) files with
        | (.error error, files) => { outcome := .error error, files }
        | (.ok (), files) =>
          (installAll machine inProject cli rest files).before
            (client.clientLabel ++ (": registered '" : Text) ++ serverName ++ ("' in " : Text) ++ path)

def uninstallAll (machine : Machine) (inProject : Bool) (cli : ClaudeCli) : List Client → ClientFiles → Ran
  | [], files => { files }
  | client :: rest, files =>
    let byCli := if client = .claude ∧ machine.claudeOnPath then cli files else (.refused, files)
    match byCli with
    | (.notRun, files) => { outcome := .error "failed to run the claude CLI", files }
    | (.done, files) =>
      (uninstallAll machine inProject cli rest files).before
        (client.clientLabel ++ (": removed '" : Text) ++ serverName ++ ("' via the claude CLI" : Text))
    | (.refused, files) =>
      match client.configPath machine inProject with
      | none => uninstallAll machine inProject cli rest files
      | some path =>
        match removeServer json fault path files with
        | (.error error, files) => { outcome := .error error, files }
        | (.ok true, files) =>
          (uninstallAll machine inProject cli rest files).before
            (client.clientLabel ++ (": removed '" : Text) ++ serverName ++ ("' from " : Text) ++ path)
        | (.ok false, files) =>
          (uninstallAll machine inProject cli rest files).before
            (client.clientLabel ++ (": '" : Text) ++ serverName ++ ("' was not registered" : Text))

def registered (config : Json) : Option Json := (config.get? serversKey).bind (Json.get? serverName)

/-- What the status says of a client that has a file. -/
def statusLine (machine : Machine) (client : Client) (path : Text) (config : Json) : Text :=
  match registered config with
  | some entry =>
    let command := match entry.get? "command" with
      | some (.str command) => command
      | _ => "?"
    client.clientLabel ++ (": registered -> " : Text) ++ command ++
      (if command = machine.exe then ([] : Text) else "  (points at a different binary)")
  | none => client.clientLabel ++ (": not registered (" : Text) ++ path ++ (")" : Text)

def clientStatus (machine : Machine) (inProject : Bool) (files : ClientFiles) (client : Client) : Except Text Text :=
  match client.configPath machine inProject with
  | none => .ok (client.clientLabel ++ (": no " : Text) ++ (if inProject then "project" else "user") ++ (" scope" : Text))
  | some path => (readClientConfig json fault path files).map (statusLine machine client path)

/-- The first file that cannot be read ends the status. -/
def statusAll (machine : Machine) (inProject : Bool) (files : ClientFiles) : List Client → Ran
  | [] => { files }
  | client :: rest =>
    match clientStatus json fault machine inProject files client with
    | .error error => { outcome := .error error, files }
    | .ok line => (statusAll machine inProject files rest).before line

def status (machine : Machine) (inProject : Bool) (files : ClientFiles) : Ran :=
  (statusAll json fault machine inProject files clients).before (("this binary: " : Text) ++ machine.exe ++ ("\n" : Text))

end

/-! ### What stays -/

/-- Two values, where there are any, are equal up to the order of keys. -/
def SameAt : Option Json → Option Json → Prop
  | none, none => True
  | some first, some second => first.same second = true
  | _, _ => False

theorem sameAt_refl {value : Option Json} (distinct : ∀ found, value = some found → found.Distinct) :
    SameAt value value := by
  cases value with
  | none => trivial
  | some found => exact Json.same_refl (distinct found rfl)

theorem SameAt.trans {first second third : Option Json} (one : SameAt first second) (two : SameAt second third) :
    SameAt first third := by
  cases first <;> cases second <;> cases third <;> simp only [SameAt] at one two ⊢
  exact Json.same_trans one two

theorem get_distinct {config found : Json} (distinct : config.Distinct) {key : Text}
    (there : config.get? key = some found) : found.Distinct := by
  cases config with
  | obj entries => exact Json.distinct_of_entry distinct.2 (Assoc.mem_of_lookup there)
  | null | bool _ | num _ | str _ | arr _ => cases there

theorem get_of_same {first second : Json} {key : Text} {found : Json} (same : first.same second = true)
    (there : first.get? key = some found) : ∃ other, second.get? key = some other ∧ found.same other = true := by
  cases first with
  | obj entries =>
    cases second <;> simp only [Json.same, Bool.false_eq_true, Bool.and_eq_true] at same
    exact Json.sameEntries_iff.mp same.2 _ (Assoc.mem_of_lookup there)
  | null | bool _ | num _ | str _ | arr _ => cases there

theorem sameAt_of_same {first second : Json} (distinct : first.Distinct) (same : first.same second = true) (key : Text) :
    SameAt (first.get? key) (second.get? key) := by
  have distinctSecond := Json.distinct_of_same distinct same
  cases here : first.get? key with
  | some found =>
    obtain ⟨other, there, equal⟩ := get_of_same same here
    rw [there]
    exact equal
  | none =>
    cases there : second.get? key with
    | none => trivial
    | some other =>
      obtain ⟨found, back, -⟩ := get_of_same (Json.same_symm distinct distinctSecond same) there
      rw [back] at here
      cases here

def serverAt (config : Json) (name : Text) : Option Json := (config.get? serversKey).bind (Json.get? name)

/-- An object, with an object of servers where it has any. -/
def HoldsServers (config : Json) : Prop :=
  ∃ entries, config = .obj entries ∧ ∀ value, entries.lookup serversKey = some value → ∃ servers, value = .obj servers

/-- Two configurations that hold servers and differ in the entry of this server only. -/
structure Untouched (before after : Json) : Prop where
  holds : HoldsServers before
  stays : HoldsServers after
  kept : (before.get? serversKey).isSome = true → (after.get? serversKey).isSome = true
  keys : ∀ key, key ≠ serversKey → SameAt (before.get? key) (after.get? key)
  servers : ∀ name, name ≠ serverName → SameAt (serverAt before name) (serverAt after name)

theorem Untouched.trans {first second third : Json} (one : Untouched first second) (two : Untouched second third) :
    Untouched first third :=
  ⟨one.holds, two.stays, fun held => two.kept (one.kept held),
    fun key other => (one.keys key other).trans (two.keys key other),
    fun name other => (one.servers name other).trans (two.servers name other)⟩

theorem HoldsServers.of_same {first second : Json} (distinct : first.Distinct) (holds : HoldsServers first)
    (same : first.same second = true) : HoldsServers second := by
  obtain ⟨entries, rfl, tables⟩ := holds
  cases second with
  | obj others =>
    refine ⟨others, rfl, fun value found => ?_⟩
    have back := Json.same_symm distinct (Json.distinct_of_same distinct same) same
    obtain ⟨table, there, equal⟩ := get_of_same back (show (Json.obj others).get? serversKey = some value from found)
    obtain ⟨servers, rfl⟩ := tables table there
    cases value with
    | obj servers => exact ⟨servers, rfl⟩
    | null | bool _ | num _ | str _ | arr _ => cases equal
  | null | bool _ | num _ | str _ | arr _ => cases same

theorem serverAt_of_same {first second : Json} (distinct : first.Distinct) (same : first.same second = true)
    (name : Text) : SameAt (serverAt first name) (serverAt second name) := by
  have outer := sameAt_of_same distinct same serversKey
  unfold serverAt
  cases here : first.get? serversKey with
  | none =>
    cases there : second.get? serversKey with
    | none => trivial
    | some _ =>
      rw [here, there] at outer
      exact outer.elim
  | some servers =>
    cases there : second.get? serversKey with
    | none =>
      rw [here, there] at outer
      exact outer.elim
    | some others =>
      rw [here, there] at outer
      exact sameAt_of_same (get_distinct distinct here) outer name

/-- What reading and writing rely on: values that are read have distinct keys, what is written is read back, and a
blank text is no value. -/
structure JsonLibrary.Lawful (json : JsonLibrary) : Prop where
  distinct : ∀ text value, json.parse text = some value → value.Distinct
  readBack : ∀ value, value.Distinct → ∃ read, json.parse (json.pretty value ++ ("\n" : Text)) = some read ∧
    value.same read = true
  blank : ∀ text, (trim text).isEmpty = true → json.parse text = none

/-- A file that is the same as before, or a configuration that only differs in the entry of this server. -/
def OnlyOurs (json : JsonLibrary) (before after : Option Text) : Prop :=
  before = after ∨ ∃ old new, parsedConfig json before = some old ∧ parsedConfig json after = some new ∧
    Untouched old new

theorem OnlyOurs.trans {json : JsonLibrary} {first second third : Option Text} (one : OnlyOurs json first second)
    (two : OnlyOurs json second third) : OnlyOurs json first third := by
  rcases one with rfl | ⟨old, middle, readOld, readMiddle, untouched⟩
  · exact two
  · rcases two with rfl | ⟨again, new, readAgain, readNew, later⟩
    · exact .inr ⟨old, middle, readOld, readMiddle, untouched⟩
    · obtain rfl := Option.some.inj (readMiddle.symm.trans readAgain)
      exact .inr ⟨old, new, readOld, readNew, untouched.trans later⟩

section
variable {json : JsonLibrary} {fault : Text → Option FileFault} {path : Text} {files after : ClientFiles}

theorem parsed_distinct (lawful : json.Lawful) {content : Option Text} {config : Json}
    (parsed : parsedConfig json content = some config) : config.Distinct := by
  unfold parsedConfig at parsed
  split at parsed
  · obtain rfl := Option.some.inj parsed
    exact ⟨List.nodup_nil, trivial⟩
  · split at parsed
    · obtain rfl := Option.some.inj parsed
      exact ⟨List.nodup_nil, trivial⟩
    · exact lawful.distinct _ _ parsed

theorem parsed_written (lawful : json.Lawful) {config : Json} (distinct : config.Distinct) :
    ∃ read, parsedConfig json (some (json.pretty config ++ ("\n" : Text))) = some read ∧ config.same read = true := by
  obtain ⟨read, parsed, same⟩ := lawful.readBack config distinct
  refine ⟨read, ?_, same⟩
  rw [parsedConfig, if_neg, parsed]
  intro blank
  rw [lawful.blank _ blank] at parsed
  cases parsed

theorem read_ok {config : Json} (read : readClientConfig json fault path files = .ok config) :
    parsedConfig json (files path) = some config := by
  unfold readClientConfig at read
  split at read
  · cases read
  · split at read
    · next parsed =>
      rw [parsed, Except.ok.inj read]
    · cases read

theorem distinct_insert {entries : List (Text × Json)} (key : Text) {value : Json}
    (distinct : (Json.obj entries).Distinct) (distinctValue : value.Distinct) :
    (Json.obj (Assoc.insert entries (key, value))).Distinct := by
  refine ⟨Assoc.nodup_insert distinct.1, Json.distinctEntries_of_each fun entry member => ?_⟩
  rcases List.mem_append.mp member with old | new
  · exact Json.distinct_of_entry distinct.2 (List.mem_filter.mp old).1
  · rw [List.mem_singleton.mp new]
    exact distinctValue

theorem distinct_erase {entries : List (Text × Json)} (key : Text) (distinct : (Json.obj entries).Distinct) :
    (Json.obj (Assoc.erase entries key)).Distinct :=
  ⟨distinct.1.sublist (List.filter_sublist.map _), Json.distinctEntries_of_each fun _ member =>
    Json.distinct_of_entry distinct.2 (List.mem_filter.mp member).1⟩

theorem holds_inserted (config servers : List (Text × Json)) :
    HoldsServers (.obj (Assoc.insert config (serversKey, .obj servers))) := by
  refine ⟨_, rfl, fun value found => ⟨servers, ?_⟩⟩
  rw [Assoc.lookup_insert, if_pos (beq_self_eq_true _)] at found
  exact (Option.some.inj found).symm

/-- Putting servers in the place of others that only differ in this one leaves the rest. -/
theorem untouched_insert {config servers : List (Text × Json)} (distinct : (Json.obj config).Distinct)
    (holds : HoldsServers (.obj config))
    (others : ∀ name, name ≠ serverName → serverAt (.obj config) name = servers.lookup name) :
    Untouched (.obj config) (.obj (Assoc.insert config (serversKey, .obj servers))) where
  holds := holds
  stays := holds_inserted config servers
  kept _ := by
    show ((Assoc.insert _ _).lookup serversKey).isSome = true
    rw [Assoc.lookup_insert, if_pos (beq_self_eq_true _)]
    rfl
  keys key other := by
    have same : (Json.obj (Assoc.insert config (serversKey, .obj servers))).get? key = (Json.obj config).get? key :=
      Assoc.lookup_insert_other other _ _
    rw [same]
    exact sameAt_refl fun found there => get_distinct distinct there
  servers name other := by
    have same : serverAt (.obj (Assoc.insert config (serversKey, .obj servers))) name = servers.lookup name := by
      simp [serverAt, Json.get?, Assoc.lookup_insert]
    rw [same, ← others name other]
    refine sameAt_refl fun found there => ?_
    obtain ⟨inner, outer, last⟩ := Option.bind_eq_some_iff.mp there
    exact get_distinct (get_distinct distinct outer) last

def WholeWrites (fault : Text → Option FileFault) : Prop := ∀ path, fault path ≠ some (.writing true)

theorem putFile_onlyOurs {content : Option Text} (only : OnlyOurs json (files path) content) (other : Text) :
    OnlyOurs json (files other) (putFile files path content other) := by
  unfold putFile
  split
  · next same => exact same ▸ only
  · exact .inl rfl

/-- A write of a configuration that only differs in this server. -/
theorem write_onlyOurs (lawful : json.Lawful) (whole : WholeWrites fault) {config new : Json}
    (parsed : parsedConfig json (files path) = some config) (distinct : new.Distinct) (untouched : Untouched config new)
    (other : Text) : OnlyOurs json (files other) ((writeClientConfig json fault path new files).2 other) := by
  unfold writeClientConfig
  split
  · exact .inl rfl
  · next truncated failing =>
    cases truncated with
    | true => exact absurd failing (whole path)
    | false => exact .inl rfl
  · obtain ⟨read, back, same⟩ := parsed_written lawful distinct
    have read_ := untouched.stays.of_same distinct same
    refine putFile_onlyOurs (.inr ⟨config, read, parsed, back, untouched.trans ?_⟩) other
    refine ⟨untouched.stays, read_, fun held => ?_, fun key _ => sameAt_of_same distinct same key,
      fun name _ => serverAt_of_same distinct same name⟩
    obtain ⟨table, there⟩ := Option.isSome_iff_exists.mp held
    obtain ⟨found, here, -⟩ := get_of_same same there
    rw [here]
    rfl

theorem serverEntry_distinct (exe : Text) : (serverEntry exe).Distinct :=
  ⟨show [("args" : Text), "command"].Nodup by decide, ⟨trivial, trivial, trivial, trivial⟩, trivial, trivial⟩

/-- What a merge writes, when it writes. -/
theorem merge_cases (lawful : json.Lawful) (fault : Text → Option FileFault) (path : Text) (entry : Json)
    (files : ClientFiles) :
    (∃ error, mergeServer json fault path entry files = (.error error, files)) ∨
      ∃ config servers, parsedConfig json (files path) = some (.obj config) ∧
        (Json.obj config).Distinct ∧ (Json.obj servers).Distinct ∧ HoldsServers (.obj config) ∧
        (∀ name, serverAt (.obj config) name = servers.lookup name) ∧
        mergeServer json fault path entry files = writeClientConfig json fault path
          (.obj (Assoc.insert config (serversKey, .obj (Assoc.insert servers (serverName, entry))))) files := by
  unfold mergeServer
  split
  · exact .inl ⟨_, rfl⟩
  · next config read =>
    have parsed := read_ok read
    have distinct := parsed_distinct lawful parsed
    split
    · next servers found =>
      refine .inr ⟨config, servers, parsed, distinct, ?_, ⟨config, rfl, fun value there => ?_⟩, fun name => ?_, rfl⟩
      · cases there : config.lookup serversKey with
        | none =>
          rw [there] at found
          cases found
          exact ⟨List.nodup_nil, trivial⟩
        | some value =>
          rw [there] at found
          obtain rfl : value = .obj servers := found
          exact Json.distinct_of_entry distinct.2 (Assoc.mem_of_lookup there)
      · rw [there] at found
        exact ⟨servers, found⟩
      · cases there : config.lookup serversKey with
        | none =>
          rw [there] at found
          cases found
          simp [serverAt, Json.get?, there]
        | some value =>
          rw [there] at found
          obtain rfl : value = .obj servers := found
          simp [serverAt, Json.get?, there]
    · exact .inl ⟨_, rfl⟩
  · exact .inl ⟨_, rfl⟩

theorem merge_onlyOurs (lawful : json.Lawful) (whole : WholeWrites fault) {entry : Json} (distinct : entry.Distinct)
    (other : Text) : OnlyOurs json (files other) ((mergeServer json fault path entry files).2 other) := by
  rcases merge_cases lawful fault path entry files with ⟨error, failed⟩ |
    ⟨config, servers, parsed, distinctConfig, distinctServers, holds, held, merged⟩
  · rw [failed]
    exact .inl rfl
  · rw [merged]
    have distinctNew := distinct_insert serversKey distinctConfig (distinct_insert serverName distinctServers distinct)
    refine write_onlyOurs lawful whole parsed distinctNew (untouched_insert distinctConfig holds fun name apart => ?_) other
    rw [held, Assoc.lookup_insert_other apart]

theorem remove_cases (lawful : json.Lawful) (fault : Text → Option FileFault) (path : Text) (files : ClientFiles) :
    ((removeServer json fault path files).2 = files ∧
      ((removeServer json fault path files).1 = .ok false → ∀ config, parsedConfig json (files path) = some config →
        serverAt config serverName = none) ∧ (removeServer json fault path files).1 ≠ .ok true) ∨
      ∃ config servers, parsedConfig json (files path) = some (.obj config) ∧
        (Json.obj config).Distinct ∧ (Json.obj servers).Distinct ∧ HoldsServers (.obj config) ∧
        (∀ name, serverAt (.obj config) name = servers.lookup name) ∧
        removeServer json fault path files =
          ((writeClientConfig json fault path
            (.obj (Assoc.insert config (serversKey, .obj (Assoc.erase servers serverName)))) files).1.map fun _ => true,
          (writeClientConfig json fault path
            (.obj (Assoc.insert config (serversKey, .obj (Assoc.erase servers serverName)))) files).2) := by
  unfold removeServer
  split
  · next missing =>
    refine .inl ⟨rfl, fun _ config parsed => ?_, by simp⟩
    rw [Option.isNone_iff_eq_none.mp missing] at parsed
    obtain rfl := Option.some.inj parsed
    rfl
  · split
    · exact .inl ⟨rfl, by simp, by simp⟩
    · next config read =>
      have parsed := read_ok read
      have distinct := parsed_distinct lawful parsed
      split
      · next servers found =>
        have held (name : Text) : serverAt (.obj config) name = servers.lookup name := by
          simp [serverAt, Json.get?, found]
        split
        · refine .inr ⟨config, servers, parsed, distinct,
            Json.distinct_of_entry distinct.2 (Assoc.mem_of_lookup found), ⟨config, rfl, fun value there => ?_⟩, held, rfl⟩
          exact ⟨servers, Option.some.inj (there.symm.trans found)⟩
        · next absent =>
          refine .inl ⟨rfl, fun _ other again => ?_, by simp⟩
          obtain rfl := Option.some.inj (parsed.symm.trans again)
          rw [held]
          exact Option.not_isSome_iff_eq_none.mp absent
      · next others =>
        refine .inl ⟨rfl, fun _ other again => ?_, by simp⟩
        obtain rfl := Option.some.inj (parsed.symm.trans again)
        unfold serverAt
        cases there : (Json.obj config).get? serversKey with
        | none => rfl
        | some value =>
          cases value with
          | obj servers => exact absurd there (others servers)
          | null | bool _ | num _ | str _ | arr _ => rfl
    · next config notObject read =>
      refine .inl ⟨rfl, fun _ other again => ?_, by simp⟩
      obtain rfl := Option.some.inj ((read_ok read).symm.trans again)
      cases config with
      | obj entries => exact absurd rfl (notObject entries)
      | null | bool _ | num _ | str _ | arr _ => rfl

theorem remove_onlyOurs (lawful : json.Lawful) (whole : WholeWrites fault) (other : Text) :
    OnlyOurs json (files other) ((removeServer json fault path files).2 other) := by
  rcases remove_cases lawful fault path files with ⟨same, -⟩ |
    ⟨config, servers, parsed, distinctConfig, distinctServers, holds, held, removed⟩
  · rw [same]
    exact .inl rfl
  · rw [removed]
    have distinctNew := distinct_insert serversKey distinctConfig (distinct_erase serverName distinctServers)
    refine write_onlyOurs lawful whole parsed distinctNew (untouched_insert distinctConfig holds fun name apart => ?_) other
    rw [held, Assoc.lookup_erase, if_neg fun same => apart (eq_of_beq same)]

/-- A command line that only changes the entry of this server. -/
def CliTouchesOurs (json : JsonLibrary) (cli : ClaudeCli) : Prop :=
  ∀ files path, OnlyOurs json (files path) ((cli files).2 path)

theorem byCli_onlyOurs {cli : ClaudeCli} (ours : CliTouchesOurs json cli) (asked : Prop) [Decidable asked]
    (files : ClientFiles) (path : Text) :
    OnlyOurs json (files path) ((if asked then cli files else (CliOutcome.refused, files)).2 path) := by
  split
  · exact ours files path
  · exact .inl rfl

theorem installAll_onlyOurs (lawful : json.Lawful) (whole : WholeWrites fault) {cli : ClaudeCli}
    (ours : CliTouchesOurs json cli) (machine : Machine) (inProject : Bool) (clients : List Client)
    (files : ClientFiles) (path : Text) :
    OnlyOurs json (files path) ((installAll json fault machine inProject cli clients files).files path) := by
  induction clients generalizing files with
  | nil => exact .inl rfl
  | cons client rest ih =>
    have cliOnly := byCli_onlyOurs ours (client = .claude ∧ machine.claudeOnPath) files path
    unfold installAll
    dsimp only
    split
    · next ran =>
      rw [ran] at cliOnly
      exact cliOnly
    · next ran =>
      rw [ran] at cliOnly
      exact cliOnly.trans (ih _)
    · next refused ran =>
      rw [ran] at cliOnly
      split
      · exact cliOnly
      · next target _ =>
        have merged := @merge_onlyOurs json fault target refused lawful whole _ (serverEntry_distinct machine.exe) path
        split
        · next result =>
          rw [result] at merged
          exact cliOnly.trans merged
        · next result =>
          rw [result] at merged
          exact cliOnly.trans (merged.trans (ih _))

theorem uninstallAll_onlyOurs (lawful : json.Lawful) (whole : WholeWrites fault) {cli : ClaudeCli}
    (ours : CliTouchesOurs json cli) (machine : Machine) (inProject : Bool) (clients : List Client)
    (files : ClientFiles) (path : Text) :
    OnlyOurs json (files path) ((uninstallAll json fault machine inProject cli clients files).files path) := by
  induction clients generalizing files with
  | nil => exact .inl rfl
  | cons client rest ih =>
    have cliOnly := byCli_onlyOurs ours (client = .claude ∧ machine.claudeOnPath) files path
    unfold uninstallAll
    dsimp only
    split
    · next ran =>
      rw [ran] at cliOnly
      exact cliOnly
    · next ran =>
      rw [ran] at cliOnly
      exact cliOnly.trans (ih _)
    · next refused ran =>
      rw [ran] at cliOnly
      split
      · exact cliOnly.trans (ih _)
      · next target _ =>
        have removed := @remove_onlyOurs json fault target refused lawful whole path
        split <;> next result =>
          rw [result] at removed
          first
            | exact cliOnly.trans removed
            | exact cliOnly.trans (removed.trans (ih _))

/-! ### What a command leaves -/

theorem write_ok (lawful : json.Lawful) {config : Json} (distinct : config.Distinct)
    (written : (writeClientConfig json fault path config files).1 = .ok ()) :
    ∃ read, parsedConfig json ((writeClientConfig json fault path config files).2 path) = some read ∧
      config.same read = true := by
  unfold writeClientConfig at written ⊢
  split at written
  · cases written
  · cases written
  · dsimp only
    rw [show putFile files path (some (json.pretty config ++ ("\n" : Text))) path =
      some (json.pretty config ++ ("\n" : Text)) from if_pos rfl]
    exact parsed_written lawful distinct

theorem serverAt_inserted (config servers : List (Text × Json)) (name : Text) :
    serverAt (.obj (Assoc.insert config (serversKey, .obj servers))) name = servers.lookup name := by
  simp [serverAt, Json.get?, Assoc.lookup_insert]

/-- After a merge that worked, the file holds the entry. -/
theorem merge_registers (lawful : json.Lawful) {entry : Json} (distinct : entry.Distinct)
    (merged : (mergeServer json fault path entry files).1 = .ok ()) :
    ∃ config found, parsedConfig json ((mergeServer json fault path entry files).2 path) = some config ∧
      registered config = some found ∧ entry.same found = true := by
  rcases merge_cases lawful fault path entry files with ⟨error, failed⟩ |
    ⟨config, servers, -, distinctConfig, distinctServers, -, -, result⟩
  · rw [failed] at merged
    cases merged
  · rw [result] at merged ⊢
    have distinctNew := distinct_insert serversKey distinctConfig (distinct_insert serverName distinctServers distinct)
    obtain ⟨read, parsed, same⟩ := write_ok lawful distinctNew merged
    have held := serverAt_of_same distinctNew same serverName
    rw [serverAt_inserted, Assoc.lookup_insert, if_pos (beq_self_eq_true _)] at held
    cases found : serverAt read serverName with
    | none =>
      rw [found] at held
      exact held.elim
    | some value =>
      rw [found] at held
      exact ⟨read, value, parsed, found, held⟩

/-- A removal that worked wrote the file. -/
theorem write_of_removed {config : Json} {was : Bool}
    (removed : (writeClientConfig json fault path config files).1.map (fun _ => true) = .ok was) :
    (writeClientConfig json fault path config files).1 = .ok () := by
  cases outcome : (writeClientConfig json fault path config files).1 with
  | ok _ => rfl
  | error error =>
    rw [outcome] at removed
    cases removed

/-- After a removal that worked, the file holds no entry. -/
theorem remove_unregisters (lawful : json.Lawful) {was : Bool}
    (removed : (removeServer json fault path files).1 = .ok was) {config : Json}
    (parsed : parsedConfig json ((removeServer json fault path files).2 path) = some config) :
    registered config = none := by
  rcases remove_cases lawful fault path files with ⟨same, absent, notThere⟩ |
    ⟨old, servers, -, distinctConfig, distinctServers, -, -, result⟩
  · rw [same] at parsed
    cases was with
    | true => exact absurd removed notThere
    | false => exact absent removed config parsed
  · rw [result] at removed parsed
    have distinctNew := distinct_insert serversKey distinctConfig (distinct_erase serverName distinctServers)
    obtain ⟨read, again, same⟩ := write_ok lawful distinctNew (write_of_removed removed)
    obtain rfl := Option.some.inj (again.symm.trans parsed)
    have held := serverAt_of_same distinctNew same serverName
    rw [serverAt_inserted, Assoc.lookup_erase, if_pos (beq_self_eq_true _)] at held
    show serverAt read serverName = none
    cases found : serverAt read serverName with
    | none => rfl
    | some value =>
      rw [found] at held
      exact held.elim

theorem command_of_same {exe : Text} {found : Json} (same : (serverEntry exe).same found = true) :
    found.get? "command" = some (.str exe) := by
  obtain ⟨other, there, equal⟩ := @get_of_same _ _ "command" _ same
    (show (serverEntry exe).get? "command" = some (.str exe) from rfl)
  rw [there]
  cases other <;> simp only [Json.same, Bool.false_eq_true, beq_iff_eq] at equal
  rw [equal]

end

structure ClientCommand where
  machine : Machine
  inProject : Bool
  client : Option Client
  cli : ClaudeCli
  fault : Text → Option FileFault
  isInstall : Bool

def ClientCommand.run (json : JsonLibrary) (command : ClientCommand) (files : ClientFiles) : Ran :=
  match clientTargets command.machine files command.client with
  | .error error => { outcome := .error error, files }
  | .ok clients =>
    if command.isInstall then installAll json command.fault command.machine command.inProject command.cli clients files
    else uninstallAll json command.fault command.machine command.inProject command.cli clients files

def runCommands (json : JsonLibrary) (commands : List ClientCommand) (files : ClientFiles) : ClientFiles :=
  commands.foldl (fun files command => (command.run json files).files) files

theorem run_onlyOurs {json : JsonLibrary} (lawful : json.Lawful) {command : ClientCommand}
    (whole : WholeWrites command.fault) (ours : CliTouchesOurs json command.cli) (files : ClientFiles) (path : Text) :
    OnlyOurs json (files path) ((command.run json files).files path) := by
  unfold ClientCommand.run
  split
  · exact .inl rfl
  · split
    · exact installAll_onlyOurs lawful whole ours ..
    · exact uninstallAll_onlyOurs lawful whole ours ..

/-- Whatever installs and uninstalls run, for whichever clients, however they end: each file is as it was, or it is a
configuration that differs from the one before in the entry of this server only. That holds where no write cuts a file
off and the client's own command line keeps to the entry. -/
theorem clients_untouched (json : JsonLibrary) (lawful : json.Lawful) (commands : List ClientCommand)
    (careful : ∀ command ∈ commands, WholeWrites command.fault ∧ CliTouchesOurs json command.cli)
    (files : ClientFiles) (path : Text) : OnlyOurs json (files path) (runCommands json commands files path) := by
  induction commands generalizing files with
  | nil => exact .inl rfl
  | cons command rest ih =>
    rw [List.forall_mem_cons] at careful
    obtain ⟨⟨whole, ours⟩, later⟩ := careful
    exact (run_onlyOurs lawful whole ours files path).trans (ih later _)

section
variable {json : JsonLibrary} {fault : Text → Option FileFault} {machine : Machine} {inProject : Bool}
  {files : ClientFiles} {client : Client} {path : Text}

theorem read_of_parsed (readable : fault path ≠ some .reading) {config : Json}
    (parsed : parsedConfig json (files path) = some config) : readClientConfig json fault path files = .ok config := by
  unfold readClientConfig
  split
  · next failing => exact absurd failing readable
  · rw [parsed]

theorem clientStatus_of_parsed (place : client.configPath machine inProject = some path)
    (readable : fault path ≠ some .reading) {config : Json} (parsed : parsedConfig json (files path) = some config) :
    clientStatus json fault machine inProject files client = .ok (statusLine machine client path config) := by
  simp only [clientStatus, place, read_of_parsed readable parsed]
  rfl

theorem statusAll_line (earlier later : List Client) {line : Text}
    (own : clientStatus json fault machine inProject files client = .ok line) :
    (statusAll json fault machine inProject files (earlier ++ client :: later)).lines[earlier.length]? =
      if earlier.all fun other => (clientStatus json fault machine inProject files other).isOk then some line else none := by
  induction earlier with
  | nil =>
    rw [List.nil_append, statusAll, own]
    rfl
  | cons other earlier ih =>
    rw [List.cons_append, statusAll, List.all_cons, List.length_cons]
    cases clientStatus json fault machine inProject files other with
    | error error => rfl
    | ok shown => exact (List.getElem?_cons_succ ..).trans ih

theorem removed_parsed (lawful : json.Lawful) {was : Bool} (removed : (removeServer json fault path files).1 = .ok was) :
    ∃ config, parsedConfig json ((removeServer json fault path files).2 path) = some config := by
  rcases remove_cases lawful fault path files with ⟨same, -⟩ |
    ⟨old, servers, -, distinctConfig, distinctServers, -, -, result⟩
  · rw [same]
    unfold removeServer at removed
    split at removed
    · next missing =>
      rw [Option.isNone_iff_eq_none.mp missing]
      exact ⟨_, rfl⟩
    · split at removed
      · cases removed
      · next read => exact ⟨_, read_ok read⟩
      · next read => exact ⟨_, read_ok read⟩
  · rw [result] at removed ⊢
    obtain ⟨read, parsed, -⟩ := write_ok lawful
      (distinct_insert serversKey distinctConfig (distinct_erase serverName distinctServers)) (write_of_removed removed)
    exact ⟨read, parsed⟩

end

/-- What the status says of a client after a command for it. -/
def ClientCommand.expected (command : ClientCommand) (client : Client) (path : Text) : Text :=
  if command.isInstall then client.clientLabel ++ (": registered -> " : Text) ++ command.machine.exe
  else client.clientLabel ++ (": not registered (" : Text) ++ path ++ (")" : Text)

/-- After a command for one client that worked on its file, the client is shown as registered with this binary,
or as not registered. -/
theorem clientStatus_after (json : JsonLibrary) (lawful : json.Lawful) (command : ClientCommand) (client : Client)
    (path : Text) (files : ClientFiles) (fault : Text → Option FileFault) (chosen : command.client = some client)
    (place : client.configPath command.machine command.inProject = some path)
    (byFile : ¬(client = .claude ∧ command.machine.claudeOnPath)) (ended : (command.run json files).outcome = .ok ())
    (readable : fault path ≠ some .reading) :
    clientStatus json fault command.machine command.inProject (command.run json files).files client =
      .ok (command.expected client path) := by
  have targets : clientTargets command.machine files command.client = .ok [client] := by rw [chosen, clientTargets]
  unfold ClientCommand.expected
  split
  · next installing =>
    have result : command.run json files = installAll json command.fault command.machine command.inProject
        command.cli [client] files := by rw [ClientCommand.run, targets]; simp [installing]
    rw [installAll, if_neg byFile] at result
    simp only [place] at result
    cases merged : mergeServer json command.fault path (serverEntry command.machine.exe) files with
    | mk outcome written =>
      cases outcome with
      | error error =>
        rw [merged] at result
        rw [result] at ended
        cases ended
      | ok _ =>
        rw [merged] at result
        obtain ⟨config, found, parsed, entry, same⟩ := @merge_registers json command.fault path files lawful _
          (serverEntry_distinct command.machine.exe) (by rw [merged])
        have there : (command.run json files).files path = written path := by
          simp only [result, installAll, Ran.before]
        rw [merged] at parsed
        rw [clientStatus_of_parsed place readable ((congrArg (parsedConfig json) there).trans parsed)]
        simp [statusLine, entry, command_of_same same]
  · next removing =>
    have result : command.run json files = uninstallAll json command.fault command.machine command.inProject
        command.cli [client] files := by rw [ClientCommand.run, targets]; simp [removing]
    rw [uninstallAll, if_neg byFile] at result
    simp only [place] at result
    cases removed : removeServer json command.fault path files with
    | mk outcome written =>
      cases outcome with
      | error error =>
        rw [removed] at result
        rw [result] at ended
        cases ended
      | ok was =>
        rw [removed] at result
        have there : (command.run json files).files path = written path := by
          cases was <;> simp only [result, uninstallAll, Ran.before]
        have worked : (removeServer json command.fault path files).1 = .ok was := by rw [removed]
        obtain ⟨config, parsed⟩ := removed_parsed lawful worked
        have absent := remove_unregisters lawful worked parsed
        rw [removed] at parsed
        rw [clientStatus_of_parsed place readable ((congrArg (parsedConfig json) there).trans parsed), statusLine, absent]

theorem kindOf_blank {c : Char} (blank : isWhitespace c = true) : Json.kindOf c = 7 := by
  have visible {d : Char} (shown : isWhitespace d = false) : c ≠ d := by
    rintro rfl
    rw [shown] at blank
    cases blank
  have notNumber : isNumberChar c = false := by
    rw [Bool.eq_false_iff]
    intro numeric
    rw [isNumberChar, Bool.or_eq_true, decide_eq_true_eq] at numeric
    rcases numeric with digit | sign
    · obtain ⟨low, high⟩ := isDigit_iff.mp digit
      rw [isWhitespace_visible (by omega) (by omega)] at blank
      cases blank
    · have signs : ['-', '+', '.', 'e', 'E'].all (fun d => !isWhitespace d) = true := by decide
      exact visible (Bool.not_eq_true' .. |>.mp (List.all_eq_true.mp signs c sign)) rfl
  rw [Json.kindOf, if_neg (visible (by decide)), if_neg (visible (by decide)), if_neg (visible (by decide)),
    if_neg (visible (by decide)), if_neg (visible (by decide)), if_neg (visible (by decide)), notNumber,
    if_neg Bool.false_ne_true]

theorem trim_render (value : Json) (rest : Text) : (trim (Json.render value ++ rest)).isEmpty = false := by
  obtain ⟨c, tail, head, kind⟩ := Json.render_head value
  rw [Bool.eq_false_iff]
  intro empty
  have blank := trim_eq_nil.mp (List.isEmpty_iff.mp empty) c (by rw [head]; exact List.mem_cons_self)
  rw [kindOf_blank blank] at kind
  cases value with
  | bool b => cases b <;> cases kind
  | null | num _ | str _ | arr _ | obj _ => cases kind

open Classical in
noncomputable def lineLibrary : JsonLibrary where
  parse text :=
    if there : ∃ value : Json, value.Distinct ∧ Json.render value ++ ("\n" : Text) = text then some there.choose else none
  pretty := Json.render

theorem lineLibrary_parse {value : Json} (distinct : value.Distinct) :
    lineLibrary.parse (Json.render value ++ ("\n" : Text)) = some value := by
  have there : ∃ other : Json, other.Distinct ∧
      Json.render other ++ ("\n" : Text) = Json.render value ++ ("\n" : Text) := ⟨value, distinct, rfl⟩
  refine (dif_pos there).trans (congrArg some ?_)
  exact Json.render_injective (List.append_cancel_right there.choose_spec.2)

theorem lineLibrary_lawful : lineLibrary.Lawful where
  distinct text value parsed := by
    simp only [lineLibrary] at parsed
    split at parsed
    · next there =>
      obtain rfl := Option.some.inj parsed
      exact there.choose_spec.1
    · cases parsed
  readBack value distinct := ⟨value, lineLibrary_parse distinct, Json.same_refl distinct⟩
  blank text empty := by
    refine dif_neg ?_
    rintro ⟨value, -, rfl⟩
    rw [trim_render] at empty
    cases empty

def laptop : Machine where
  home := some "/home/me"
  appData := none
  platform := .other
  claudeOnPath := false
  exe := "/usr/bin/mq-bridge-app"

def installCursor : ClientCommand where
  machine := laptop
  inProject := true
  client := some .cursor
  cli files := (.refused, files)
  fault _ := none
  isInstall := true

theorem clients_untouched_cursor :
    OnlyOurs lineLibrary none (runCommands lineLibrary [installCursor, installCursor] (fun _ => none) ".cursor/mcp.json") :=
  clients_untouched lineLibrary lineLibrary_lawful [installCursor, installCursor]
    (fun command member => by
      have same : command = installCursor := by simpa using member
      rw [same]
      exact ⟨fun _ => by simp [installCursor], fun _ _ => .inl rfl⟩)
    (fun _ => none) ".cursor/mcp.json"

def uninstallCursor : ClientCommand := { installCursor with isInstall := false }

def staleConfig : Json := .obj [(serversKey, .obj [(serverName, serverEntry "/opt/old")])]

def staleFiles : ClientFiles := putFile (fun _ => none) ".cursor/mcp.json" (some (Json.render staleConfig ++ ("\n" : Text)))

theorem staleConfig_distinct : staleConfig.Distinct :=
  ⟨List.nodup_singleton _, ⟨List.nodup_singleton _, serverEntry_distinct _, trivial⟩, trivial⟩

theorem uninstallCursor_run : uninstallCursor.run lineLibrary staleFiles =
    { lines := [("Cursor: removed 'mq-bridge' from .cursor/mcp.json" : Text)]
      files := putFile staleFiles ".cursor/mcp.json"
        (some (Json.render (.obj [(serversKey, .obj [])]) ++ ("\n" : Text))) } := by
  have held : staleFiles ".cursor/mcp.json" = some (Json.render staleConfig ++ ("\n" : Text)) := rfl
  have full : (trim (Json.render staleConfig ++ ("\n" : Text))).isEmpty = false := trim_render _ _
  have parsed : parsedConfig lineLibrary (staleFiles ".cursor/mcp.json") = some staleConfig := by
    rw [held, parsedConfig, full, if_neg Bool.false_ne_true, lineLibrary_parse staleConfig_distinct]
  have read : readClientConfig lineLibrary (fun _ => none) ".cursor/mcp.json" staleFiles = .ok staleConfig :=
    read_of_parsed (by simp) parsed
  have removed : removeServer lineLibrary (fun _ => none) ".cursor/mcp.json" staleFiles = (.ok true,
      putFile staleFiles ".cursor/mcp.json" (some (Json.render (.obj [(serversKey, .obj [])]) ++ ("\n" : Text)))) := by
    unfold removeServer
    rw [read]
    rfl
  show uninstallAll lineLibrary (fun _ => none) laptop true _ [.cursor] staleFiles = _
  unfold uninstallAll
  have byFile : ¬(Client.cursor = .claude ∧ laptop.claudeOnPath = true) := by decide
  simp only [Client.configPath, if_neg byFile, removed]
  rfl

end MqBridge.Mcp
