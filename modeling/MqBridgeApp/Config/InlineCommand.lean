import MqBridgeApp.Config.Placeholders
import MqBridgeApp.Lib.Shell
import Mathlib.Data.List.Destutter

/-!
# Inline commands

A configuration is exported as a command that carries it as one quoted word. The shell hands the word
on as it was, and the loader expands the variables in it before it is read.
-/

namespace MqBridge.Config
open Text

structure InlineConfigCommand where
  command : Text
  requiredEnv : List Text

def escapeQuotes (value : Text) : Text := value.flatMap fun c => if c = '\'' then "'\"'\"'" else [c]

def shellQuote (value : Text) : Text := if value.isEmpty then "''" else '\'' :: (escapeQuotes value ++ ['\''])

section
variable (bridge : Bridge)

def AppConfig.exported (config : AppConfig) : AppConfig := { (config.extractSecretValues bridge).1 with envVars := [] }

def inlineConfigCommand (config : AppConfig) : InlineConfigCommand where
  command := "mqb --config-str " ++ shellQuote (config.exported bridge).toValue.render ++ " --no-ui --no-metrics"
  requiredEnv := ((config.envVars.map Prod.fst ++ (config.extractSecretValues bridge).2.map Prod.fst).mergeSort
    textLe).destutter (· ≠ ·)

end

/-- The configuration in a text given on the command line, which is taken for YAML. -/
def Crates.readInline (crates : Crates) (ids : IdSupply) (env : Text → Option Text) (text : Text) : Option AppConfig :=
  (crates.build [] (some (.yaml, crates.expandVariables env text .yaml))).bind fun settings =>
    (AppConfig.read crates ids settings).map Prod.fst

theorem requiredEnv_spec (bridge : Bridge) (config : AppConfig) :
    (inlineConfigCommand bridge config).requiredEnv.Nodup ∧
      (inlineConfigCommand bridge config).requiredEnv.Pairwise (fun a b => textLe a b = true) ∧
      ∀ key, key ∈ (inlineConfigCommand bridge config).requiredEnv ↔
        key ∈ config.envVars.map Prod.fst ∨ key ∈ (config.extractSecretValues bridge).2.map Prod.fst := by
  obtain ⟨once, sorted, same⟩ := Lists.destutter_mergeSort textLe (fun _ _ _ => textLe_trans) textLe_total
    (fun _ _ => textLe_antisymm) (config.envVars.map Prod.fst ++ (config.extractSecretValues bridge).2.map Prod.fst)
  exact ⟨once, sorted, fun key => (same key).trans List.mem_append⟩

section
open Shell
variable (words : List Text)

theorem run_escapeQuotes (word value : Text) :
    (inside .single words word).run (escapeQuotes value) = some (inside .single words (word ++ value)) := by
  induction value generalizing word with
  | nil =>
    rw [List.append_nil]
    rfl
  | cons c rest ih =>
    rw [escapeQuotes, List.flatMap_cons, run_append, ← escapeQuotes]
    have here : (inside .single words word).run (if c = '\'' then "'\"'\"'" else [c]) =
        some (inside .single words (word ++ [c])) := by
      by_cases quote : c = '\''
      · subst quote
        rfl
      · rw [if_neg quote, run_cons, step_single quote]
        rfl
    rw [here, Option.bind_some, ih, List.append_assoc]
    rfl

theorem run_shellQuote (value : Text) :
    Splitter.run ⟨.plain, none, words⟩ (shellQuote value) = some (inside .plain words value) := by
  unfold shellQuote
  cases value with
  | nil => rfl
  | cons c rest =>
    have opened : Splitter.step ⟨.plain, none, words⟩ '\'' = some (inside .single words []) := rfl
    rw [List.isEmpty_cons, if_neg (by decide), run_cons, opened, Option.bind_some, run_append, run_escapeQuotes,
      Option.bind_some]
    rfl

theorem splitWords_command (text : Text) :
    splitWords ("mqb --config-str " ++ shellQuote text ++ " --no-ui --no-metrics") =
      some (["mqb", "--config-str", text, "--no-ui", "--no-metrics"] : List Text) := by
  have start : Splitter.run {} ("mqb --config-str " : Text) =
      some ⟨.plain, none, ["mqb", "--config-str"]⟩ := by decide +kernel
  have rest : (inside .plain ["mqb", "--config-str"] text).run (" --no-ui --no-metrics" : Text) =
      some (inside .plain ["mqb", "--config-str", text, "--no-ui"] "--no-metrics") := rfl
  unfold splitWords
  rw [run_append, run_append, start, Option.bind_some, run_shellQuote, Option.bind_some, rest, Option.bind_some]
  rfl

end

/-- What reading the exported text relies on: that it is read as the value it was written from, and so are the parts
that are not the application's. -/
structure ReadsInline (crates : Crates) (exported : AppConfig) : Prop where
  laws : crates.Lawful
  parts : crates.ReadsParts false exported
  build : ∃ settings, crates.build [] (some (.yaml, exported.toValue.render)) = some settings ∧ settings.Distinct ∧
    settings.same exported.toValue = true

/-- The shell hands the exported text on as it is, and it is read as the configuration it was written from wherever
expanding variables leaves it as it is. -/
theorem inlineConfigCommand_faithful (bridge : Bridge) (config : AppConfig) {crates : Crates}
    (reads : ReadsInline crates (config.exported bridge)) (ids : IdSupply) {env : Text → Option Text}
    (unexpanded : crates.expandVariables env (config.exported bridge).toValue.render .yaml =
      (config.exported bridge).toValue.render) :
    Shell.splitWords (inlineConfigCommand bridge config).command =
        some (["mqb", "--config-str", (config.exported bridge).toValue.render, "--no-ui", "--no-metrics"] : List Text) ∧
      ∃ read, crates.readInline ids env (config.exported bridge).toValue.render = some read ∧
        read.Restores false (config.exported bridge) := by
  refine ⟨splitWords_command _, ?_⟩
  obtain ⟨settings, built, distinct, same⟩ := reads.build
  obtain ⟨read, found, restores⟩ := config_held reads.laws reads.parts ids settings ⟨distinct, same⟩
  refine ⟨read, ?_, restores⟩
  rw [Crates.readInline, unexpanded, built, Option.bind_some, found]
  rfl

def responseRoute : Route := ⟨.new .response, .new .response, {}⟩

/-- Readers of some JSON documents that are given as YAML, where every route is one of responses. -/
def inlineCrates (expand : (Text → Option Text) → Text → Text) (documents : List Json) : Crates :=
  let parse (text : Text) : Option Json := documents.find? fun document => decide (text = document.render)
  { plainCrates expand documents with
    value := fun format text => if format = .yaml then parse text else none
    build
      | defaults, none => some (.obj defaults)
      | _, some (format, text) => if format = .yaml then parse text else none
    route := fun entries =>
      if (Json.obj entries).same (Data.record (Route.toFields responseRoute)).toValue then some responseRoute else none }

/-- A configuration with a route, a variable, a secret and a quote in a payload. -/
def quotedConfig (payload : Text) : AppConfig where
  routes := [("relay", { route := responseRoute })]
  publishers := [{ id := "p1", name := "orders", endpoint := .new .response, payload
                   headers := [{ key := "Authorization", value := "Bearer abc" }] }]
  envVars := [("TOKEN", "xyz")]

def quotedExport (payload : Text) : AppConfig := (quotedConfig payload).exported plainStorage.bridge

section
variable (expand : (Text → Option Text) → Text → Text) (documents : List Json) (payload : Text)

theorem inlineCrates_lawful : (inlineCrates expand documents).Lawful where
  string _ := rfl
  bool _ := rfl
  nat n := readDigits_ofNat n
  int i := readInteger_ofInt i
  items _ := rfl
  table _ := rfl
  fields _ _ := rfl

theorem inlineCrates_build (document : Json) :
    (inlineCrates expand (document :: documents)).build [] (some (.yaml, document.render)) = some document := by
  show List.find? (fun other => decide (document.render = other.render)) (document :: documents) = some document
  rw [List.find?_cons_of_pos (by simp)]

theorem quotedExport_parts : (inlineCrates expand documents).ReadsParts false (quotedExport payload) where
  endpoint endpoint member document held := by
    obtain rfl : endpoint = .new .response := List.mem_singleton.mp (show endpoint ∈ [_] from member)
    exact ⟨.new .response, if_pos held.2, SameDocuments.refl _⟩
  options consumer member := absurd (show consumer ∈ [] from member) List.not_mem_nil
  route entry member entries held := by
    obtain rfl : entry = _ := List.mem_singleton.mp (show entry ∈ [_] from member)
    exact ⟨responseRoute, if_pos held.2, SameDocuments.refl _, SameDocuments.refl _, rfl⟩

theorem quotedExport_reads (distinct : (quotedExport payload).toValue.Distinct) :
    ReadsInline (inlineCrates expand ((quotedExport payload).toValue :: documents)) (quotedExport payload) where
  laws := inlineCrates_lawful _ _
  parts := quotedExport_parts _ _ _
  build := ⟨(quotedExport payload).toValue, inlineCrates_build _ _ _, distinct, Json.same_refl distinct⟩

end

theorem quotedConfig_faithful :
    Shell.splitWords (inlineConfigCommand plainStorage.bridge (quotedConfig "it's 5")).command =
        some (["mqb", "--config-str", (quotedExport "it's 5").toValue.render, "--no-ui", "--no-metrics"] : List Text) ∧
      ∃ read, (inlineCrates (fun _ => unescapeDollars) [(quotedExport "it's 5").toValue]).readInline tallyIds
          (fun _ => none) (quotedExport "it's 5").toValue.render = some read ∧
        read.Restores false (quotedExport "it's 5") :=
  inlineConfigCommand_faithful plainStorage.bridge (quotedConfig "it's 5")
    (quotedExport_reads _ [] _ (by decide +kernel)) tallyIds (by decide +kernel)

def homeExport : AppConfig := quotedExport "$\x7bHOME\x7d"

def homeEnv (name : Text) : Option Text := if name = ("HOME" : Text) then some "/root" else none

def homeCrates : Crates :=
  inlineCrates (fun lookup text => expandBraces lookup text.length text)
    [homeExport.toValue, (quotedExport "/root").toValue]

/-- A reference to a variable in an exported text is replaced when the text is read. -/
theorem exported_reference_replaced :
    homeExport = (quotedConfig "$\x7bHOME\x7d").exported plainStorage.bridge ∧ ReadsInline homeCrates homeExport ∧
    ∃ read, homeCrates.readInline tallyIds homeEnv homeExport.toValue.render = some read ∧
      read.publishers.map (·.payload) = ["/root"] ∧ homeExport.publishers.map (·.payload) = ["$\x7bHOME\x7d"] ∧
      ¬ read.Restores false homeExport := by
  have expanded : homeCrates.expandVariables homeEnv homeExport.toValue.render .yaml =
      (quotedExport "/root").toValue.render := by decide +kernel
  have parsed : homeCrates.build [] (some (.yaml, (quotedExport "/root").toValue.render)) =
      some (quotedExport "/root").toValue := by decide +kernel
  have read : ∃ read, (AppConfig.read homeCrates tallyIds (quotedExport "/root").toValue).map Prod.fst = some read ∧
      read.publishers.map (·.payload) = ["/root"] := ⟨_, rfl, rfl⟩
  obtain ⟨read, found, payload⟩ := read
  refine ⟨rfl, quotedExport_reads _ _ _ (by decide +kernel), read, ?_, payload, rfl, fun restores => ?_⟩
  · rw [Crates.readInline, expanded, parsed, Option.bind_some, found]
  · have same := Lists.map_of_forall₂ (r := PublisherClient.Alike) (fun _ _ alike => alike.payload) restores.publishers
    rw [payload] at same
    exact absurd same (by decide)

end MqBridge.Config
