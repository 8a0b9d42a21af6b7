import MqBridgeApp.Config.ReadBack

/-!
# Sections of a configuration

A section is the value under one key of a configuration. A configuration is read section by section, so
what a document is read as tells what each of its sections is read as.
-/

namespace MqBridge.Config
open Text

def sectionNames (name : Text) : List Text := if name = "env_vars" then ["env_vars", "envVars"] else [name]

def onlySection (name : Text) (entries : List (Text × Json)) : List (Text × Json) :=
  entries.filter fun entry => decide (entry.1 ∈ sectionNames name)

def AppConfig.withSection (config : AppConfig) (name : Text) (new : AppConfig) : AppConfig where
  logLevel := if name = "log_level" then new.logLevel else config.logLevel
  logger := if name = "logger" then new.logger else config.logger
  uiAddr := if name = "ui_addr" then new.uiAddr else config.uiAddr
  metricsAddr := if name = "metrics_addr" then new.metricsAddr else config.metricsAddr
  plugins := if name = "plugins" then new.plugins else config.plugins
  routes := if name = "routes" then new.routes else config.routes
  consumers := if name = "consumers" then new.consumers else config.consumers
  publishers := if name = "publishers" then new.publishers else config.publishers
  history := if name = "history" then new.history else config.history
  envVars := if name = "env_vars" then new.envVars else config.envVars
  configSecurity := if name = "config_security" then new.configSecurity else config.configSecurity
  extractSecrets := if name = "extract_secrets" then new.extractSecrets else config.extractSecrets
  defaultTab := if name = "default_tab" then new.defaultTab else config.defaultTab

@[simp] theorem withSection_back (config other : AppConfig) (name : Text) :
    config.withSection name (other.withSection name config) = config := by
  have own : ∀ {α : Type} (p : Prop) [Decidable p] (a b : α), (if p then if p then a else b else a) = a := by
    intro α p _ a b
    by_cases picked : p <;> simp [picked]
  simp only [AppConfig.withSection, own]

structure AppConfig.ReadFrom (crates : Crates) (ids : IdSupply) (entries : List (Text × Json)) (read : AppConfig)
    (total : Nat) : Prop where
  logLevel : readOptional ["log_level"] ("info" : Text) crates.string entries = some read.logLevel
  logger : readOptional ["logger"] [] crates.string entries = some read.logger
  uiAddr : readOptional ["ui_addr"] [] crates.string entries = some read.uiAddr
  metricsAddr : readOptional ["metrics_addr"] [] crates.string entries = some read.metricsAddr
  plugins : readOptional ["plugins"] [] (crates.list crates.string) entries = some read.plugins
  routes : readOptional ["routes"] [] (crates.hashMap (RouteConfig.read crates)) entries = some read.routes
  entities : ∃ used,
    readOptional ["consumers"] ([], 0)
        (fun given => (crates.items given).bind fun items => readEntities (ConsumerConfig.read crates ids) items 0) entries =
      some (read.consumers, used) ∧
    readOptional ["publishers"] ([], used)
        (fun given => (crates.items given).bind fun items => readEntities (PublisherClient.read crates ids) items used)
        entries = some (read.publishers, total)
  history : readOptional ["history"] [] (crates.hashMap some) entries = some read.history
  envVars : readOptional ["env_vars", "envVars"] [] (crates.hashMap crates.string) entries = some read.envVars
  configSecurity : readOptional ["config_security"] none (readNullable (ConfigSecurity.read crates)) entries =
    some read.configSecurity
  extractSecrets : readOptional ["extract_secrets"] false crates.bool entries = some read.extractSecrets
  defaultTab : readOptional ["default_tab"] [] crates.string entries = some read.defaultTab

section
variable {crates : Crates} {ids : IdSupply} {entries : List (Text × Json)} {read : AppConfig} {used : Nat}

theorem bind_eq_some {α β : Type} {x : Option α} {f : α → Option β} {b : β} (bound : (x >>= f) = some b) :
    ∃ a, x = some a ∧ f a = some b := Option.bind_eq_some_iff.mp bound

theorem readFrom_of_read (laws : crates.Lawful) (found : AppConfig.read crates ids (.obj entries) = some (read, used)) :
    read.ReadFrom crates ids entries used := by
  unfold AppConfig.read at found
  rw [bind_of_some (laws.fields _ _)] at found
  obtain ⟨logLevel, readLogLevel, found⟩ := bind_eq_some found
  obtain ⟨logger, readLogger, found⟩ := bind_eq_some found
  obtain ⟨uiAddr, readUiAddr, found⟩ := bind_eq_some found
  obtain ⟨metricsAddr, readMetricsAddr, found⟩ := bind_eq_some found
  obtain ⟨plugins, readPlugins, found⟩ := bind_eq_some found
  obtain ⟨routes, readRoutes, found⟩ := bind_eq_some found
  obtain ⟨⟨consumers, afterConsumers⟩, readConsumers, found⟩ := bind_eq_some found
  obtain ⟨⟨publishers, total⟩, readPublishers, found⟩ := bind_eq_some found
  obtain ⟨history, readHistory, found⟩ := bind_eq_some found
  obtain ⟨envVars, readEnvVars, found⟩ := bind_eq_some found
  obtain ⟨configSecurity, readSecurity, found⟩ := bind_eq_some found
  obtain ⟨extractSecrets, readExtract, found⟩ := bind_eq_some found
  obtain ⟨defaultTab, readTab, found⟩ := bind_eq_some found
  obtain ⟨rfl, rfl⟩ := Prod.mk.inj (Option.some.inj found)
  exact ⟨readLogLevel, readLogger, readUiAddr, readMetricsAddr, readPlugins, readRoutes,
    ⟨afterConsumers, readConsumers, readPublishers⟩, readHistory, readEnvVars, readSecurity, readExtract, readTab⟩

/-- The section of the entries is read as the one that the configuration has, and no id is generated. -/
def AppConfig.Says (crates : Crates) (entries : List (Text × Json)) (config : AppConfig) (name : Text) : Prop :=
  ∃ read, (∀ ids, AppConfig.read crates ids (.obj (onlySection name entries)) = some (read, 0)) ∧
    (config.withSection name read).Alike config

/-- The entries say what the configuration has, and one of its sections is replaced by a value that is read as the
section of another configuration. -/
structure Replaces (crates : Crates) (entries : List (Text × Json)) (name : Text) (value : Json) (config new : AppConfig) :
    Prop where
  known : name ∈ appFields
  saved : ∀ ids, AppConfig.read crates ids (.obj [(name, value)]) = some (new, 0)
  others : ∀ key ∈ appFields, key ≠ name → config.Says crates entries key

theorem mem_sectionNames_self (name : Text) : name ∈ sectionNames name := by
  unfold sectionNames
  split <;> simp_all

theorem mem_sectionNames {name key : Text} (known : name ∈ appFields) (inside : name ∈ sectionNames key) : name = key := by
  unfold sectionNames at inside
  split at inside
  · next env =>
    rcases List.mem_cons.mp inside with same | other
    · exact same.trans env.symm
    · rw [List.mem_singleton.mp other] at known
      exact absurd known (by decide)
  · exact List.mem_singleton.mp inside

theorem filter_onlySection (name : Text) (entries : List (Text × Json)) :
    (onlySection name entries).filter (fun entry => decide (entry.1 ∈ sectionNames name)) = onlySection name entries := by
  rw [onlySection, List.filter_filter]
  simp only [Bool.and_self]

variable {entries : List (Text × Json)} {name key : Text} {value : Json} {config new : AppConfig}

/-- A field that is read of the whole is what is read of its section. -/
theorem readOptional_assign {α : Type} {d x y : α} {f : Json → Option α} (key : Text) (known : name ∈ appFields)
    (whole : readOptional (sectionNames key) d f (Assoc.insert entries (name, value)) = some x)
    (alone : readOptional (sectionNames key) d f (if key = name then [(name, value)] else onlySection key entries) =
      some y) : x = y := by
  unfold readOptional givenField at whole alone
  by_cases here : key = name
  · subst here
    have inside := mem_sectionNames_self key
    rw [Assoc.insert, List.filter_append] at whole
    rw [if_pos rfl] at alone
    simp only [List.filter_cons, inside, decide_true, if_true, List.filter_nil] at whole alone
    cases before : (entries.filter fun other => other.1 != key).filter fun entry => decide (entry.1 ∈ sectionNames key) with
    | nil =>
      rw [before, List.nil_append] at whole
      exact Option.some.inj (whole.symm.trans alone)
    | cons first rest =>
      -- a field that is given twice is not read
      rw [before] at whole
      cases rest <;> cases whole
  · have outside : name ∉ sectionNames key := fun inside => here (mem_sectionNames known inside).symm
    have kept : (Assoc.insert entries (name, value)).filter (fun entry => decide (entry.1 ∈ sectionNames key)) =
        onlySection key entries := by
      rw [Assoc.insert, List.filter_append, List.filter_filter]
      simp only [List.filter_cons, outside, decide_false, Bool.false_eq_true, if_false, List.filter_nil, List.append_nil]
      apply List.filter_congr
      intro entry member
      by_cases listed : entry.1 ∈ sectionNames key
      · have other : entry.1 ≠ name := by
          rintro same
          exact outside (same ▸ listed)
        simp [listed, other]
      · simp [listed]
    rw [kept] at whole
    rw [if_neg here, filter_onlySection] at alone
    exact Option.some.inj (whole.symm.trans alone)

theorem Replaces.section_read (replaces : Replaces crates entries name value config new) (known : key ∈ appFields) :
    ∃ single, (∀ ids, AppConfig.read crates ids
        (.obj (if key = name then [(name, value)] else onlySection key entries)) = some (single, 0)) ∧
      (key = name → single = new) ∧ (key ≠ name → (config.withSection key single).Alike config) := by
  by_cases here : key = name
  · rw [if_pos here]
    exact ⟨new, replaces.saved, fun _ => rfl, fun other => absurd here other⟩
  · rw [if_neg here]
    obtain ⟨single, read, alike⟩ := replaces.others key known here
    exact ⟨single, read, fun same => absurd same here, fun _ => alike⟩

theorem section_field {α : Type} {r : α → α → Prop} {single : AppConfig} (field : AppConfig → α) (refl : ∀ a, r a a)
    (picked : ∀ config name new, field (AppConfig.withSection config name new) =
      if name = key then field new else field config)
    (alike : ∀ {a b : AppConfig}, a.Alike b → r (field a) (field b)) (own : key = name → single = new)
    (other : key ≠ name → (config.withSection key single).Alike config) :
    r (field single) (field (config.withSection name new)) := by
  by_cases here : key = name
  · rw [own here, picked, if_pos here.symm]
    exact refl _
  · have same := alike (other here)
    rw [picked, if_pos rfl] at same
    rw [picked, if_neg fun there => here there.symm]
    exact same

theorem Replaces.field {α : Type} {r : α → α → Prop} {d : α} {f : Json → Option α} (laws : crates.Lawful)
    (replaces : Replaces crates entries name value config new)
    (whole : read.ReadFrom crates ids (Assoc.insert entries (name, value)) used) (key : Text) (known : key ∈ appFields)
    (field : AppConfig → α) (reads : ∀ {entries read total}, AppConfig.ReadFrom crates ids entries read total →
      readOptional (sectionNames key) d f entries = some (field read))
    (picked : ∀ config name new, field (AppConfig.withSection config name new) =
      if name = key then field new else field config)
    (refl : ∀ a, r a a) (alike : ∀ {a b : AppConfig}, a.Alike b → r (field a) (field b)) :
    r (field read) (field (config.withSection name new)) := by
  obtain ⟨single, alone, own, other⟩ := replaces.section_read known
  rw [readOptional_assign key replaces.known (reads whole) (reads (readFrom_of_read laws (alone ids)))]
  exact section_field field refl picked alike own other

/-- Nothing is read under another key than the section's. -/
theorem readOptional_other {α : Type} {d : α} {f : Json → Option α} {other : Text} (alone : sectionNames key = [key])
    (apart : key ≠ other) :
    readOptional [other] d f (if key = name then [(name, value)] else onlySection key entries) = some d := by
  have named : ∀ entry ∈ (if key = name then [(name, value)] else onlySection key entries), entry.1 = key := by
    intro entry member
    split at member
    · next same => rw [List.mem_singleton.mp member, same]
    · have inside := of_decide_eq_true (List.mem_filter.mp member).2
      rw [alone] at inside
      exact List.mem_singleton.mp inside
  have none : (if key = name then [(name, value)] else onlySection key entries).filter
      (fun entry => decide (entry.1 ∈ [other])) = [] := by
    apply List.filter_eq_nil_iff.mpr
    intro entry member
    rw [named entry member]
    simpa using apart
  rw [readOptional, givenField, none]
  rfl

theorem Replaces.entities (laws : crates.Lawful) (replaces : Replaces crates entries name value config new)
    (whole : read.ReadFrom crates ids (Assoc.insert entries (name, value)) used) :
    List.Forall₂ ConsumerConfig.Alike read.consumers (config.withSection name new).consumers ∧
      List.Forall₂ PublisherClient.Alike read.publishers (config.withSection name new).publishers := by
  obtain ⟨afterConsumers, readConsumers, readPublishers⟩ := whole.entities
  obtain ⟨single, alone, own, other⟩ := replaces.section_read (by decide : ("consumers" : Text) ∈ appFields)
  obtain ⟨single', alone', own', other'⟩ := replaces.section_read (by decide : ("publishers" : Text) ∈ appFields)
  obtain ⟨taken, consumers, publishers⟩ := (readFrom_of_read laws (alone ids)).entities
  obtain ⟨taken', consumers', publishers'⟩ := (readFrom_of_read laws (alone' ids)).entities
  -- no id is taken by the consumers, so the publishers take theirs from the first one on
  rw [readOptional_other rfl (by decide)] at publishers consumers'
  obtain ⟨-, rfl⟩ := Prod.mk.inj (Option.some.inj publishers)
  obtain ⟨-, rfl⟩ := Prod.mk.inj (Option.some.inj consumers')
  obtain ⟨sameConsumers, rfl⟩ := Prod.mk.inj (readOptional_assign "consumers" replaces.known readConsumers consumers)
  obtain ⟨samePublishers, -⟩ := Prod.mk.inj (readOptional_assign "publishers" replaces.known readPublishers publishers')
  rw [sameConsumers, samePublishers]
  exact ⟨section_field (r := List.Forall₂ ConsumerConfig.Alike) AppConfig.consumers
      (fun _ => List.forall₂_same.mpr fun consumer _ => .refl consumer) (fun _ _ _ => rfl) AppConfig.Alike.consumers
      own other,
    section_field (r := List.Forall₂ PublisherClient.Alike) AppConfig.publishers
      (fun _ => List.forall₂_same.mpr fun publisher _ => .refl publisher) (fun _ _ _ => rfl) AppConfig.Alike.publishers
      own' other'⟩

/-- A document that replaces one section of a configuration is read as the configuration with that section
replaced. -/
theorem Replaces.read_alike (laws : crates.Lawful) (replaces : Replaces crates entries name value config new)
    (unrouted : (config.withSection name new).routes = [])
    (found : AppConfig.read crates ids (.obj (Assoc.insert entries (name, value))) = some (read, used)) :
    read.Alike (config.withSection name new) := by
  have whole := readFrom_of_read laws found
  have routes : read.routes = (config.withSection name new).routes :=
    replaces.field laws whole "routes" (by decide) AppConfig.routes (fun part => part.routes) (fun _ _ _ => rfl)
      (fun _ => rfl) fun same => same.routes.1.trans same.routes.2.symm
  obtain ⟨consumers, publishers⟩ := replaces.entities laws whole
  constructor
  · exact replaces.field laws whole "log_level" (by decide) AppConfig.logLevel (fun part => part.logLevel) (fun _ _ _ => rfl)
      (fun _ => rfl) AppConfig.Alike.logLevel
  · exact replaces.field laws whole "logger" (by decide) AppConfig.logger (fun part => part.logger) (fun _ _ _ => rfl)
      (fun _ => rfl) AppConfig.Alike.logger
  · exact replaces.field laws whole "ui_addr" (by decide) AppConfig.uiAddr (fun part => part.uiAddr) (fun _ _ _ => rfl)
      (fun _ => rfl) AppConfig.Alike.uiAddr
  · exact replaces.field laws whole "metrics_addr" (by decide) AppConfig.metricsAddr (fun part => part.metricsAddr)
      (fun _ _ _ => rfl) (fun _ => rfl) AppConfig.Alike.metricsAddr
  · exact replaces.field laws whole "plugins" (by decide) AppConfig.plugins (fun part => part.plugins) (fun _ _ _ => rfl)
      (fun _ => rfl) AppConfig.Alike.plugins
  · exact ⟨routes.trans unrouted, unrouted⟩
  · exact consumers
  · exact publishers
  · exact replaces.field (r := fun a b => SameDocuments (historyData a) (historyData b)) laws whole "history" (by decide)
      AppConfig.history (fun part => part.history) (fun _ _ _ => rfl) (fun _ => SameDocuments.refl _) AppConfig.Alike.history
  · exact replaces.field (r := fun a b => SameDocuments (.textMap a) (.textMap b)) laws whole "env_vars" (by decide)
      AppConfig.envVars (fun part => part.envVars) (fun _ _ _ => rfl) (fun _ => SameDocuments.refl _) AppConfig.Alike.envVars
  · exact replaces.field laws whole "config_security" (by decide) AppConfig.configSecurity (fun part => part.configSecurity)
      (fun _ _ _ => rfl) (fun _ => rfl) AppConfig.Alike.configSecurity
  · exact replaces.field laws whole "extract_secrets" (by decide) AppConfig.extractSecrets (fun part => part.extractSecrets)
      (fun _ _ _ => rfl) (fun _ => rfl) AppConfig.Alike.extractSecrets
  · exact replaces.field laws whole "default_tab" (by decide) AppConfig.defaultTab (fun part => part.defaultTab)
      (fun _ _ _ => rfl) (fun _ => rfl) AppConfig.Alike.defaultTab

end

end MqBridge.Config
