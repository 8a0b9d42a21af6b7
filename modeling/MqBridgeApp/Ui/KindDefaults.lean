import MqBridgeApp.Ui.EndpointDefaults

/-!
# Switches and connectors in a form

What a switch and the configuration of a connector are read as once their endpoint got its defaults, and that they get
them once.
-/

namespace MqBridge.Ui.EndpointForm
open Text EndpointJson

/-! ### Switches that are read -/

section
variable {recurse again : Option Json → Record} {row : Json} {rule : Text × Json}

/-- A rule as it is written, in one of two orders. -/
theorem readRule_eq_some : readRule row = some rule ↔
    row = .obj [("if", .str rule.1), ("to", rule.2)] ∨ row = .obj [("to", rule.2), ("if", .str rule.1)] := by
  constructor
  · intro read
    obtain ⟨⟨condition, endpoint⟩, pair, text⟩ := Option.bind_eq_some_iff.mp read
    obtain ⟨value, found, rfl⟩ := Option.map_eq_some_iff.mp text
    obtain rfl : condition = .str value := by
      cases condition with
      | str text => rw [Option.some.inj found]
      | _ => cases found
    unfold readPair at pair
    split at pair
    · split at pair
      · next names =>
        obtain ⟨rfl, rfl⟩ := names
        obtain ⟨rfl, rfl⟩ := Prod.mk.inj (Option.some.inj pair)
        exact .inl rfl
      · split at pair
        · next names =>
          obtain ⟨rfl, rfl⟩ := names
          obtain ⟨rfl, rfl⟩ := Prod.mk.inj (Option.some.inj pair)
          exact .inr rfl
        · cases pair
    · cases pair
  · rintro (rfl | rfl)
    · rfl
    · rfl

theorem readRule_normalized (read : readRule row = some rule) :
    readRule (normalizeRule recurse row) = some (rule.1, nested recurse (some rule.2)) := by
  rw [readRule_eq_some]
  rcases readRule_eq_some.mp read with rfl | rfl
  · exact .inl rfl
  · exact .inr rfl

theorem normalizeRule_twice (read : readRule row = some rule)
    (settled : again (some (nested recurse (some rule.2))) = recurse (some rule.2)) :
    normalizeRule again (normalizeRule recurse row) = normalizeRule recurse row := by
  have same : nested again (some (nested recurse (some rule.2))) = nested recurse (some rule.2) := congrArg Json.obj settled
  rcases readRule_eq_some.mp read with rfl | rfl
  · show Json.obj [("if", .str rule.1), ("to", nested again (some (nested recurse (some rule.2))))] = _
    rw [same]
    rfl
  · show Json.obj [("to", nested again (some (nested recurse (some rule.2)))), ("if", .str rule.1)] = _
    rw [same]
    rfl

theorem normalizeRule_congr (read : readRule row = some rule) (same : recurse (some rule.2) = again (some rule.2)) :
    normalizeRule recurse row = normalizeRule again row := by
  have equal : nested recurse (some rule.2) = nested again (some rule.2) := congrArg Json.obj same
  rcases readRule_eq_some.mp read with rfl | rfl
  · show Json.obj [("if", .str rule.1), ("to", nested recurse (some rule.2))] = _
    rw [equal]
    rfl
  · show Json.obj [("to", nested recurse (some rule.2)), ("if", .str rule.1)] = _
    rw [equal]
    rfl

end

/-- The cases of a switch keep their order, and one that would be its prototype is left out. -/
theorem normalizeCases_eq (recurse : Option Json → Record) {cases : Record} (distinct : (cases.map Prod.fst).Nodup) :
    normalizeCases recurse (some (.obj cases)) =
      (cases.filter fun case => case.1 != ("__proto__" : Text)).map fun case => (case.1, nested recurse (some case.2)) := by
  have all : ∀ {cases before : Record}, ((before ++ cases).map Prod.fst).Nodup → (lit "__proto__") ∉ before.map Prod.fst →
      cases.foldl (fun normalized case => setInPlace normalized case.1 (nested recurse (some case.2))) before =
        before ++ (cases.filter fun case => case.1 != ("__proto__" : Text)).map fun case =>
          (case.1, nested recurse (some case.2)) := by
    intro cases
    induction cases with
    | nil => simp
    | cons case cases ih =>
      intro before distinct plain
      rw [List.foldl_cons]
      rw [List.map_append, List.map_cons, List.nodup_append, List.nodup_cons] at distinct
      obtain ⟨early, ⟨here, late⟩, apart⟩ := distinct
      have new : case.1 ∉ before.map Prod.fst := fun old => apart _ old _ List.mem_cons_self rfl
      have rest : ∀ name ∈ before.map Prod.fst, ∀ other ∈ cases.map Prod.fst, name ≠ other :=
        fun name old other later => apart name old other (List.mem_cons_of_mem _ later)
      by_cases hidden : case.1 = "__proto__"
      · rw [setInPlace, if_pos ⟨hidden, new⟩, ih ?_ plain, List.filter_cons_of_neg (by simp [hidden])]
        rw [List.map_append, List.nodup_append]
        exact ⟨early, late, rest⟩
      · rw [setInPlace, if_neg fun both => hidden both.1, defineProperty, if_neg new,
          List.filter_cons_of_pos (by simpa using hidden), List.map_cons, ih ?_ ?_, List.append_assoc]
        · rfl
        · rw [List.map_append, List.map_append, List.map_singleton, List.append_assoc, List.nodup_append,
            List.singleton_append, List.nodup_cons]
          refine ⟨early, ⟨here, late⟩, fun name old other later => ?_⟩
          exact apart name old other later
        · rw [List.map_append, List.map_singleton, List.mem_append, List.mem_singleton]
          exact fun either => either.elim plain fun same => hidden same.symm
  exact @all _ [] distinct List.not_mem_nil

/-! ### Fields of a switch -/

structure SwitchFields (fields : Record) (metadataKey : Text) (cases : Record) (rules : List (Text × Json)) : Prop where
  only : HasOnly fields switchNames
  metadataKey : readField readText [] (fields.prop "metadata_key") = some metadataKey
  cases : readField readCases [] (fields.prop "cases") = some cases
  rules : readField readRules [] (fields.prop "when") = some rules

theorem readSwitch_eq_some {config : Json} {kind : Kind Json} (read : readSwitch config = some kind) :
    ∃ (fields : Record) (metadataKey : Text) (cases : Record) (rules : List (Text × Json)), config = .obj fields ∧ SwitchFields fields metadataKey cases rules ∧
      ((rules = [] ∧ kind = .lookup metadataKey cases (Json.present (fields.prop "default"))) ∨
        (rules ≠ [] ∧ metadataKey = [] ∧ cases = [] ∧ kind = .predicates rules (Json.present (fields.prop "default")))) := by
  unfold readSwitch at read
  split at read
  · next fields =>
    split at read
    · next only =>
      obtain ⟨metadataKey, keyRead, read⟩ := Option.bind_eq_some_iff.mp read
      obtain ⟨cases, casesRead, read⟩ := Option.bind_eq_some_iff.mp read
      obtain ⟨rules, rulesRead, read⟩ := Option.bind_eq_some_iff.mp read
      refine ⟨fields, metadataKey, cases, rules, rfl, ⟨only, keyRead, casesRead, rulesRead⟩, ?_⟩
      dsimp only at read
      split at read
      · next none_ => exact .inl ⟨none_, (Option.some.inj read).symm⟩
      · next some_ =>
        split at read
        · next empty => exact .inr ⟨some_, empty.1, empty.2, (Option.some.inj read).symm⟩
        · cases read
    · cases read
  · cases read

/-- A switch with a metadata key, cases and a default. -/
structure LookupForm (fields : Record) (metadataKey : Text) (cases : Record) (default : Json) : Prop where
  only : HasOnly fields switchNames
  when_ : fields.prop "when" = none
  metadataKey : fields.prop "metadata_key" = some (.str metadataKey)
  distinct : (cases.map Prod.fst).Nodup
  cases : fields.prop "cases" = some (.obj cases)
  default : fields.prop "default" = some default

/-- A switch with predicates and a default. -/
structure PredicateForm (fields : Record) (rows : List Json) (default : Json) : Prop where
  only : HasOnly fields switchNames
  when_ : fields.prop "when" = some (.arr rows)
  rows : rows ≠ []
  metadataKey : fields.prop "metadata_key" = none
  cases : fields.prop "cases" = none
  default : fields.prop "default" = some default

theorem LookupForm.read {fields cases : Record} {metadataKey : Text} {default : Json}
    (form : LookupForm fields metadataKey cases default) (there : default ≠ .null) :
    readSwitch (.obj fields) = some (.lookup metadataKey cases (some default)) := by
  have present : Json.present (some default) = some default := by
    cases default <;> first | rfl | exact absurd rfl there
  rw [readSwitch, if_pos form.only, form.metadataKey, form.cases, form.when_, form.default, present]
  simp [readField, readText, readCases, form.distinct]

theorem PredicateForm.read {fields : Record} {rows : List Json} {rules : List (Text × Json)} {default : Json}
    (form : PredicateForm fields rows default) (read : rows.mapM readRule = some rules) (there : default ≠ .null) :
    readSwitch (.obj fields) = some (.predicates rules (some default)) := by
  have present : Json.present (some default) = some default := by
    cases default <;> first | rfl | exact absurd rfl there
  have some_ : rules ≠ [] := by
    rintro rfl
    exact form.rows (List.forall₂_nil_right_iff.mp (Lists.mapM_eq_some_iff.mp read))
  rw [readSwitch, if_pos form.only, form.metadataKey, form.cases, form.when_, form.default, present]
  simp [readField, readRules, read, some_]

section
variable {record : Record}

theorem withMetadataKey_only (only : HasOnly record switchNames) : HasOnly (withMetadataKey record) switchNames := by
  unfold withMetadataKey
  split
  · exact only
  · exact only.set (by decide) _

theorem withMetadataKey_other (record : Record) (name : Text) (other : name ≠ "metadata_key") :
    (withMetadataKey record).prop name = record.prop name := by
  unfold withMetadataKey
  split
  · rfl
  · rw [prop_setInPlace (by decide), if_neg other]

theorem withMetadataKey_prop {metadataKey : Text} (read : readField readText [] (record.prop "metadata_key") = some metadataKey) :
    (withMetadataKey record).prop "metadata_key" = some (.str (if metadataKey = [] then "type" else metadataKey)) := by
  have seeded : (setInPlace record "metadata_key" (.str "type")).prop "metadata_key" = some (.str "type") := by
    rw [prop_setInPlace (by decide), if_pos rfl]
  unfold withMetadataKey
  cases found : record.prop "metadata_key" with
  | none =>
    rw [found] at read
    obtain rfl := Option.some.inj read
    exact seeded
  | some value =>
    rw [found] at read
    cases value with
    | str text =>
      obtain rfl := Option.some.inj read
      by_cases empty : text = []
      · rw [if_neg (by simp [Json.truthy, empty]), if_pos empty]
        exact seeded
      · rw [if_pos (by simpa [Json.truthy] using empty), if_neg empty]
        exact found
    | _ => cases read

/-- The cases of a switch that are read are the ones that are normalized. -/
theorem normalizeCases_read (recurse : Option Json → Record) {cases : Record} {stored : Option Json}
    (read : readField readCases [] stored = some cases) : (cases.map Prod.fst).Nodup ∧
      normalizeCases recurse stored = normalizeCases recurse (some (.obj cases)) := by
  cases stored with
  | none =>
    obtain rfl := Option.some.inj read
    exact ⟨List.nodup_nil, rfl⟩
  | some value =>
    cases value with
    | obj entries =>
      unfold readField readCases at read
      dsimp only at read
      split at read
      · next distinct =>
        obtain rfl := Option.some.inj read
        exact ⟨distinct, rfl⟩
      · cases read
    | _ => cases read

end

section
variable {recurse : Option Json → Record} {fields cases : Record} {metadataKey : Text} {rules : List (Text × Json)}
  {default : Json}

theorem LookupForm.settled (form : LookupForm fields metadataKey cases default) (full : metadataKey ≠ [])
    (casesSettled : normalizeCases recurse (some (.obj cases)) = cases)
    (defaultSettled : nestedOrRef recurse (some default) = default) : normalizeSwitch recurse fields = fields := by
  have erased : Assoc.erase fields ("when" : Text) = fields := erase_of_lookup_none form.when_
  have truthy : (Json.str metadataKey).truthy = true := by simpa [Json.truthy] using full
  have lookup : normalizeLookup recurse fields = fields := by
    unfold normalizeLookup
    dsimp only
    rw [erased, withMetadataKey, form.metadataKey, Option.any_some, if_pos truthy, form.cases, casesSettled]
    exact setInPlace_self form.only.1 form.cases
  rw [normalizeSwitch, form.when_]
  dsimp only
  rw [lookup, form.default, defaultSettled]
  exact setInPlace_self form.only.1 form.default

theorem PredicateForm.settled {rows : List Json} (form : PredicateForm fields rows default)
    (rowsSettled : rows.map (normalizeRule recurse) = rows) (defaultSettled : nestedOrRef recurse (some default) = default) :
    normalizeSwitch recurse fields = fields := by
  cases rows with
  | nil => exact absurd rfl form.rows
  | cons row rows =>
    rw [normalizeSwitch, form.when_]
    dsimp only
    rw [rowsSettled, setInPlace_self form.only.1 form.when_, @erase_of_lookup_none _ "metadata_key" form.metadataKey,
      @erase_of_lookup_none _ "cases" form.cases, form.default, defaultSettled]
    exact setInPlace_self form.only.1 form.default

theorem normalizeSwitch_lookup (read : SwitchFields fields metadataKey cases []) :
    LookupForm (normalizeSwitch recurse fields) (if metadataKey = [] then "type" else metadataKey)
      (normalizeCases recurse (some (.obj cases))) (nestedOrRef recurse (fields.prop "default")) := by
  have unlisted : normalizeSwitch recurse fields = setInPlace (normalizeLookup recurse fields) "default"
      (nestedOrRef recurse ((normalizeLookup recurse fields).prop "default")) := by
    have rules := read.rules
    unfold normalizeSwitch
    split
    · next entry entries listed =>
      rw [listed] at rules
      have none_ := List.forall₂_nil_right_iff.mp (Lists.mapM_eq_some_iff.mp rules)
      cases none_
    · rfl
  let keyed : Record := withMetadataKey (Assoc.erase fields ("when" : Text))
  have lookup : normalizeLookup recurse fields =
      setInPlace keyed "cases" (.obj (normalizeCases recurse (keyed.prop "cases"))) := rfl
  have keyedOnly : HasOnly keyed switchNames := withMetadataKey_only (read.only.erase _)
  have key : keyed.prop "metadata_key" = some (.str (if metadataKey = [] then "type" else metadataKey)) := by
    apply withMetadataKey_prop
    rw [prop_erase, if_neg (by decide)]
    exact read.metadataKey
  have others : ∀ name : Text, name ≠ "metadata_key" →
      keyed.prop name = Record.prop (Assoc.erase fields ("when" : Text)) name := withMetadataKey_other _
  have when_ : keyed.prop "when" = none := by
    rw [others _ (by decide), prop_erase, if_pos rfl]
  have default : keyed.prop "default" = fields.prop "default" := by
    rw [others _ (by decide), prop_erase, if_neg (by decide)]
  have listed : keyed.prop "cases" = fields.prop "cases" := by
    rw [others _ (by decide), prop_erase, if_neg (by decide)]
  have distinctCases := normalizeCases_read recurse read.cases
  rw [listed, distinctCases.2] at lookup
  rw [unlisted, lookup]
  exact {
    only := (keyedOnly.set (by decide) _).set (by decide) _
    when_ := by
      rw [prop_setInPlace (by decide), if_neg (by decide), prop_setInPlace (by decide), if_neg (by decide), when_]
    metadataKey := by
      rw [prop_setInPlace (by decide), if_neg (by decide), prop_setInPlace (by decide), if_neg (by decide), key]
    distinct := by
      rw [normalizeCases_eq recurse distinctCases.1, List.map_map]
      exact distinctCases.1.sublist (List.filter_sublist.map Prod.fst)
    cases := by
      rw [prop_setInPlace (by decide), if_neg (by decide), prop_setInPlace (by decide), if_pos rfl]
    default := by
      rw [prop_setInPlace (by decide), if_pos rfl, prop_setInPlace (by decide), if_neg (by decide), default] }

theorem normalizeSwitch_predicates {rows : List Json} (read : SwitchFields fields metadataKey cases rules)
    (some_ : rules ≠ []) (listed : fields.prop "when" = some (.arr rows)) :
    PredicateForm (normalizeSwitch recurse fields) (rows.map (normalizeRule recurse))
      (nestedOrRef recurse (fields.prop "default")) := by
  cases rows with
  | nil =>
    have rules := read.rules
    rw [listed] at rules
    exact absurd (Option.some.inj rules).symm some_
  | cons row rows =>
    rw [normalizeSwitch, listed]
    dsimp only
    exact {
      only := (((read.only.set (by decide) _).erase _).erase _).set (by decide) _
      when_ := by
        rw [prop_setInPlace (by decide), if_neg (by decide), prop_erase, if_neg (by decide), prop_erase, if_neg (by decide),
          prop_setInPlace (by decide), if_pos rfl]
      rows := nofun
      metadataKey := by
        rw [prop_setInPlace (by decide), if_neg (by decide), prop_erase, if_neg (by decide), prop_erase, if_pos rfl]
      cases := by
        rw [prop_setInPlace (by decide), if_neg (by decide), prop_erase, if_pos rfl]
      default := by
        rw [prop_setInPlace (by decide), if_pos rfl, prop_erase, if_neg (by decide), prop_erase, if_neg (by decide),
          prop_setInPlace (by decide), if_neg (by decide)] }

end

/-! ### Kinds that are read -/

/-- The defaults of a form: a switch has a metadata key or predicates and a default, and encryption that nobody set is
dropped. -/
def defaultedKind {α : Type} (empty : α) : Kind α → Kind α
  | .lookup metadataKey cases default =>
    .lookup (if metadataKey = [] then "type" else metadataKey) cases (some (default.getD empty))
  | .predicates when_ default => .predicates when_ (some (default.getD empty))
  | .connector name config encryption => .connector name config (encryption.filter fun block => !isUnsetEncryption block)
  | kind => kind

def caseNames {α : Type} : Kind α → List Text
  | .lookup _ cases _ => cases.map Prod.fst
  | _ => []

section
variable {recurse again : Option Json → Record} {name : Text} {config : Json} {kind : Kind Json}

theorem nestedOrRef_eq (recurse : Option Json → Record) (stored : Option Json) :
    nestedOrRef recurse stored =
      ((Json.present stored).map fun part => nested recurse (some part)).getD (nested recurse (some emptyRef)) := by
  rw [nestedOrRef]
  cases Json.present stored <;> rfl

theorem nestedOrRef_settled {stored : Option Json}
    (settled : ∀ part ∈ Json.present stored, again (some (nested recurse (some part))) = recurse (some part))
    (ref : again (some (nested recurse (some emptyRef))) = recurse (some emptyRef)) :
    nestedOrRef again (some (nestedOrRef recurse stored)) = nestedOrRef recurse stored := by
  rw [nestedOrRef_eq recurse]
  cases found : Json.present stored with
  | none => exact congrArg Json.obj ref
  | some part => exact congrArg Json.obj (settled part found)

theorem dropUnsetEncryption_without {fields : Record} (without : fields.prop "encryption" = none) :
    dropUnsetEncryption fields = fields := by
  rw [dropUnsetEncryption, without]

theorem dropUnsetEncryption_twice (fields : Record) :
    dropUnsetEncryption (dropUnsetEncryption fields) = dropUnsetEncryption fields := by
  by_cases dropped : ∃ block, fields.prop "encryption" = some (.obj block) ∧ isUnsetEncryption block = true
  · obtain ⟨block, found, unset⟩ := dropped
    have erased : dropUnsetEncryption fields = Assoc.erase fields ("encryption" : Text) := by
      rw [dropUnsetEncryption, found]
      exact if_pos unset
    rw [erased]
    exact dropUnsetEncryption_without (by rw [prop_erase, if_pos rfl])
  · have kept : dropUnsetEncryption fields = fields := by
      unfold dropUnsetEncryption
      split
      · next block found => exact if_neg fun unset => dropped ⟨block, found, unset⟩
      · rfl
    rw [kept, kept]

/-- The encryption of a connector is read as before, unless nobody set it. -/
theorem readConnector_dropped {fields : Record} (read : readConnector name (.obj fields) = some kind) :
    readConnector name (.obj (dropUnsetEncryption fields)) = some (defaultedKind emptyRef kind) := by
  obtain ⟨encryption, found, rfl⟩ := Option.map_eq_some_iff.mp read
  cases stored : fields.prop "encryption" with
  | none =>
    rw [stored] at found
    obtain rfl := Option.some.inj found
    rw [dropUnsetEncryption_without stored]
    exact read
  | some value =>
    rw [stored] at found
    cases value with
    | null =>
      obtain rfl := Option.some.inj found
      have kept : dropUnsetEncryption fields = fields := by rw [dropUnsetEncryption, stored]
      rw [kept]
      exact read
    | obj block =>
      obtain ⟨key, -, rfl⟩ := Option.map_eq_some_iff.mp found
      have dropped : dropUnsetEncryption fields =
          if isUnsetEncryption block then Assoc.erase fields ("encryption" : Text) else fields := by
        rw [dropUnsetEncryption, stored]
      rw [dropped]
      by_cases unset : isUnsetEncryption block = true
      · have gone : Record.prop (Assoc.erase fields ("encryption" : Text)) "encryption" = none := by
          rw [prop_erase, if_pos rfl]
        rw [if_pos unset, readConnector, gone, erase_of_lookup_none gone]
        rw [defaultedKind, Option.filter_some, if_neg (by simp [unset])]
        rfl
      · rw [if_neg unset, read, defaultedKind, Option.filter_some, if_pos (by simpa using unset)]
    | _ => cases found

/-- What becomes of a configuration when its endpoint gets its defaults. -/
def defaultedConfig (recurse : Option Json → Record) (name : Text) (config : Json) : Json :=
  withoutUnsetEncryption (normalizeConfig recurse name config)

theorem normalizeConfig_switch (recurse : Option Json → Record) (fields : Record) :
    normalizeConfig recurse "switch" (.obj fields) = .obj (normalizeSwitch recurse fields) := rfl

theorem defaultedConfig_switch {fields : Record} (only : HasOnly (normalizeSwitch recurse fields) switchNames) :
    defaultedConfig recurse "switch" (.obj fields) = .obj (normalizeSwitch recurse fields) := by
  rw [defaultedConfig, normalizeConfig_switch]
  exact congrArg Json.obj (dropUnsetEncryption_without (only.prop_eq_none (by decide)))

/-- A connector is neither of the kinds that have endpoints inside or a text. -/
structure IsConnector (name : Text) : Prop where
  static : name ≠ "static"
  ref : name ≠ "ref"
  fanout : name ≠ "fanout"
  switch : name ≠ "switch"

theorem normalizeConfig_connector (connector : IsConnector name) : normalizeConfig recurse name config = config := by
  unfold normalizeConfig
  rw [if_neg connector.switch, if_neg connector.fanout,
    if_neg fun either => either.elim connector.static connector.ref]

/-- The kinds of an endpoint, each with what is read under its name. -/
theorem readKind_cases (read : readKind name config = some kind) :
    (name = "static" ∧ readStatic config = some kind) ∨
    (name = "ref" ∧ ∃ target, config = .str target ∧ kind = .ref target) ∨
    (name = "fanout" ∧ ∃ branches, config = .arr branches ∧ kind = .fanout branches) ∨
    (name = "switch" ∧ readSwitch config = some kind) ∨
    (IsConnector name ∧ readConnector name config = some kind) := by
  unfold readKind at read
  split at read
  · next same => exact .inl ⟨same, read⟩
  · next static =>
    split at read
    · next same =>
      obtain ⟨target, text, rfl⟩ := Option.map_eq_some_iff.mp read
      cases config with
      | str text' =>
        obtain rfl := Option.some.inj text
        exact .inr (.inl ⟨same, _, rfl, rfl⟩)
      | _ => cases text
    · next ref =>
      split at read
      · next same =>
        split at read
        · exact .inr (.inr (.inl ⟨same, _, rfl, (Option.some.inj read).symm⟩))
        · cases read
      · next fanout =>
        split at read
        · next same => exact .inr (.inr (.inr (.inl ⟨same, read⟩)))
        · next switch => exact .inr (.inr (.inr (.inr ⟨⟨static, ref, fanout, switch⟩, read⟩)))

theorem readKind_connector (connector : IsConnector name) : readKind name config = readConnector name config := by
  unfold readKind
  rw [if_neg connector.static, if_neg connector.ref, if_neg connector.fanout, if_neg connector.switch]

theorem readConnector_kind (read : readConnector name config = some kind) :
    ∃ settings encryption, kind = .connector name settings encryption := by
  unfold readConnector at read
  split at read
  · obtain ⟨encryption, -, rfl⟩ := Option.map_eq_some_iff.mp read
    exact ⟨_, _, rfl⟩
  · exact ⟨_, _, (Option.some.inj read).symm⟩

theorem readRules_rows {stored : Option Json} {rules : List (Text × Json)} (some_ : rules ≠ [])
    (read : readField readRules [] stored = some rules) : ∃ rows, stored = some (.arr rows) ∧
      List.Forall₂ (fun row rule => readRule row = some rule) rows rules := by
  cases stored with
  | none => exact absurd (Option.some.inj read).symm some_
  | some value =>
    cases value with
    | arr rows => exact ⟨rows, rfl, Lists.mapM_eq_some_iff.mp read⟩
    | _ => cases read

/-- What is read of the configuration once its endpoint got its defaults. -/
theorem readKind_defaulted (read : readKind name config = some kind)
    (text : name = "static" → ∀ fields, config ≠ .obj fields) (plain : ("__proto__" : Text) ∉ caseNames kind) :
    readKind name (defaultedConfig recurse name config) =
      some (defaultedKind (nested recurse (some emptyRef)) (kind.map fun part => nested recurse (some part))) := by
  rcases readKind_cases read with ⟨rfl, static⟩ | ⟨rfl, target, rfl, rfl⟩ | ⟨rfl, branches, rfl, rfl⟩ | ⟨rfl, switch⟩ |
    ⟨connector, read⟩
  · cases config with
    | str body =>
      obtain rfl := Option.some.inj static
      rfl
    | obj fields => exact absurd rfl (text rfl fields)
    | _ => cases static
  · rfl
  · rfl
  · obtain ⟨fields, metadataKey, cases, rules, rfl, fieldsRead, ⟨rfl, rfl⟩ | ⟨some_, rfl, rfl, rfl⟩⟩ :=
      readSwitch_eq_some switch
    · have form := @normalizeSwitch_lookup recurse _ _ _ fieldsRead
      rw [defaultedConfig_switch form.only]
      have shown : cases.filter (fun case => case.1 != ("__proto__" : Text)) = cases := by
        rw [List.filter_eq_self]
        intro case member
        simp only [bne_iff_ne, ne_eq]
        intro hidden
        exact plain (List.mem_map.mpr ⟨case, member, hidden⟩)
      rw [normalizeCases_eq recurse (normalizeCases_read recurse fieldsRead.cases).1, shown] at form
      refine (form.read nofun).trans ?_
      rw [nestedOrRef_eq]
      rfl
    · obtain ⟨rows, listed, each⟩ := readRules_rows some_ fieldsRead.rules
      have form := @normalizeSwitch_predicates recurse _ _ _ _ _ fieldsRead some_ listed
      rw [defaultedConfig_switch form.only]
      have again : (rows.map (normalizeRule recurse)).mapM readRule =
          some (rules.map fun rule => (rule.1, nested recurse (some rule.2))) := by
        rw [Lists.mapM_eq_some_iff, List.forall₂_map_left_iff, List.forall₂_map_right_iff]
        exact each.imp fun row rule one => readRule_normalized one
      refine (form.read again nofun).trans ?_
      rw [nestedOrRef_eq]
      rfl
  · rw [readKind_connector connector, defaultedConfig, normalizeConfig_connector connector]
    obtain ⟨settings, encryption, rfl⟩ := readConnector_kind read
    cases config with
    | obj fields => exact readConnector_dropped read
    | _ =>
      obtain ⟨-, rfl, rfl⟩ := Kind.connector.inj (Option.some.inj read)
      rfl

theorem normalizeCases_settled {cases : Record} (distinct : (cases.map Prod.fst).Nodup)
    (settled : ∀ case ∈ cases, again (some (nested recurse (some case.2))) = recurse (some case.2)) :
    normalizeCases again (some (.obj (normalizeCases recurse (some (.obj cases))))) =
      normalizeCases recurse (some (.obj cases)) := by
  have distinct' : ((normalizeCases recurse (some (.obj cases))).map Prod.fst).Nodup := by
    rw [normalizeCases_eq recurse distinct, List.map_map]
    exact distinct.sublist (List.filter_sublist.map Prod.fst)
  rw [normalizeCases_eq again distinct', normalizeCases_eq recurse distinct, List.filter_map, List.filter_filter, List.map_map]
  simp only [Function.comp_apply, Bool.and_self]
  refine List.map_congr_left fun case member => ?_
  exact Prod.ext rfl (congrArg Json.obj (settled case (List.mem_filter.mp member).1))

theorem normalizeCases_congr {cases : Record} {stored : Option Json} (read : readField readCases [] stored = some cases)
    (same : ∀ case ∈ cases, recurse (some case.2) = again (some case.2)) :
    normalizeCases recurse stored = normalizeCases again stored := by
  obtain ⟨distinct, equal⟩ := normalizeCases_read recurse read
  rw [equal, (normalizeCases_read again read).2, normalizeCases_eq recurse distinct, normalizeCases_eq again distinct]
  refine List.map_congr_left fun case member => ?_
  exact Prod.ext rfl (congrArg Json.obj (same case (List.mem_filter.mp member).1))

theorem normalizeRules_congr {rows : List Json} {rules : List (Text × Json)}
    (each : List.Forall₂ (fun row rule => readRule row = some rule) rows rules)
    (same : ∀ rule ∈ rules, recurse (some rule.2) = again (some rule.2)) :
    rows.map (normalizeRule recurse) = rows.map (normalizeRule again) := by
  refine List.map_congr_left fun row member => ?_
  obtain ⟨rule, inside, read⟩ := Lists.exists_of_forall₂ each member
  exact normalizeRule_congr read (same rule inside)

theorem normalizeRules_settled {rows : List Json} {rules : List (Text × Json)}
    (each : List.Forall₂ (fun row rule => readRule row = some rule) rows rules)
    (settled : ∀ rule ∈ rules, again (some (nested recurse (some rule.2))) = recurse (some rule.2)) :
    (rows.map (normalizeRule recurse)).map (normalizeRule again) = rows.map (normalizeRule recurse) := by
  rw [List.map_map]
  refine List.map_congr_left fun row member => ?_
  obtain ⟨rule, inside, read⟩ := Lists.exists_of_forall₂ each member
  exact normalizeRule_twice read (settled rule inside)

theorem normalizeSwitch_congr {fields : Record}
    (rules : ∀ rows, fields.prop "when" = some (.arr rows) → rows.map (normalizeRule recurse) = rows.map (normalizeRule again))
    (cases : normalizeCases recurse (fields.prop "cases") = normalizeCases again (fields.prop "cases"))
    (default : nestedOrRef recurse (fields.prop "default") = nestedOrRef again (fields.prop "default")) :
    normalizeSwitch recurse fields = normalizeSwitch again fields := by
  have lookup : normalizeLookup recurse fields = normalizeLookup again fields := by
    rw [normalizeLookup, normalizeLookup, withMetadataKey_other _ _ (by decide), prop_erase, if_neg (by decide), cases]
  have kept : (normalizeLookup again fields).prop "default" = fields.prop "default" := by
    rw [normalizeLookup, prop_setInPlace (by decide), if_neg (by decide), withMetadataKey_other _ _ (by decide), prop_erase, if_neg (by decide)]
  unfold normalizeSwitch
  split
  · next row rows listed =>
    rw [rules _ listed]
    dsimp only
    rw [prop_erase, if_neg (by decide), prop_erase, if_neg (by decide), prop_setInPlace (by decide), if_neg (by decide), default]
  · dsimp only
    rw [lookup, kept, default]

/-- A configuration with its defaults has them once more when the endpoints inside it do. -/
theorem defaultedConfig_twice (read : readKind name config = some kind)
    (settled : ∀ part ∈ kind.parts, again (some (nested recurse (some part))) = recurse (some part))
    (ref : again (some (nested recurse (some emptyRef))) = recurse (some emptyRef)) :
    defaultedConfig again name (defaultedConfig recurse name config) = defaultedConfig recurse name config := by
  rcases readKind_cases read with ⟨rfl, static⟩ | ⟨rfl, target, rfl, rfl⟩ | ⟨rfl, branches, rfl, rfl⟩ | ⟨rfl, switch⟩ |
    ⟨connector, read⟩
  · rfl
  · rfl
  · refine congrArg Json.arr ?_
    rw [List.map_map]
    exact List.map_congr_left fun part member => congrArg Json.obj (settled part member)
  · obtain ⟨fields, metadataKey, cases, rules, rfl, fieldsRead, ⟨rfl, rfl⟩ | ⟨some_, rfl, rfl, rfl⟩⟩ :=
      readSwitch_eq_some switch
    · have form := @normalizeSwitch_lookup recurse _ _ _ fieldsRead
      have distinct := (normalizeCases_read recurse fieldsRead.cases).1
      have kept : normalizeSwitch again (normalizeSwitch recurse fields) = normalizeSwitch recurse fields := by
        refine form.settled ?_ ?_ (nestedOrRef_settled (fun part inside => settled part ?_) ref)
        · split
          · decide
          · assumption
        · exact normalizeCases_settled distinct fun case member =>
            settled case.2 (List.mem_append_left _ (List.mem_map_of_mem member))
        · simp [Kind.parts, Option.mem_def.mp inside]
      rw [defaultedConfig_switch form.only, defaultedConfig_switch (by rw [kept]; exact form.only), kept]
    · obtain ⟨rows, listed, each⟩ := readRules_rows some_ fieldsRead.rules
      have form := @normalizeSwitch_predicates recurse _ _ _ _ _ fieldsRead some_ listed
      have kept : normalizeSwitch again (normalizeSwitch recurse fields) = normalizeSwitch recurse fields := by
        refine form.settled ?_ (nestedOrRef_settled (fun part inside => settled part ?_) ref)
        · exact normalizeRules_settled each fun rule member =>
            settled rule.2 (List.mem_append_left _ (List.mem_map_of_mem member))
        · simp [Kind.parts, Option.mem_def.mp inside]
      rw [defaultedConfig_switch form.only, defaultedConfig_switch (by rw [kept]; exact form.only), kept]
  · rw [defaultedConfig, defaultedConfig, normalizeConfig_connector connector, normalizeConfig_connector connector]
    cases config with
    | obj fields => exact congrArg Json.obj (dropUnsetEncryption_twice fields)
    | _ => rfl

/-- What becomes of a configuration depends on the endpoints inside it only. -/
theorem defaultedConfig_congr (read : readKind name config = some kind)
    (same : ∀ part ∈ kind.parts, recurse (some part) = again (some part))
    (ref : recurse (some emptyRef) = again (some emptyRef)) :
    defaultedConfig recurse name config = defaultedConfig again name config := by
  rcases readKind_cases read with ⟨rfl, static⟩ | ⟨rfl, target, rfl, rfl⟩ | ⟨rfl, branches, rfl, rfl⟩ | ⟨rfl, switch⟩ |
    ⟨connector, read⟩
  · rfl
  · rfl
  · exact congrArg Json.arr (List.map_congr_left fun part member => congrArg Json.obj (same part member))
  · obtain ⟨fields, metadataKey, cases, rules, rfl, fieldsRead, modes⟩ := readSwitch_eq_some switch
    have parts : (∀ case ∈ cases, case.2 ∈ kind.parts) ∧ (∀ rule ∈ rules, rule.2 ∈ kind.parts) ∧
        ∀ part ∈ Json.present (fields.prop "default"), part ∈ kind.parts := by
      rcases modes with ⟨rfl, rfl⟩ | ⟨-, -, rfl, rfl⟩
      · exact ⟨fun case member => List.mem_append_left _ (List.mem_map_of_mem member), List.forall_mem_nil _,
          fun part inside => List.mem_append_right _ (Option.mem_toList.mpr inside)⟩
      · exact ⟨List.forall_mem_nil _, fun rule member => List.mem_append_left _ (List.mem_map_of_mem member),
          fun part inside => List.mem_append_right _ (Option.mem_toList.mpr inside)⟩
    obtain ⟨casesInside, rulesInside, defaultInside⟩ := parts
    refine congrArg withoutUnsetEncryption (congrArg Json.obj (normalizeSwitch_congr (fun rows listed => ?_) ?_ ?_))
    · have rulesRead := fieldsRead.rules
      rw [listed] at rulesRead
      exact normalizeRules_congr (Lists.mapM_eq_some_iff.mp rulesRead) fun rule member => same _ (rulesInside rule member)
    · exact normalizeCases_congr fieldsRead.cases fun case member => same _ (casesInside case member)
    · rw [nestedOrRef_eq, nestedOrRef_eq]
      cases found : Json.present (fields.prop "default") with
      | none => exact congrArg Json.obj ref
      | some part => exact congrArg Json.obj (same part (defaultInside part found))
  · rw [defaultedConfig, defaultedConfig, normalizeConfig_connector connector, normalizeConfig_connector connector]

end

end MqBridge.Ui.EndpointForm
