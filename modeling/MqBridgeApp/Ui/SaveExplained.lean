import MqBridgeApp.Copy.IdentityUpgrade
import MqBridgeApp.Lib.JsonParts
import MqBridgeApp.Lib.Grouping
import MqBridgeApp.Ui.SaveError
import MqBridgeApp.Workspace.PresetMigration

/-!
# The explanation of a save error

A configuration that the server cannot read is answered with the message of its parser and a column. The page reads the
place back from the column and names it. Where a field is missing it names the deepest objects below that lack the field
and could require it.
-/

namespace MqBridge.Ui
open Text Utf16

structure ParseError where
  detail : Text
  line : Nat
  column : Nat

def ParseError.shown (error : ParseError) : Text :=
  if error.line = 0 then error.detail
  else error.detail ++ " at line " ++ ofNat error.line ++ " column " ++ ofNat error.column

/-- The answer of `handle_update_config_message`, where `lossy` is `String::from_utf8_lossy`. -/
def deserializeErrorMessage (lossy : List UInt8 → Text) (body : Text) (error : ParseError) : Text :=
  let message : Text := "Json deserialize error: " ++ error.shown
  if error.line = 1 then
    let bytes := body.flatMap String.utf8EncodeChar
    let idx := error.column - 1
    let snippet := lossy ((bytes.take (min (idx + 30) bytes.length)).drop (idx - 30))
    message ++ "\nAt: ..." ++ snippet ++ "..."
  else message

/-- The leftmost place at which something is read, with what stands before and after it. -/
def firstMatch {α : Type} (read : Text → Option (α × Text)) : Text → Option (Text × α × Text)
  | [] => (read []).map fun found => ([], found)
  | c :: rest =>
    match read (c :: rest) with
    | some found => some ([], found)
    | none => (firstMatch read rest).map fun found => (c :: found.1, found.2)

def readNumber (text : Text) : Option (Nat × Text) :=
  let digits := text.takeWhile Char.isDigit
  if digits.isEmpty then none else some (Nat.ofDigitChars 10 digits 0, text.drop digits.length)

/-- `LOCATION_PATTERN`, without the blanks before it -/
def readLocation (text : Text) : Option ((Nat × Nat) × Text) :=
  (stripPrefix "at line " text).bind fun rest =>
    (readNumber rest).bind fun line =>
      (stripPrefix " column " line.2).bind fun rest =>
        (readNumber rest).map fun column => ((line.1, column.1), column.2)

/-- `MISSING_FIELD_PATTERN` -/
def readMissingField (text : Text) : Option (Text × Text) :=
  (stripPrefix "missing field \x60" text).bind fun rest =>
    (splitOnce '\x60' rest).bind fun parts => if parts.1.isEmpty then none else some parts

/-- The message without what `PAYLOAD_EXCERPT_PATTERN` matches, which begins with the blanks before its text. -/
def dropPayloadExcerpt (message : Text) : Text :=
  match splitAtText "At: ..." message with
  | some (before, _) => before.rdropWhile isJsSpace
  | none => message

/-- The message without what `DESERIALIZE_PREFIX_PATTERN` matches, in letters of either case. -/
def dropDeserializePrefix (message : Text) : Text :=
  let label : Text := "json deserialize error:"
  if toAsciiLowercase (message.take label.length) = label then (message.drop label.length).dropWhile isJsSpace else message

/-! ### What could require a field -/

/-- The property names of each definition that requires a field. -/
abbrev FieldOwners := List (Text × List (List Text))

/-- `Object.keys(value)` -/
def objectKeys : Json → List Text
  | .obj entries => entries.map Prod.fst
  | .arr items => (List.range items.length).map ofNat
  | .str s => (List.range (ofText s).length).map ofNat
  | _ => []

/-- `Object.values(value)`, where the characters of a string are left out, since they define nothing. -/
def objectValues : Json → List Json
  | .obj entries => entries.map Prod.snd
  | .arr items => items
  | _ => []

/-- The fields that a definition requires, with its property names. -/
def requiredOf (definition : Json) : List Text × List Text :=
  let definition := Json.asObject (some definition)
  match Record.prop definition "required", Record.prop definition "properties" with
  | some (.arr required), some properties =>
    if properties.truthy then (required.map Json.toText, objectKeys properties) else ([], [])
  | _, _ => ([], [])

def definitionsOf (schema : Json) : List Json :=
  match Record.prop (Json.asObject (some schema)) "$defs" with
  | some definitions => objectValues definitions
  | none => []

/-- Each field that a definition requires, with the property names of the definition. -/
def requirements (schema : Json) : List (Text × List Text) :=
  (definitionsOf schema).flatMap fun definition =>
    (requiredOf definition).1.map fun field => (field, (requiredOf definition).2)

def registerConfigSchema (schema : Json) : FieldOwners :=
  Grouping.fileAll Prod.fst (fun _ => []) (fun entries requirement => entries ++ [requirement.2]) (requirements schema)

def couldRequireField (owners : FieldOwners) (record : Record) (field : Text) : Bool :=
  match owners.lookup field with
  | none => owners.isEmpty
  | some owners =>
    !record.isEmpty && owners.any fun propertyNames => record.all fun entry => entry.1 ∈ propertyNames

structure Deepest where
  found : List (List Units) := []
  deepest : Int := -1

def Deepest.note (state : Deepest) (path : List Units) : Deepest :=
  let state := if state.deepest < path.length then { found := [], deepest := path.length } else state
  if path.length = state.deepest then { state with found := state.found ++ [path] } else state

/-- `!(field in record) && couldRequireField(record, field)` -/
def lacksField (owners : FieldOwners) (field : Text) (record : Record) : Bool :=
  !(record.any (fun entry => entry.1 == field) || field ∈ Workspace.inheritedNames) && couldRequireField owners record field

section
variable (owners : FieldOwners) (field : Text)

mutual
def visit (path : List Units) : Json → Deepest → Deepest
  | .arr items, state => visitItems path 0 items state
  | .obj entries, state =>
    visitEntries path entries (if lacksField owners field entries then state.note path else state)
  | _, state => state
def visitItems (path : List Units) (index : Nat) : List Json → Deepest → Deepest
  | [], state => state
  | item :: rest, state => visitItems path (index + 1) rest (visit (path ++ [indexSegment index]) item state)
def visitEntries (path : List Units) : List (Text × Json) → Deepest → Deepest
  | [], state => state
  | (key, child) :: rest, state => visitEntries path rest (visit (path ++ [ofText key]) child state)
end

def deepestPathsMissingField (root : Option Json) (limit : Nat) : List (List Units) :=
  match root with
  | some root => (visit owners field [] root {}).found.take limit
  | none => []

end

def formatSegments (segments : List Units) : Units :=
  segments.foldl (fun joined segment =>
    if segment.head? = some '['.toNat then joined ++ segment
    else if joined.isEmpty then segment else joined ++ ofText " › " ++ segment) []

/-- The number of a segment `[number]`. -/
def readIndex (segment : Units) : Option Nat :=
  let digits := (segment.drop 1).dropLast
  if segment.head? = some '['.toNat ∧ (segment.drop 1).getLast? = some ']'.toNat ∧ digits ≠ [] ∧
      digits.all (fun u => '0'.toNat ≤ u && u ≤ '9'.toNat) then
    some (Nat.ofDigitChars 10 (digits.map Char.ofNat) 0)
  else none

/-- `named`, with the segments that follow the name. -/
def named (singular name fallback : Units) (rest : List Units) : Units :=
  formatSegments ((if name.isEmpty then fallback else singular ++ ofText " “" ++ name ++ ofText "”") :: rest)

/-- `String(entry?.name || entry?.id || "").trim()` -/
def entryLabel (entry : Option Json) : Text :=
  let entry : Record := Json.asObject entry
  jsTrim (Json.textOr (Json.textOr [] (entry.prop "id")) (entry.prop "name"))

def describeLocation (numberKey : Units → Units) (segments : List Units) (config : Json) : Units :=
  match segments with
  | [] => ofText "the configuration"
  | [_] => formatSegments segments
  | listed :: selector :: rest =>
    match if listed = ofText "consumers" ∨ listed = ofText "publishers" then readIndex selector else none with
    | some position =>
      let entry := valueAtPath numberKey config [listed, selector]
      let singular : Text := if listed = ofText "consumers" then "consumer" else "publisher"
      named (ofText singular) (ofText (entryLabel entry)) (ofText (singular ++ " " ++ ofNat (position + 1))) rest
    | none =>
      if listed = ofText "routes" ∧ selector ≠ [] then named (ofText "route") selector (ofText "route") rest
      else formatSegments segments

/-- `JSON.parse(text)` and `String(Number(text))`. -/
structure PageReader where
  parse : Text → Option Json
  numberKey : Units → Units

def explainConfigSaveError (reader : PageReader) (owners : FieldOwners) (rawMessage body : Text) : Units :=
  let message := jsTrim (dropPayloadExcerpt rawMessage)
  match firstMatch readLocation message with
  | none => ofText message
  | some (before, (line, column), after) =>
    if line ≠ 1 then ofText message
    else
      match reader.parse body with
      | none => ofText message
      | some config =>
        let detail := jsTrim (dropDeserializePrefix (before.rdropWhile isJsSpace ++ after))
        let segments := jsonPathAtOffset (ofText body) (utf16IndexForByteOffset (ofText body) (column - 1))
        let paths := match firstMatch readMissingField detail with
          | some (_, field, _) =>
            (deepestPathsMissingField owners field (valueAtPath reader.numberKey config segments) 2).map (segments ++ ·)
          | none => [segments]
        let described := (if paths.isEmpty then [segments] else paths).map fun path =>
          describeLocation reader.numberKey path config
        (ofText " or ").intercalate described ++ ofText ": " ++ ofText detail

/-! ### The deepest objects -/

/-- Where the paths so far are noted, the longest of them are found. -/
structure Noted (paths : List (List Units)) (state : Deepest) : Prop where
  bound : ∀ path ∈ paths, (path.length : Int) ≤ state.deepest
  reached : paths ≠ [] → ∃ path ∈ paths, (path.length : Int) = state.deepest
  none : paths = [] → state.deepest = -1
  found : state.found = paths.filter fun path => (path.length : Int) = state.deepest

theorem noted_note {paths : List (List Units)} {state : Deepest} (noted : Noted paths state) (path : List Units) :
    Noted (paths ++ [path]) (state.note path) := by
  obtain ⟨bound, reached, none, found⟩ := noted
  unfold Deepest.note
  dsimp only
  by_cases longer : state.deepest < path.length
  · rw [if_pos longer, if_pos rfl]
    refine ⟨fun other member => ?_, fun _ => ⟨path, by simp, rfl⟩, fun empty => by simp at empty, ?_⟩
    · rcases List.mem_append.mp member with earlier | last
      · exact (bound other earlier).trans longer.le
      · rw [List.mem_singleton.mp last]
    · have shorter : paths.filter (fun other => decide ((other.length : Int) = path.length)) = [] := by
        refine List.filter_eq_nil_iff.mpr fun other member same => ?_
        have below := bound other member
        have equal := of_decide_eq_true same
        omega
      rw [List.filter_append, shorter, List.filter_singleton, decide_eq_true rfl]
      rfl
  · have some_ : paths ≠ [] := fun empty => longer (by rw [none empty]; omega)
    rw [if_neg longer]
    have grown : ∀ other ∈ paths ++ [path], (other.length : Int) ≤ state.deepest := by
      intro other member
      rcases List.mem_append.mp member with earlier | last
      · exact bound other earlier
      · rw [List.mem_singleton.mp last]
        omega
    have kept : ∃ other ∈ paths ++ [path], (other.length : Int) = state.deepest := by
      obtain ⟨other, member, same⟩ := reached some_
      exact ⟨other, List.mem_append_left _ member, same⟩
    by_cases same : (path.length : Int) = state.deepest
    · rw [if_pos same]
      refine ⟨grown, fun _ => kept, fun empty => by simp at empty, ?_⟩
      rw [List.filter_append, List.filter_singleton, decide_eq_true same, found]
      rfl
    · rw [if_neg same]
      refine ⟨grown, fun _ => kept, fun empty => by simp at empty, ?_⟩
      rw [List.filter_append, List.filter_singleton, decide_eq_false same, found]
      exact (List.append_nil _).symm

/-- Noting paths in a row finds the longest of them. -/
theorem found_foldl_note (paths : List (List Units)) : (paths.foldl Deepest.note {}).found = longest paths := by
  have noted : Noted paths (paths.foldl Deepest.note {}) := by
    induction paths using List.reverseRecOn with
    | nil => exact ⟨fun _ member => absurd member List.not_mem_nil, fun some_ => absurd rfl some_, fun _ => rfl, rfl⟩
    | append_singleton paths path ih =>
      rw [List.foldl_append]
      exact noted_note ih path
  rw [noted.found]
  by_cases empty : paths = []
  · rw [empty]
    rfl
  · obtain ⟨longestPath, member, same⟩ := noted.reached empty
    have bound : ∀ path ∈ paths, path.length ≤ longestPath.length := fun path path_mem => by
      have below := noted.bound path path_mem
      omega
    rw [longest_eq bound ⟨longestPath, member, rfl⟩]
    refine List.filter_congr fun path _ => ?_
    rw [← same]
    exact decide_eq_decide.mpr Int.natCast_inj

section
variable (owners : FieldOwners) (field : Text)

def lacks : Json → Bool
  | .obj entries => lacksField owners field entries
  | _ => false

/-- The paths among parts of the objects that lack the field and could require it. -/
def lackingAmong (parts : List (List Step × Json)) : List (List Step) :=
  (parts.filter fun part => lacks owners field part.2).map Prod.fst

def lackingPlaces (part : Json) : List (List Step) := lackingAmong owners field part.parts

variable {owners field}

theorem mem_lackingPlaces {part : Json} (distinct : part.Distinct) {place : List Step} :
    place ∈ lackingPlaces owners field part ↔
      ∃ entries, part.follow place = some (.obj entries) ∧ lacksField owners field entries = true := by
  unfold lackingPlaces lackingAmong
  constructor
  · intro member
    obtain ⟨⟨path, found⟩, there, rfl⟩ := List.mem_map.mp member
    obtain ⟨inside, lacking⟩ := List.mem_filter.mp there
    cases found with
    | obj entries => exact ⟨entries, (Json.mem_parts distinct).mp inside, lacking⟩
    | _ => cases lacking
  · rintro ⟨entries, found, lacking⟩
    exact List.mem_map.mpr ⟨(place, .obj entries), List.mem_filter.mpr ⟨(Json.mem_parts distinct).mpr found, lacking⟩, rfl⟩

theorem lackingAmong_append (front back : List (List Step × Json)) :
    lackingAmong owners field (front ++ back) = lackingAmong owners field front ++ lackingAmong owners field back := by
  unfold lackingAmong
  rw [List.filter_append, List.map_append]

theorem lackingAmong_stepped (step : Step) (inner : List (List Step × Json)) :
    lackingAmong owners field (inner.map fun part => (step :: part.1, part.2)) =
      (lackingAmong owners field inner).map (step :: ·) := by
  unfold lackingAmong
  rw [List.filter_map, List.map_map, List.map_map]
  rfl

/-- The places below a path, as they are noted. -/
def below (path : List Units) (places : List (List Step)) : List (List Units) :=
  places.map fun place => path ++ place.map stepSegment

theorem below_stepped (path : List Units) (step : Step) (places : List (List Step)) :
    below path (places.map (step :: ·)) = below (path ++ [stepSegment step]) places := by
  unfold below
  rw [List.map_map]
  refine List.map_congr_left fun place _ => ?_
  simp

theorem below_append (path : List Units) (front back : List (List Step)) :
    below path (front ++ back) = below path front ++ below path back := List.map_append

mutual
/-- A visit notes the places that lack the field, in the order of the document. -/
theorem visit_eq (path : List Units) : ∀ (value : Json) (state : Deepest),
    visit owners field path value state = (below path (lackingPlaces owners field value)).foldl Deepest.note state
  | .null, _ | .bool _, _ | .num _, _ | .str _, _ => by
    rw [lackingPlaces, Json.parts, visit]
    · rfl
    all_goals simp
  | .arr items, state => by
    rw [visit, visitItems_eq path 0 items state]
    rfl
  | .obj entries, state => by
    rw [visit, visitEntries_eq path entries]
    unfold lackingPlaces lackingAmong
    rw [Json.parts, List.filter_cons]
    split
    next lacking =>
      have here : lacks owners field (.obj entries) = true := lacking
      rw [if_pos here, List.map_cons]
      unfold below
      rw [List.map_cons, List.foldl_cons, List.map_nil, List.append_nil]
    next other =>
      have here : ¬lacks owners field (.obj entries) = true := other
      rw [if_neg here]
theorem visitItems_eq (path : List Units) (index : Nat) : ∀ (items : List Json) (state : Deepest),
    visitItems owners field path index items state =
      (below path (lackingAmong owners field (Json.partsOfItems index items))).foldl Deepest.note state
  | [], _ => rfl
  | item :: rest, state => by
    rw [visitItems, visit_eq _ item, visitItems_eq path (index + 1) rest, Json.partsOfItems, lackingAmong_append,
      lackingAmong_stepped, below_append, below_stepped, List.foldl_append, stepSegment, lackingPlaces]
theorem visitEntries_eq (path : List Units) : ∀ (entries : List (Text × Json)) (state : Deepest),
    visitEntries owners field path entries state =
      (below path (lackingAmong owners field (Json.partsOfEntries entries))).foldl Deepest.note state
  | [], _ => rfl
  | (name, value) :: rest, state => by
    rw [visitEntries, visit_eq _ value, visitEntries_eq path rest, Json.partsOfEntries, lackingAmong_append,
      lackingAmong_stepped, below_append, below_stepped, List.foldl_append, stepSegment, lackingPlaces]
end

theorem longest_map_segments (places : List (List Step)) :
    longest (places.map (List.map stepSegment)) = (longest places).map (List.map stepSegment) := by
  unfold longest
  rw [List.filter_map]
  congr 1
  refine List.filter_congr fun place _ => ?_
  simp [List.all_map, Function.comp_def]

theorem deepestPathsMissingField_eq (part : Json) (limit : Nat) :
    deepestPathsMissingField owners field (some part) limit =
      ((longest (lackingPlaces owners field part)).take limit).map (List.map stepSegment) := by
  unfold deepestPathsMissingField
  dsimp only
  rw [visit_eq, found_foldl_note, List.map_take, ← longest_map_segments]
  rfl

end

/-! ### What is read of a message -/

theorem firstMatch_append {α : Type} {read : Text → Option (α × Text)} {before rest after : Text} {a : α}
    (skipped : ∀ back, back <:+ before → back ≠ [] → read (back ++ rest) = none) (found : read rest = some (a, after)) :
    firstMatch read (before ++ rest) = some (before, a, after) := by
  induction before with
  | nil =>
    cases rest with
    | nil => rw [List.append_nil, firstMatch, found, Option.map_some]
    | cons c rest => rw [List.nil_append, firstMatch, found]
  | cons c before ih =>
    have later := ih fun back suffix some_ => skipped back (suffix.trans (List.suffix_cons c before)) some_
    have here := skipped _ (List.suffix_refl _) (List.cons_ne_nil c before)
    rw [List.cons_append] at here ⊢
    rw [firstMatch, here, later, Option.map_some]

/-- A text without a separator does not reach over it. -/
theorem prefix_append_cons {sep : Char} {pat a b : Text} (absent : sep ∉ pat) : pat <+: a ++ sep :: b ↔ pat <+: a := by
  induction a generalizing pat with
  | nil =>
    cases pat with
    | nil => exact iff_of_true List.nil_prefix List.nil_prefix
    | cons c pat =>
      refine iff_of_false (fun starts => absent ?_) (fun none => List.cons_ne_nil _ _ (List.prefix_nil.mp none))
      rw [(List.cons_prefix_cons.mp starts).1]
      exact List.mem_cons_self
  | cons d a ih =>
    cases pat with
    | nil => exact iff_of_true List.nil_prefix List.nil_prefix
    | cons c pat =>
      rw [List.cons_append, List.cons_prefix_cons, List.cons_prefix_cons,
        ih fun member => absent (List.mem_cons_of_mem _ member)]

theorem infix_append_cons {sep : Char} {pat a b : Text} (absent : sep ∉ pat) :
    pat <:+: a ++ sep :: b ↔ pat <:+: a ∨ pat <:+: b := by
  induction a with
  | nil =>
    rw [List.nil_append, List.infix_cons_iff, ← List.nil_append (sep :: b), prefix_append_cons absent, List.prefix_nil,
      List.infix_nil]
  | cons c a ih =>
    rw [List.cons_append, List.infix_cons_iff, List.infix_cons_iff, ih, ← List.cons_append, prefix_append_cons absent,
      or_assoc]

theorem splitAtText_behind {first sep : Char} {pat a : Text} (absent : sep ∉ first :: pat) (none : ¬first :: pat <:+: a)
    (b : Text) : splitAtText (first :: pat) (a ++ sep :: (first :: pat ++ b)) = some (a ++ [sep], b) := by
  induction a with
  | nil =>
    have apart : first ∉ [sep] := fun same => absent (List.mem_singleton.mp same ▸ List.mem_cons_self)
    exact splitAtText_append apart
  | cons c a ih =>
    rw [List.infix_cons_iff, not_or] at none
    rw [List.cons_append, splitAtText, ih none.2, if_neg, Option.map_some]
    · rfl
    · rw [← List.cons_append, prefix_append_cons absent]
      exact none.1

theorem readNumber_ofNat (n : Nat) {rest : Text} (stops : ∀ c ∈ rest.head?, c.isDigit = false) :
    readNumber (ofNat n ++ rest) = some (n, rest) := by
  have digits : (ofNat n ++ rest).takeWhile Char.isDigit = ofNat n := by
    rw [List.takeWhile_append_of_pos fun c => isDigit_of_mem_ofNat]
    cases rest with
    | nil => exact List.append_nil _
    | cons c rest =>
      rw [List.takeWhile_cons_of_neg (by rw [stops c rfl]; exact Bool.false_ne_true)]
      exact List.append_nil _
  have some_ : (ofNat n).isEmpty = false := List.isEmpty_eq_false_iff.mpr Nat.toDigits_ne_nil
  unfold readNumber
  dsimp only
  rw [digits, if_neg (by rw [some_]; exact Bool.false_ne_true), List.drop_left]
  exact congrArg (fun number => some (number, rest)) Nat.ofDigitChars_ten_toDigits

/-- A detail that reads like neither a location nor an excerpt, without blanks around it. -/
structure PlainDetail (detail : Text) : Prop where
  unlocated : ¬("at line" : Text) <:+: detail
  unquoted : ¬("At: ..." : Text) <:+: detail
  first : ∀ c ∈ detail.head?, isJsSpace c = false
  last : ∀ c ∈ detail.getLast?, isJsSpace c = false
  filled : detail ≠ []

section
variable {detail : Text}

def errorLabel : Text := "Json deserialize error"

def locatedText (column : Nat) : Text := "at line 1 column " ++ ofNat column

theorem not_infix_front (plain : PlainDetail detail) :
    ¬("at line" : Text) <:+: errorLabel ++ ':' :: ' ' :: (detail ++ [' ']) := by
  rw [infix_append_cons (by decide), List.infix_cons_iff, List.infix_concat_iff]
  rintro (label | blank | ends | inside)
  · exact absurd label (by decide)
  · exact absurd (List.cons_prefix_cons.mp blank).1 (by decide)
  · have last := ends.getLast (by decide)
    rw [List.getLast_append_singleton] at last
    exact absurd last (by decide)
  · exact plain.unlocated inside

/-- Where the detail ends, the location is not read too early. -/
theorem readLocation_early (plain : PlainDetail detail) (column : Nat) {back : Text}
    (suffix : back <:+ errorLabel ++ ':' :: ' ' :: (detail ++ [' '])) (some_ : back ≠ []) :
    readLocation (back ++ locatedText column) = none := by
  have away : ¬("at line " : Text) <+: back ++ locatedText column := by
    intro starts
    have known : back ++ ("at line " : Text) <+: back ++ locatedText column :=
      (List.prefix_append_right_inj _).mpr ⟨"1 column " ++ ofNat column, rfl⟩
    have start : ("at line " : Text) <+: back ++ ("at line " : Text) :=
      List.prefix_of_prefix_length_le starts known (by simp)
    by_cases long : ("at line" : Text).length ≤ back.length
    · have shorter : ("at line" : Text) <+: back ++ ("at line " : Text) := List.IsPrefix.trans (by decide) start
      have within := List.prefix_of_prefix_length_le shorter (List.prefix_append ..) long
      exact not_infix_front plain (within.isInfix.trans suffix.isInfix)
    · have part : back = ("at line " : Text).take back.length :=
        List.prefix_iff_eq_take.mp (List.prefix_of_prefix_length_le (List.prefix_append ..) start (by
          have count : ("at line " : Text).length = ("at line" : Text).length + 1 := rfl
          omega))
      have blank : back.getLast? = some ' ' := by
        rw [List.getLast?_eq_some_getLast some_, suffix.getLast some_, List.getLast_append_of_ne_nil _ (by simp)]
        simp
      have apart : ∀ n < ("at line" : Text).length, (("at line " : Text).take n).getLast? = some ' ' →
          ¬("at line " : Text) <+: ("at line " : Text).take n ++ ("at line " : Text) := by decide
      rw [part] at blank start
      exact apart back.length (by omega) blank start
  unfold readLocation stripPrefix
  rw [if_neg away]
  rfl

theorem readLocation_locatedText (column : Nat) : readLocation (locatedText column) = some ((1, column), []) := by
  have label : locatedText column = ("at line " : Text) ++ (ofNat 1 ++ ((" column " : Text) ++ ofNat column)) := rfl
  have line := @readNumber_ofNat 1 ((" column " : Text) ++ ofNat column) fun c head => by
    rw [← Option.some.inj head]
    decide
  have number := @readNumber_ofNat column [] fun c head => by cases head
  rw [List.append_nil] at number
  unfold readLocation
  rw [label, stripPrefix_append, Option.bind_some, line, Option.bind_some, stripPrefix_append, Option.bind_some, number]
  rfl

/-- The message that the parser's error is shown in. -/
def errorText (detail : Text) (column : Nat) : Text :=
  (errorLabel ++ ':' :: ' ' :: (detail ++ [' '])) ++ locatedText column

theorem firstMatch_errorText (plain : PlainDetail detail) (column : Nat) : firstMatch readLocation (errorText detail column) =
    some (errorLabel ++ ':' :: ' ' :: (detail ++ [' ']), (1, column), []) :=
  firstMatch_append (fun _ suffix some_ => readLocation_early plain column suffix some_) (readLocation_locatedText column)

theorem not_infix_errorText (plain : PlainDetail detail) (column : Nat) :
    ¬("At: ..." : Text) <:+: errorText detail column := by
  have text : errorText detail column = ("Json deserialize erro" : Text) ++
      'r' :: (':' :: ' ' :: (detail ++ [' ', 'a', 't', ' ']) ++ 'l' :: (("ine 1 column " : Text) ++ ofNat column)) := by
    have label : errorLabel = ("Json deserialize erro" : Text) ++ ['r'] := by decide
    have located : ("at line 1 column " : Text) = ['a', 't', ' '] ++ 'l' :: ("ine 1 column " : Text) := by decide
    unfold errorText locatedText
    rw [label, located]
    simp only [List.append_assoc, List.cons_append, List.nil_append]
  have ending : detail ++ [' ', 'a', 't', ' '] = detail ++ [' '] ++ ['a'] ++ ['t'] ++ [' '] := by simp
  rw [text, infix_append_cons (by decide), infix_append_cons (by decide), List.infix_cons_iff, List.infix_cons_iff, ending]
  simp only [List.infix_concat_iff]
  have last : ∀ {t : Text} {c : Char}, ("At: ..." : Text) <:+ t ++ [c] → '.' = c := fun ends => by
    have same := ends.getLast (by decide)
    rwa [List.getLast_append_singleton] at same
  rintro (label | (colon | blank | ends | ends | ends | ends | inside) | number)
  · exact absurd label (by decide)
  · exact absurd (List.cons_prefix_cons.mp colon).1 (by decide)
  · exact absurd (List.cons_prefix_cons.mp blank).1 (by decide)
  · exact absurd (last ends) (by decide)
  · exact absurd (last ends) (by decide)
  · exact absurd (last ends) (by decide)
  · exact absurd (last ends) (by decide)
  · exact plain.unquoted inside
  · have letter : 'A' ∈ ("ine 1 column " : Text) ++ ofNat column := number.subset (by decide)
    rcases List.mem_append.mp letter with fixed | digit
    · exact absurd fixed (by decide)
    · exact absurd (isDigit_of_mem_ofNat digit) (by decide)

theorem last_errorText (column : Nat) : ∀ c ∈ (errorText detail column).getLast?, isJsSpace c = false := by
  intro c last
  have digits : ofNat column ≠ [] := Nat.toDigits_ne_nil
  unfold errorText locatedText at last
  rw [← List.append_assoc, List.getLast?_append_of_ne_nil _ digits] at last
  exact isJsSpace_digit (isDigit_of_mem_ofNat (List.mem_of_getLast? last))

theorem rdropWhile_kept {p : Char → Bool} {text : Text} (last : ∀ c ∈ text.getLast?, p c = false) :
    text.rdropWhile p = text := by
  refine List.rdropWhile_eq_self_iff.mpr fun some_ => ?_
  rw [last _ (List.getLast?_eq_some_getLast some_)]
  exact Bool.false_ne_true

theorem message_eq (plain : PlainDetail detail) (column : Nat) (excerpt : Text) :
    jsTrim (dropPayloadExcerpt (errorText detail column ++ '\n' :: (("At: ..." : Text) ++ excerpt))) =
      errorText detail column := by
  have cut : splitAtText "At: ..." (errorText detail column ++ '\n' :: (("At: ..." : Text) ++ excerpt)) =
      some (errorText detail column ++ ['\n'], excerpt) :=
    splitAtText_behind (by decide) (not_infix_errorText plain column) excerpt
  unfold dropPayloadExcerpt
  rw [cut]
  dsimp only
  rw [List.rdropWhile_concat_pos _ _ _ (by decide), rdropWhile_kept (last_errorText column)]
  refine jsTrim_eq_self (fun c head => ?_) (last_errorText column)
  rw [← Option.some.inj head]
  decide

theorem dropDeserializePrefix_label (rest : Text) :
    dropDeserializePrefix (errorLabel ++ ':' :: rest) = rest.dropWhile isJsSpace := by
  have label : ("Json deserialize error:" : Text) = errorLabel ++ [':'] := by decide
  have text : errorLabel ++ ':' :: rest = ("Json deserialize error:" : Text) ++ rest := by
    rw [label, List.append_assoc]
    rfl
  have length : ("json deserialize error:" : Text).length = ("Json deserialize error:" : Text).length := by decide
  unfold dropDeserializePrefix
  dsimp only
  rw [text, length, List.take_left, List.drop_left, if_pos (by decide)]

theorem detail_eq (plain : PlainDetail detail) :
    jsTrim (dropDeserializePrefix ((errorLabel ++ ':' :: ' ' :: (detail ++ [' '])).rdropWhile isJsSpace ++ [])) = detail := by
  have text : errorLabel ++ ':' :: ' ' :: (detail ++ [' ']) = (errorLabel ++ ':' :: ' ' :: detail) ++ [' '] :=
    (List.append_assoc errorLabel (':' :: ' ' :: detail) [' ']).symm
  have last : ∀ c ∈ (errorLabel ++ ':' :: ' ' :: detail).getLast?, isJsSpace c = false := by
    have same : errorLabel ++ ':' :: ' ' :: detail = (errorLabel ++ [':', ' ']) ++ detail :=
      (List.append_assoc errorLabel [':', ' '] detail).symm
    rw [same, List.getLast?_append_of_ne_nil _ plain.filled]
    exact plain.last
  have dropped := dropDeserializePrefix_label (' ' :: detail)
  rw [List.dropWhile_cons_of_pos (by decide)] at dropped
  rw [text, List.rdropWhile_concat_pos _ _ _ (by decide), rdropWhile_kept last, List.append_nil, dropped]
  have start : detail.dropWhile isJsSpace = detail := by
    cases detail with
    | nil => rfl
    | cons c rest => exact List.dropWhile_cons_of_neg (by rw [plain.first c rfl]; exact Bool.false_ne_true)
  rw [start]
  exact jsTrim_eq_self plain.first plain.last

end

/-! ### What the schema says -/

/-- By the schema, a block could be one that requires the field, or nothing is required at all. -/
def Requires (schema : Json) (field : Text) (record : Record) : Prop :=
  (∃ definition ∈ definitionsOf schema, field ∈ (requiredOf definition).1 ∧ record ≠ [] ∧
    ∀ entry ∈ record, entry.1 ∈ (requiredOf definition).2) ∨
  ∀ definition ∈ definitionsOf schema, (requiredOf definition).1 = []

theorem mem_requirements {schema : Json} {field : Text} {propertyNames : List Text} :
    (field, propertyNames) ∈ requirements schema ↔
      ∃ definition ∈ definitionsOf schema, field ∈ (requiredOf definition).1 ∧ (requiredOf definition).2 = propertyNames := by
  simp only [requirements, List.mem_flatMap, List.mem_map, Prod.mk.injEq]
  constructor
  · rintro ⟨definition, defined, other, required, rfl, rfl⟩
    exact ⟨definition, defined, required, rfl⟩
  · rintro ⟨definition, defined, required, rfl⟩
    exact ⟨definition, defined, field, required, rfl, rfl⟩

theorem requirements_eq_nil {schema : Json} :
    requirements schema = [] ↔ ∀ definition ∈ definitionsOf schema, (requiredOf definition).1 = [] := by
  simp [requirements, List.flatMap_eq_nil_iff]

theorem foldl_pushSecond {α : Type*} (items : List (Text × α)) (start : List α) :
    items.foldl (fun entries item => entries ++ [item.2]) start = start ++ items.map Prod.snd := by
  induction items generalizing start with
  | nil => simp
  | cons item items ih => rw [List.foldl_cons, ih, List.map_cons, List.append_assoc, List.singleton_append]

theorem holds_register (schema : Json) :
    Grouping.Holds Prod.fst (fun _ => []) (fun entries requirement => entries ++ [requirement.2]) (registerConfigSchema schema)
      (requirements schema) := Grouping.holds_fileAll ..

/-- The owners of a field are the property names of the definitions that require it. -/
theorem mem_owners {schema : Json} {field : Text} {owners : List (List Text)}
    (found : (registerConfigSchema schema).lookup field = some owners) (propertyNames : List Text) :
    propertyNames ∈ owners ↔ (field, propertyNames) ∈ requirements schema := by
  obtain ⟨first, first_mem, first_key, contents⟩ := (holds_register schema).held _ (Assoc.mem_of_lookup found)
  rw [foldl_pushSecond, List.nil_append] at contents
  dsimp only at contents
  rw [contents, List.mem_map]
  unfold Grouping.filed
  constructor
  · rintro ⟨⟨other, names⟩, member, rfl⟩
    obtain ⟨there, same⟩ := List.mem_filter.mp member
    obtain rfl : other = field := of_decide_eq_true same
    exact there
  · intro there
    exact ⟨_, List.mem_filter.mpr ⟨there, decide_eq_true rfl⟩, rfl⟩

theorem couldRequireField_register {schema : Json} {record : Record} {field : Text} :
    couldRequireField (registerConfigSchema schema) record field = true ↔ Requires schema field record := by
  have holds := holds_register schema
  unfold couldRequireField Requires
  rw [← requirements_eq_nil]
  cases found : (registerConfigSchema schema).lookup field with
  | none =>
    have unowned : ∀ names, (field, names) ∉ requirements schema := fun names there => by
      obtain ⟨owners, keyed⟩ := Assoc.mem_keys.mp ((holds.keys field).mpr (List.mem_map_of_mem there))
      rw [found] at keyed
      cases keyed
    have empty : registerConfigSchema schema = [] ↔ requirements schema = [] := by
      constructor
      · intro none
        refine List.eq_nil_iff_forall_not_mem.mpr fun requirement there => ?_
        have keyed := (holds.keys requirement.1).mpr (List.mem_map_of_mem there)
        rw [none] at keyed
        exact List.not_mem_nil keyed
      · intro none
        unfold registerConfigSchema
        rw [none]
        rfl
    dsimp only
    rw [List.isEmpty_iff, empty]
    refine ⟨.inr, fun either => either.resolve_left ?_⟩
    rintro ⟨definition, defined, required, -⟩
    exact unowned _ (mem_requirements.mpr ⟨definition, defined, required, rfl⟩)
  | some owners =>
    have some_ : requirements schema ≠ [] := fun none => by
      have keyed := (holds.keys field).mp (List.mem_map_of_mem (Assoc.mem_of_lookup found))
      rw [none] at keyed
      exact List.not_mem_nil keyed
    dsimp only
    rw [or_iff_left some_, Bool.and_eq_true, Bool.not_eq_true', List.isEmpty_eq_false_iff, List.any_eq_true]
    constructor
    · rintro ⟨filled, names, owner, within⟩
      obtain ⟨definition, defined, required, rfl⟩ := mem_requirements.mp ((mem_owners found names).mp owner)
      exact ⟨definition, defined, required, filled, fun entry member =>
        of_decide_eq_true (List.all_eq_true.mp within entry member)⟩
    · rintro ⟨definition, defined, required, filled, within⟩
      refine ⟨filled, _, (mem_owners found _).mpr (mem_requirements.mpr ⟨definition, defined, required, rfl⟩), ?_⟩
      exact List.all_eq_true.mpr fun entry member => decide_eq_true (within entry member)

/-! ### The names of places -/

/-- What a listed entry is called, by its name, its id or its number. -/
def entryTitle (config : Json) (listed : Text) (position : Nat) : Units :=
  let singular : Text := if listed = "consumers" then "consumer" else "publisher"
  let label := entryLabel (config.follow [.key listed, .index position])
  if label.isEmpty then ofText (singular ++ " " ++ ofNat (position + 1))
  else ofText singular ++ ofText " “" ++ ofText label ++ ofText "”"

/-- A place, named by the entry of the configuration that it is in. -/
def placeName (config : Json) (place : List Step) : Units :=
  match place with
  | [] => ofText "the configuration"
  | [_] => formatSegments (place.map stepSegment)
  | .key listed :: step :: rest =>
    if listed = "consumers" ∨ listed = "publishers" then
      match step with
      | .index position => formatSegments (entryTitle config listed position :: rest.map stepSegment)
      | .key _ => formatSegments (place.map stepSegment)
    else if listed = "routes" ∧ stepSegment step ≠ [] then
      formatSegments ((ofText "route" ++ ofText " “" ++ stepSegment step ++ ofText "”") :: rest.map stepSegment)
    else formatSegments (place.map stepSegment)
  | .index _ :: _ :: _ => formatSegments (place.map stepSegment)

section
variable {numberKey : Units → Units} {config : Json}

theorem named_filled {name : Units} (filled : name ≠ []) (singular fallback : Units) (rest : List Units) :
    named singular name fallback rest = formatSegments ((singular ++ ofText " “" ++ name ++ ofText "”") :: rest) := by
  unfold named
  rw [if_neg (by simpa using filled)]

theorem readIndex_indexSegment (i : Nat) : readIndex (indexSegment i) = some i := by
  have digits : ∀ c ∈ ofNat i, c.isDigit = true := fun _ => isDigit_of_mem_ofNat
  have units : ofText (ofNat i) = (ofNat i).map Char.toNat := by
    unfold ofText
    rw [List.map_eq_flatMap]
    exact List.flatMap_congr fun c member =>
      ofChar_ascii (isNumberChar_ascii (by rw [isNumberChar, digits c member, Bool.true_or]))
  have back : (ofText (ofNat i)).map Char.ofNat = ofNat i := by
    have same : Char.ofNat ∘ Char.toNat = id := funext Char.ofNat_toNat
    rw [units, List.map_map, same, List.map_id]
  have some_ : ofText (ofNat i) ≠ [] := by
    rw [units]
    exact fun none => Nat.toDigits_ne_nil (List.map_eq_nil_iff.mp none)
  have numeric : (ofText (ofNat i)).all (fun u => '0'.toNat ≤ u && u ≤ '9'.toNat) = true := by
    rw [units, List.all_map, List.all_eq_true]
    intro c member
    have digit := isDigit_iff.mp (digits c member)
    exact Bool.and_eq_true_iff.mpr ⟨decide_eq_true digit.1, decide_eq_true digit.2⟩
  have inner : ((indexSegment i).drop 1).dropLast = ofText (ofNat i) := List.dropLast_concat
  unfold readIndex
  dsimp only
  rw [inner, if_pos ⟨rfl, List.getLast?_concat .., some_, numeric⟩, back]
  exact congrArg some Nat.ofDigitChars_ten_toDigits

/-- A place is read by its segments. -/
theorem valueAtPath_follow (numbers : ∀ i < 2 ^ 32, numberKey (ofText (ofNat i)) = ofText (ofNat i)) {path : List Step} :
    ∀ {config part : Json}, (∀ path items, config.follow path = some (.arr items) → items.length < 2 ^ 32) →
      (∀ name, .key name ∈ path → name.head? ≠ some '[') → config.follow path = some part →
        valueAtPath numberKey config (path.map stepSegment) = some part := by
  induction path with
  | nil => exact fun _ _ found => found
  | cons step rest ih =>
    intro config part arrays keys found
    have later : ∀ name, .key name ∈ rest → name.head? ≠ some '[' := fun name member =>
      keys name (List.mem_cons_of_mem _ member)
    cases step with
    | key name =>
      cases config with
      | obj entries =>
        rw [Json.follow_key_obj] at found
        obtain ⟨inner, there, deeper⟩ := Option.bind_eq_some_iff.mp found
        have read : property (segmentKey numberKey (ofText name)) (.obj entries) = some inner := by
          rw [segmentKey_name (keys name List.mem_cons_self), property_name, there]
        rw [List.map_cons, stepSegment, valueAtPath_cons read]
        refine ih (fun path items at_ => arrays (.key name :: path) items ?_) later deeper
        rw [Json.follow_key_obj, there, Option.bind_some, at_]
      | _ => cases found
    | index i =>
      cases config with
      | arr items =>
        rw [Json.follow_index_arr] at found
        obtain ⟨inner, there, deeper⟩ := Option.bind_eq_some_iff.mp found
        obtain ⟨within, _⟩ := List.getElem?_eq_some_iff.mp there
        have count := arrays [] items rfl
        have read : property (segmentKey numberKey (indexSegment i)) (.arr items) = some inner := by
          rw [segmentKey_index (numbers i (by omega)), property_index within, there]
        rw [List.map_cons, stepSegment, valueAtPath_cons read]
        refine ih (fun path items at_ => arrays (.index i :: path) items ?_) later deeper
        rw [Json.follow_index_arr, there, Option.bind_some, at_]
      | _ => cases found

theorem ne_indexSegment {name : Text} (plain : name.head? ≠ some '[') (i : Nat) : indexSegment i ≠ ofText name := by
  intro same
  refine plain ((head_ofText name).mp ?_)
  rw [← same]
  rfl

def ListsEntries (config : Json) : Prop :=
  ∀ listed : Text, listed = "consumers" ∨ listed = "publishers" → ∀ entries, config.follow [.key listed] ≠ some (.obj entries)

theorem ofText_eq_nil {text : Text} : ofText text = [] ↔ text = [] :=
  ⟨fun none => ofText_injective (none.trans rfl), fun none => by rw [none]; rfl⟩

/-- A listed entry is called by its name, its id or its number. -/
theorem described_entry (numbers : ∀ i < 2 ^ 32, numberKey (ofText (ofNat i)) = ofText (ofNat i))
    (arrays : ∀ path items, config.follow path = some (.arr items) → items.length < 2 ^ 32) {listed : Text}
    (section_ : listed = "consumers" ∨ listed = "publishers") {i : Nat} {rest : List Step} {part : Json}
    (found : config.follow (.key listed :: .index i :: rest) = some part) (more : List Units) :
    named (ofText (if ofText listed = ofText "consumers" then ("consumer" : Text) else "publisher"))
        (ofText (entryLabel (valueAtPath numberKey config [ofText listed, indexSegment i])))
        (ofText ((if ofText listed = ofText "consumers" then ("consumer" : Text) else "publisher") ++ " " ++ ofNat (i + 1)))
        more =
      formatSegments (entryTitle config listed i :: more) := by
  have split := (Copy.follow_append [.key listed, .index i] rest config).symm.trans found
  obtain ⟨inner, there, _⟩ := Option.bind_eq_some_iff.mp split
  have keys : ∀ name, .key name ∈ [Step.key listed, .index i] → name.head? ≠ some '[' := by
    intro name member
    rcases List.mem_cons.mp member with same | other
    · obtain rfl := Step.key.inj same
      rcases section_ with rfl | rfl <;> decide
    · cases List.mem_singleton.mp other
  have read : valueAtPath numberKey config [ofText listed, indexSegment i] = some inner :=
    valueAtPath_follow numbers arrays keys there
  have same : ofText listed = ofText "consumers" ↔ listed = "consumers" := ⟨ofText_injective, congrArg ofText⟩
  unfold named entryTitle
  rw [read, there]
  simp only [same, List.isEmpty_iff, ofText_eq_nil]

/-- The page names a place as it is. -/
theorem describeLocation_place (numbers : ∀ i < 2 ^ 32, numberKey (ofText (ofNat i)) = ofText (ofNat i))
    (arrays : ∀ path items, config.follow path = some (.arr items) → items.length < 2 ^ 32) (lists : ListsEntries config)
    {place : List Step} {part : Json} (found : config.follow place = some part) :
    describeLocation numberKey (place.map stepSegment) config = placeName config place := by
  have same : ∀ {a b : Text}, ofText a = ofText b ↔ a = b := ⟨ofText_injective, congrArg ofText⟩
  unfold placeName
  split
  · rfl
  · rfl
  next listed step rest =>
    have key : stepSegment (.key listed) = ofText listed := rfl
    rw [List.map_cons, List.map_cons, describeLocation, key]
    simp only [same]
    by_cases section_ : listed = "consumers" ∨ listed = "publishers"
    · rw [if_pos section_, if_pos section_]
      cases step with
      | index i =>
        have described := described_entry numbers arrays section_ found (rest.map stepSegment)
        simp only [same] at described
        have index : stepSegment (.index i) = indexSegment i := rfl
        rw [index, readIndex_indexSegment]
        exact described
      | key name =>
        have split := (Copy.follow_append [.key listed] (.key name :: rest) config).symm.trans found
        obtain ⟨inner, there, deeper⟩ := Option.bind_eq_some_iff.mp split
        cases inner with
        | obj entries => exact absurd there (lists listed section_ entries)
        | _ => cases deeper
    · rw [if_neg section_, if_neg section_]
      dsimp only
      by_cases route : listed = "routes" ∧ stepSegment step ≠ []
      · rw [if_pos route, if_pos route, named_filled route.2]
      · rw [if_neg route, if_neg route]
  next i step rest =>
    have index : stepSegment (.index i) = indexSegment i := rfl
    have consumers : indexSegment i ≠ ofText "consumers" := ne_indexSegment (by decide) i
    have publishers : indexSegment i ≠ ofText "publishers" := ne_indexSegment (by decide) i
    have routes : indexSegment i ≠ ofText "routes" := ne_indexSegment (by decide) i
    rw [List.map_cons, List.map_cons, describeLocation, index, if_neg (not_or.mpr ⟨consumers, publishers⟩)]
    dsimp only
    rw [if_neg fun route => routes route.1]

end

/-! ### The explanation -/

def missingFieldOf (detail : Text) : Option Text := (firstMatch readMissingField detail).map fun found => found.2.1

/-- The places that an error at the end of a part is about: the part, or the first two of the deepest objects in it that
lack the field and could require it. -/
def blamedPlaces (schema : Json) (detail : Text) (path : List Step) (part : Json) : List (List Step) :=
  match missingFieldOf detail with
  | none => [path]
  | some field =>
    match (longest (lackingPlaces (registerConfigSchema schema) field part)).take 2 with
    | [] => [path]
    | places => places.map (path ++ ·)

theorem missingFieldOf_field {field : Text} (filled : field ≠ []) (plain : '\x60' ∉ field) (rest : Text) :
    missingFieldOf (("missing field \x60" : Text) ++ (field ++ '\x60' :: rest)) = some field := by
  have read : readMissingField (("missing field \x60" : Text) ++ (field ++ '\x60' :: rest)) = some (field, rest) := by
    unfold readMissingField
    rw [stripPrefix_append, Option.bind_some, splitOnce_append plain, Option.bind_some, if_neg (by simpa using filled)]
  have found := @firstMatch_append _ readMissingField [] _ rest field (fun back suffix some_ =>
    absurd (List.suffix_nil.mp suffix) some_) read
  unfold missingFieldOf
  rw [List.nil_append] at found
  rw [found]
  rfl

theorem deserializeErrorMessage_eq (lossy : List UInt8 → Text) (body detail : Text) (column : Nat) :
    ∃ excerpt, deserializeErrorMessage lossy body { detail, line := 1, column } =
      errorText detail column ++ '\n' :: (("At: ..." : Text) ++ excerpt) := by
  refine ⟨lossy (((body.flatMap String.utf8EncodeChar).take (min (column - 1 + 30)
    (body.flatMap String.utf8EncodeChar).length)).drop (column - 1 - 30)) ++ "...", ?_⟩
  have number : ofNat 1 = ['1'] := rfl
  have label : ("Json deserialize error: " : Text) = errorLabel ++ [':', ' '] := by decide
  have location : (" at line " : Text) = ' ' :: ("at line " : Text) := by decide
  have located : ("at line 1 column " : Text) = ("at line " : Text) ++ '1' :: (" column " : Text) := by decide
  have opening : ("\nAt: ..." : Text) = '\n' :: ("At: ..." : Text) := by decide
  unfold deserializeErrorMessage ParseError.shown errorText locatedText
  dsimp only
  rw [if_pos rfl, if_neg Nat.one_ne_zero, number, label, location, located, opening]
  simp only [List.append_assoc, List.cons_append, List.nil_append]

/-- The places that are blamed can be read. -/
theorem follow_blamed {schema value part : Json} {detail : Text} {path place : List Step}
    (found : value.follow path = some part) (distinct : part.Distinct) (member : place ∈ blamedPlaces schema detail path part) :
    ∃ inner, value.follow place = some inner := by
  unfold blamedPlaces at member
  split at member
  next => exact ⟨part, by rw [List.mem_singleton.mp member, found]⟩
  next field _ =>
    split at member
    next => exact ⟨part, by rw [List.mem_singleton.mp member, found]⟩
    next places _ _ =>
      obtain ⟨deeper, deeper_mem, rfl⟩ := List.mem_map.mp member
      have lacking := (mem_longest.mp (List.mem_of_mem_take deeper_mem)).1
      obtain ⟨entries, there, _⟩ := (mem_lackingPlaces distinct).mp lacking
      exact ⟨.obj entries, by rw [Copy.follow_append, found, Option.bind_some, there]⟩

theorem distinct_inside {value part : Json} {path : List Step} {before after : Text}
    (inside : Json.Inside value path before part after) (distinct : value.Distinct) : part.Distinct := by
  induction inside with
  | here value => exact distinct
  | item _ ih => exact ih (Json.distinct_of_item distinct (List.mem_append_right _ List.mem_cons_self))
  | entry _ ih => exact ih (Json.distinct_of_entry distinct.2 (List.mem_append_right _ List.mem_cons_self))

/-- The segments that the page describes are those of the places. -/
theorem explained_paths {schema part : Json} {detail : Text} {path : List Step} :
    (let paths := match firstMatch readMissingField detail with
      | some (_, field, _) =>
        (deepestPathsMissingField (registerConfigSchema schema) field (some part) 2).map (path.map stepSegment ++ ·)
      | none => [path.map stepSegment]
     if paths.isEmpty then [path.map stepSegment] else paths) =
      (blamedPlaces schema detail path part).map (List.map stepSegment) := by
  unfold blamedPlaces missingFieldOf
  cases firstMatch readMissingField detail with
  | none => rfl
  | some found =>
    obtain ⟨_, field, _⟩ := found
    dsimp only [Option.map_some]
    rw [deepestPathsMissingField_eq]
    cases (longest (lackingPlaces (registerConfigSchema schema) field part)).take 2 with
    | nil => rfl
    | cons place places => simp

/-- The page explains an error that ends at a part by the names of the places it is about. -/
theorem save_error_explained (reader : PageReader) (lossy : List UInt8 → Text) (schema value part : Json) (path : List Step)
    (before after detail : Text) (numbers : ∀ i < 2 ^ 32, reader.numberKey (ofText (ofNat i)) = ofText (ofNat i))
    (parsed : reader.parse value.render = some value) (distinct : value.Distinct)
    (arrays : ∀ path items, value.follow path = some (.arr items) → items.length < 2 ^ 32) (lists : ListsEntries value)
    (inside : Json.Inside value path before part after) (keys : ∀ name, .key name ∈ path → name.head? ≠ some '[')
    (plain : PlainDetail detail) :
    explainConfigSaveError reader (registerConfigSchema schema)
        (deserializeErrorMessage lossy value.render { detail, line := 1, column := lastColumn before part }) value.render =
      (ofText " or ").intercalate ((blamedPlaces schema detail path part).map (placeName value)) ++ ofText ": " ++
        ofText detail ∧
    ∀ field place, place ∈ lackingPlaces (registerConfigSchema schema) field part ↔
      ∃ record, part.follow place = some (.obj record) ∧ (∀ entry ∈ record, entry.1 ≠ field) ∧
        field ∉ Workspace.inheritedNames ∧ Requires schema field record := by
  have found := inside.follow distinct
  have inner := distinct_inside inside distinct
  obtain ⟨excerpt, message⟩ := deserializeErrorMessage_eq lossy value.render detail (lastColumn before part)
  have read : valueAtPath reader.numberKey value (path.map stepSegment) = some part :=
    valueAtPath_follow numbers arrays keys found
  constructor
  · unfold explainConfigSaveError
    dsimp only
    rw [message, message_eq plain, firstMatch_errorText plain]
    dsimp only
    rw [if_neg (not_not.mpr rfl), parsed]
    dsimp only
    rw [detail_eq plain, jsonPathAtOffset_inside inside, read]
    have paths := @explained_paths schema part detail path
    dsimp only at paths
    rw [paths, List.map_map]
    congr 3
    refine List.map_congr_left fun place member => ?_
    obtain ⟨_, there⟩ := follow_blamed found inner member
    exact describeLocation_place numbers arrays lists there
  · intro field place
    rw [mem_lackingPlaces inner]
    refine exists_congr fun record => and_congr_right fun _ => ?_
    unfold lacksField
    rw [Bool.and_eq_true, couldRequireField_register, Bool.not_eq_true', Bool.or_eq_false_iff, List.any_eq_false,
      decide_eq_false_iff_not, and_assoc]
    refine and_congr_left fun _ => forall₂_congr fun entry _ => ?_
    simp

/-- A configuration whose encryption block has no key, beside a middleware that has none of its own. -/
def keylessConfig : Json :=
  .obj [("consumers", .arr [.obj [("name", .str "café"), ("endpoint", .obj [("file", .obj [("encryption",
    .obj [("cipher", .str "aes256gcm")])]), ("middlewares", .arr [.obj [("retry", .obj [("attempts", .null)])]])])]])]

def keylessEndpoint : Json :=
  .obj [("file", .obj [("encryption", .obj [("cipher", .str "aes256gcm")])]),
    ("middlewares", .arr [.obj [("retry", .obj [("attempts", .null)])]])]

def encryptionSchema : Json :=
  .obj [("$defs", .obj [("EncryptionConfig",
    .obj [("properties", .obj [("cipher", .null), ("key", .null)]), ("required", .arr [.str "key"])])])]

def keylessReader : PageReader where
  parse text := if text = keylessConfig.render then some keylessConfig else none
  numberKey := digitsKey

theorem keyless_plain : PlainDetail "missing field \x60key\x60" where
  unlocated := by decide
  unquoted := by decide
  first c head := by
    rw [← Option.some.inj head]
    decide
  last c last := by
    rw [← Option.some.inj last]
    decide
  filled := by decide

theorem save_error_explained_keyless : ∃ before after,
    Json.Inside keylessConfig [.key "consumers", .index 0, .key "endpoint"] before keylessEndpoint after ∧
    explainConfigSaveError keylessReader (registerConfigSchema encryptionSchema)
        (deserializeErrorMessage (fun _ => []) keylessConfig.render
          { detail := "missing field \x60key\x60", line := 1, column := lastColumn before keylessEndpoint })
        keylessConfig.render =
      ofText "consumer “café” › endpoint › file › encryption: missing field \x60key\x60" := by
  obtain ⟨before, after, inside⟩ := @Json.inside_of_follow [.key "consumers", .index 0, .key "endpoint"] keylessConfig
    keylessEndpoint rfl
  have keys : ∀ name, .key name ∈ [Step.key "consumers", .index 0, .key "endpoint"] → name.head? ≠ some '[' := by
    intro name member
    rcases List.mem_cons.mp member with same | later
    · rw [Step.key.inj same]
      decide
    · rcases List.mem_cons.mp later with same | last
      · cases same
      · rw [Step.key.inj (List.mem_singleton.mp last)]
        decide
  have lists : ListsEntries keylessConfig := by
    intro listed section_ entries
    rcases section_ with rfl | rfl
    · intro same
      have read : keylessConfig.follow [.key "consumers"] = some (.arr _) := rfl
      rw [read] at same
      cases same
    · intro same
      have read : keylessConfig.follow [.key "publishers"] = none := rfl
      rw [read] at same
      cases same
  have parsed : keylessReader.parse keylessConfig.render = some keylessConfig := by
    unfold keylessReader
    dsimp only
    rw [if_pos rfl]
  have short : keylessConfig.render.length < 2 ^ 32 := by decide +kernel
  have explained := save_error_explained keylessReader (fun _ => []) encryptionSchema keylessConfig keylessEndpoint
    [.key "consumers", .index 0, .key "endpoint"] before after "missing field \x60key\x60" (fun i _ => digitsKey_ofNat i)
    parsed (by decide)
    (fun path items there => by
      obtain ⟨_, _, deeper⟩ := Json.inside_of_follow there
      exact deeper.items_lt.trans short)
    lists inside keys keyless_plain
  exact ⟨before, after, inside, explained.1.trans (by decide +kernel)⟩

end MqBridge.Ui
