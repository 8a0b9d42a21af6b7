import MqBridgeApp.Lib.Assoc
import MqBridgeApp.Lib.Lines
import MqBridgeApp.Lib.Lists

/-!
# The secrets file

Extracted secrets are written into a `.env` file, line by line and as they are. The parser that reads the
file at the next start is not the application's own, and it interprets what it reads. A secret comes back
when both see the same variables in the same lines.
-/

namespace MqBridge.Config.EnvFile
open Text

/-- The variable a line sets, in the eyes of the store. -/
def lineKey (line : Text) : Option Text :=
  if (trim line).isEmpty || (trim line).head? == some '#' then none
  else (splitOnce '=' line).map fun parts => trim parts.1

def assignment (key value : Text) : Text := key ++ '=' :: value

/-- The lines that are written for those of the file, and the keys among them. -/
def storeLines (secrets : List (Text × Text)) : List Text → List Text × List Text
  | [] => ([], [])
  | line :: rest =>
    let (newLines, processedKeys) := storeLines secrets rest
    match lineKey line with
    | some key =>
      match secrets.lookup key with
      | some newValue => (assignment key newValue :: newLines, key :: processedKeys)
      | none => (line :: newLines, processedKeys)
    | none => (line :: newLines, processedKeys)

/-- `secrets` comes in the order the map is iterated in. -/
def store (secrets : List (Text × Text)) (content : Text) : Text :=
  if secrets.isEmpty then content
  else
    let (newLines, processedKeys) := storeLines secrets (lines content)
    endLine (joinLines (newLines ++
      (secrets.filter fun secret => secret.1 ∉ processedKeys).map fun secret => assignment secret.1 secret.2))

/-! ### The reader -/

inductive Reading where
  | skipped
  | entry (key value : Text)
  | failed

/-- The parser of the file, which takes one line after the other. -/
structure Dotenv where
  /-- What a line says, after lines that set these variables. -/
  readLine : List (Text × Text) → Text → Reading
  /-- The comment a line has. -/
  commentOf : Text → Option Text
  /-- Values in which nothing is interpreted. -/
  plain : Text → Bool
  /-- After lines that set these variables, what is substituted in a value is its own text. -/
  givesItself : List (Text × Text) → Text → Prop

def isKeyStart (c : Char) : Bool := c.isAlpha || c == '_'

def isKeyChar (c : Char) : Bool := c.isAlphanum || c == '_' || c == '.'

def isKey (key : Text) : Bool := (key.head?.any isKeyStart) && key.all isKeyChar

/-- What is known of the parser. -/
structure Documented (d : Dotenv) : Prop where
  blank : ∀ before, d.readLine before [] = .skipped
  trailing : ∀ before line, d.readLine before (line ++ ['\r']) = d.readLine before line
  keys : ∀ {before line key value}, d.readLine before line = .entry key value → isKey key = true
  own : ∀ {before key value key' value'}, isKey key = true →
    d.readLine before (assignment key value) = .entry key' value' → key' = key
  verbatim : ∀ {key value}, isKey key = true → d.plain value = true →
    ∀ before, d.readLine before (assignment key value) = .entry key value
  interpreted : ∀ {before key value}, isKey key = true →
    d.readLine before (assignment key value) = .entry key value → d.plain value = true ∨ d.givesItself before value
  oneLine : ∀ {value}, d.plain value = true → '\n' ∉ value ∧ value.getLast? ≠ some '\r'
  noComment : ∀ {key value}, isKey key = true → d.plain value = true → d.commentOf (assignment key value) = none
  blankComment : d.commentOf [] = none

def Dotenv.read (d : Dotenv) : List (Text × Text) → List Text → List (Text × Text)
  | _, [] => []
  | before, line :: rest =>
    match d.readLine before line with
    | .skipped => d.read before rest
    | .entry key value => (key, value) :: d.read (before ++ [(key, value)]) rest
    | .failed => []

/-- The variables of a file. The first line that sets one decides its value. -/
def Dotenv.readFile (d : Dotenv) (content : Text) : List (Text × Text) := d.read [] (lines content)

/-- The secret that the store writes in place of a line. -/
def secretOf (secrets : List (Text × Text)) (line : Text) : Option (Text × Text) :=
  (lineKey line).bind fun key => (secrets.lookup key).map fun value => (key, value)

/-- The lines that are not blank and not of a secret. -/
def otherLines (secrets : List (Text × Text)) (content : Text) : List Text :=
  (lines content).filter fun line => (secretOf secrets line).isNone && !line.isEmpty

/-- Each secret is read back, the rest of the file is as before, and storing the secrets once more changes nothing. -/
structure Kept (d : Dotenv) (secrets : List (Text × Text)) (content : Text) : Prop where
  readBack : ∀ key value, (key, value) ∈ secrets → (d.readFile (store secrets content)).lookup key = some value
  others : otherLines secrets (store secrets content) = otherLines secrets content
  comments : (lines (store secrets content)).filterMap d.commentOf = (lines content).filterMap d.commentOf
  again : ∀ secrets', secrets'.Perm secrets → store secrets' (store secrets content) = store secrets content

/-- Secrets whose names and values the parser takes as they stand. -/
def SecretsPlain (d : Dotenv) (secrets : List (Text × Text)) : Prop :=
  ∀ key value, (key, value) ∈ secrets → isKey key = true ∧ d.plain value = true

/-- Above the line that the store takes for the secret's, no line is malformed and none sets it to something else. -/
def SetsFirst (d : Dotenv) (secrets : List (Text × Text)) (key value : Text) : List (Text × Text) → List Text → Prop
  | _, [] => True
  | before, line :: rest =>
    match secretOf secrets line with
    | some (key', value') => key' = key ∨ SetsFirst d secrets key value (before ++ [(key', value')]) rest
    | none =>
      match d.readLine before line with
      | .skipped => SetsFirst d secrets key value before rest
      | .entry key' value' =>
        if key' = key then value' = value else SetsFirst d secrets key value (before ++ [(key', value')]) rest
      | .failed => False

/-- A file in which the store and the parser see the same variables, and that joining the lines restores. -/
structure FileSettled (d : Dotenv) (secrets : List (Text × Text)) (content : Text) : Prop where
  sets : ∀ key value, (key, value) ∈ secrets → SetsFirst d secrets key value [] (lines content)
  noComment : ∀ line ∈ lines content, (secretOf secrets line).isSome = true → d.commentOf line = none
  ends : ∀ line ∈ lines content, secretOf secrets line = none → line.getLast? ≠ some '\r'
  blanks : (∀ secret ∈ secrets, ∃ line ∈ lines content, lineKey line = some secret.1) → ¬[[], []] <:+ lines content

theorem isKey_chars {key : Text} (name : isKey key = true) {c : Char} (member : c ∈ key) : isKeyChar c = true :=
  List.all_eq_true.mp (Bool.and_eq_true_iff.mp name).2 c member

theorem isKeyChar_not_blank {c : Char} (plain : isKeyChar c = true) : isWhitespace c = false := by
  simp only [isKeyChar, Bool.or_eq_true, isAlphanum_iff, beq_iff_eq] at plain
  have bounds : 46 ≤ c.toNat ∧ c.toNat ≤ 122 := by
    rcases plain with (letter | rfl) | rfl
    · omega
    · decide
    · decide
  exact isWhitespace_visible (by omega) (by omega)

theorem isKey_absent {key : Text} (name : isKey key = true) {c : Char} (other : isKeyChar c = false) : c ∉ key := by
  intro member
  rw [isKey_chars name member] at other
  cases other

theorem lineKey_assignment {key : Text} (name : isKey key = true) (value : Text) :
    lineKey (assignment key value) = some key := by
  have split : splitOnce '=' (assignment key value) = some (key, value) := splitOnce_append (isKey_absent name (by decide))
  have stays : trim key = key := trim_of_plain fun c member => isKeyChar_not_blank (isKey_chars name member)
  cases key with
  | nil => cases name
  | cons c rest =>
    have start : isWhitespace c = false := isKeyChar_not_blank (isKey_chars name List.mem_cons_self)
    have plain : c ≠ '#' := by
      rintro rfl
      cases isKey_chars name List.mem_cons_self
    have trimmed : trim (assignment (c :: rest) value) = c :: (rest ++ '=' :: value.rdropWhile isWhitespace) := by
      rw [trim, trimStart, assignment, List.cons_append, List.dropWhile_cons_of_neg (by simp [start]), ← List.cons_append,
        rdropWhile_append (by decide)]
      rfl
    rw [lineKey, trimmed, split]
    simp [plain, stays]

theorem lineKey_stripCr (line : Text) : lineKey (stripCr line) = lineKey line := by
  unfold stripCr
  split
  · next ends =>
    obtain ⟨before, rfl⟩ := List.getLast?_eq_some_iff.mp ends
    have keys : ((splitOnce '=' (before ++ ['\r'])).map fun parts => trim parts.1) =
        (splitOnce '=' before).map fun parts => trim parts.1 := by
      cases split : splitOnce '=' before with
      | none =>
        have absent := splitOnce_eq_none.mp split
        rw [splitOnce_eq_none.mpr (by simp [absent])]
      | some parts =>
        obtain ⟨rfl, absent⟩ := splitOnce_eq_some.mp split
        rw [List.append_assoc, List.cons_append, splitOnce_append absent]
        rfl
    rw [List.dropLast_concat, lineKey, lineKey, trim_concat (by decide), keys]
  · rfl

theorem secretOf_eq_some {secrets : List (Text × Text)} {line : Text} {secret : Text × Text} :
    secretOf secrets line = some secret ↔ lineKey line = some secret.1 ∧ secrets.lookup secret.1 = some secret.2 := by
  obtain ⟨key, value⟩ := secret
  simp only [secretOf, Option.bind_eq_some_iff, Option.map_eq_some_iff, Prod.mk.injEq]
  constructor
  · rintro ⟨_, found, _, there, rfl, rfl⟩
    exact ⟨found, there⟩
  · rintro ⟨found, there⟩
    exact ⟨key, found, value, there, rfl, rfl⟩

theorem secretOf_stripCr (secrets : List (Text × Text)) (line : Text) :
    secretOf secrets (stripCr line) = secretOf secrets line := by
  rw [secretOf, secretOf, lineKey_stripCr]

/-! ### The lines that are written -/

def storedLine (secrets : List (Text × Text)) (line : Text) : Text :=
  match secretOf secrets line with
  | some (key, value) => assignment key value
  | none => line

/-- The secrets that no line of the file is of. -/
def missing (secrets : List (Text × Text)) (ls : List Text) : List (Text × Text) :=
  secrets.filter fun secret => secret.1 ∉ ls.filterMap fun line => (secretOf secrets line).map Prod.fst

def newLines (secrets : List (Text × Text)) (ls : List Text) : List Text :=
  ls.map (storedLine secrets) ++ (missing secrets ls).map fun secret => assignment secret.1 secret.2

theorem storeLines_eq (secrets : List (Text × Text)) (ls : List Text) : storeLines secrets ls =
    (ls.map (storedLine secrets), ls.filterMap fun line => (secretOf secrets line).map Prod.fst) := by
  induction ls with
  | nil => rfl
  | cons line rest ih =>
    rw [storeLines, ih, List.map_cons, List.filterMap_cons]
    cases key : lineKey line with
    | none => simp [storedLine, secretOf, key]
    | some name =>
      cases value : secrets.lookup name with
      | none => simp [storedLine, secretOf, key, value]
      | some newValue => simp [storedLine, secretOf, key, value]

theorem store_eq {secrets : List (Text × Text)} (some_ : secrets ≠ []) (content : Text) :
    store secrets content = endLine (joinLines (newLines secrets (lines content))) := by
  rw [store, if_neg (by simpa using some_), storeLines_eq]
  rfl

theorem mem_newLines {secrets : List (Text × Text)} {ls : List Text} {line : Text} :
    line ∈ newLines secrets ls ↔ (line ∈ ls ∧ secretOf secrets line = none) ∨
      (∃ old ∈ ls, ∃ secret, secretOf secrets old = some secret ∧ assignment secret.1 secret.2 = line) ∨
      ∃ secret ∈ missing secrets ls, assignment secret.1 secret.2 = line := by
  rw [newLines, List.mem_append, List.mem_map, List.mem_map, ← or_assoc]
  refine or_congr_left ?_
  constructor
  · rintro ⟨old, member, rfl⟩
    unfold storedLine
    split
    · next key value found => exact .inr ⟨old, member, _, found, rfl⟩
    · next other => exact .inl ⟨member, other⟩
  · rintro (⟨member, other⟩ | ⟨old, member, secret, found, rfl⟩)
    · exact ⟨line, member, by rw [storedLine, other]⟩
    · exact ⟨old, member, by rw [storedLine, found]⟩

theorem of_mem_newLines {secrets : List (Text × Text)} {ls : List Text} {line : Text} (member : line ∈ newLines secrets ls) :
    (line ∈ ls ∧ secretOf secrets line = none) ∨ ∃ secret ∈ secrets, assignment secret.1 secret.2 = line := by
  rcases mem_newLines.mp member with kept | ⟨_, _, secret, found, same⟩ | ⟨secret, inside, same⟩
  · exact .inl kept
  · exact .inr ⟨secret, Assoc.mem_of_lookup (secretOf_eq_some.mp found).2, same⟩
  · exact .inr ⟨secret, (List.mem_filter.mp inside).1, same⟩

theorem assignment_mem_newLines {secrets : List (Text × Text)} (distinct : (secrets.map Prod.fst).Nodup)
    {secret : Text × Text} (member : secret ∈ secrets) (ls : List Text) :
    assignment secret.1 secret.2 ∈ newLines secrets ls := by
  by_cases processed : secret.1 ∈ ls.filterMap fun line => (secretOf secrets line).map Prod.fst
  · obtain ⟨line, there, found⟩ := List.mem_filterMap.mp processed
    obtain ⟨⟨key, value⟩, isSecret, rfl⟩ := Option.map_eq_some_iff.mp found
    have lookup := (secretOf_eq_some.mp isSecret).2
    rw [Assoc.lookup_of_mem distinct member] at lookup
    exact mem_newLines.mpr (.inr (.inl ⟨line, there, _, isSecret, by rw [Option.some.inj lookup]⟩))
  · exact mem_newLines.mpr (.inr (.inr ⟨secret, List.mem_filter.mpr ⟨member, by simpa using processed⟩, rfl⟩))

theorem newLines_full {secrets : List (Text × Text)} (distinct : (secrets.map Prod.fst).Nodup) (some_ : secrets ≠ [])
    (ls : List Text) : newLines secrets ls ≠ [] ∧ newLines secrets ls ≠ [[]] := by
  obtain ⟨secret, rest, rfl⟩ := List.exists_cons_of_ne_nil some_
  have member := assignment_mem_newLines distinct List.mem_cons_self ls
  constructor
  · intro empty
    rw [empty] at member
    cases member
  · intro blank
    rw [blank, List.mem_singleton] at member
    simp [assignment] at member

theorem newLines_plain {secrets : List (Text × Text)} (oneLine : ∀ secret ∈ secrets, '\n' ∉ secret.1 ∧ '\n' ∉ secret.2)
    (content : Text) : ∀ line ∈ newLines secrets (lines content), '\n' ∉ line := by
  intro line member
  rcases of_mem_newLines member with ⟨old, -⟩ | ⟨secret, inside, rfl⟩
  · exact not_mem_lines content line old
  · obtain ⟨key, value⟩ := oneLine secret inside
    simp [assignment, key, value]

theorem store_unlines {secrets : List (Text × Text)} (distinct : (secrets.map Prod.fst).Nodup) (some_ : secrets ≠ [])
    (oneLine : ∀ secret ∈ secrets, '\n' ∉ secret.1 ∧ '\n' ∉ secret.2) (content : Text) :
    store secrets content = unlines (dropBlankEnd (newLines secrets (lines content))) := by
  obtain ⟨nonempty, full⟩ := newLines_full distinct some_ (lines content)
  rw [store_eq some_]
  exact endLine_joinLines (newLines_plain oneLine content) nonempty full

theorem store_lines {secrets : List (Text × Text)} (distinct : (secrets.map Prod.fst).Nodup) (some_ : secrets ≠ [])
    (oneLine : ∀ secret ∈ secrets, '\n' ∉ secret.1 ∧ '\n' ∉ secret.2) (content : Text) :
    lines (store secrets content) = (dropBlankEnd (newLines secrets (lines content))).map stripCr := by
  rw [store_unlines distinct some_ oneLine]
  exact lines_unlines fun line member => newLines_plain oneLine content line (mem_of_mem_dropBlankEnd member)

/-! ### Reading it -/

section
variable {d : Dotenv}

theorem read_blankEnd (documented : Documented d) (before : List (Text × Text)) (ls : List Text) :
    d.read before (ls ++ [[]]) = d.read before ls := by
  induction ls generalizing before with
  | nil => simp [Dotenv.read, documented.blank]
  | cons line rest ih =>
    rw [List.cons_append, Dotenv.read, Dotenv.read]
    split <;> simp [ih]

theorem read_dropBlankEnd (documented : Documented d) (before : List (Text × Text)) (ls : List Text) :
    d.read before (dropBlankEnd ls) = d.read before ls := by
  unfold dropBlankEnd
  split
  · next blank =>
    obtain ⟨init, rfl⟩ := List.getLast?_eq_some_iff.mp blank
    rw [List.dropLast_concat, read_blankEnd documented]
  · rfl

theorem mem_read {before : List (Text × Text)} {ls : List Text} {key value : Text}
    (member : (key, value) ∈ d.read before ls) : ∃ line ∈ ls, ∃ before', d.readLine before' line = .entry key value := by
  induction ls generalizing before with
  | nil => cases member
  | cons line rest ih =>
    rw [Dotenv.read] at member
    split at member
    · obtain ⟨later, there, found⟩ := ih member
      exact ⟨later, List.mem_cons_of_mem _ there, found⟩
    · next key' value' here =>
      rcases List.mem_cons.mp member with same | inside
      · obtain ⟨rfl, rfl⟩ := Prod.mk.inj same
        exact ⟨line, List.mem_cons_self, before, here⟩
      · obtain ⟨later, there, found⟩ := ih inside
        exact ⟨later, List.mem_cons_of_mem _ there, found⟩
    · cases member

theorem read_assignments (documented : Documented d) {secrets : List (Text × Text)} (plain : SecretsPlain d secrets)
    {added : List (Text × Text)} (subset : added ⊆ secrets) (before : List (Text × Text)) :
    d.read before (added.map fun secret => assignment secret.1 secret.2) = added := by
  induction added generalizing before with
  | nil => rfl
  | cons secret rest ih =>
    obtain ⟨name, value⟩ := plain secret.1 secret.2 (subset List.mem_cons_self)
    rw [List.map_cons, Dotenv.read, documented.verbatim name value]
    exact congrArg _ (ih (fun other member => subset (List.mem_cons_of_mem _ member)) _)

/-- A secret is read back when no line above its own interferes. The induction is along the lines of the old file. -/
theorem lookup_read_iff (documented : Documented d) {secrets : List (Text × Text)}
    (plain : SecretsPlain d secrets) {added : List (Text × Text)} (subset : added ⊆ secrets) {key value : Text}
    (secret : secrets.lookup key = some value) {ls : List Text}
    (there : added.lookup key = some value ∨ ∃ line ∈ ls, lineKey line = some key) (before : List (Text × Text)) :
    (d.read before (ls.map (storedLine secrets) ++ added.map fun secret => assignment secret.1 secret.2)).lookup key =
        some value ↔ SetsFirst d secrets key value before ls := by
  induction ls generalizing before with
  | nil =>
    rw [List.map_nil, List.nil_append, read_assignments documented plain subset]
    exact iff_of_true (there.resolve_right (by simp)) trivial
  | cons line rest ih =>
    rw [List.map_cons, List.cons_append, Dotenv.read, SetsFirst]
    cases found : secretOf secrets line with
    | some other =>
      obtain ⟨key', value'⟩ := other
      obtain ⟨name, readable⟩ := plain key' value' (Assoc.mem_of_lookup (secretOf_eq_some.mp found).2)
      simp only [storedLine, found, documented.verbatim name readable, List.lookup_cons]
      by_cases same : key' = key
      · subst same
        have values := (secretOf_eq_some.mp found).2.symm.trans secret
        simpa using values
      · rw [beq_false_of_ne (Ne.symm same)]
        simp only [same, false_or]
        refine ih (there.imp_right ?_) _
        rintro ⟨later, member, isKey⟩
        rcases List.mem_cons.mp member with rfl | inside
        · exact absurd (Option.some.inj ((secretOf_eq_some.mp found).1.symm.trans isKey)) same
        · exact ⟨later, inside, isKey⟩
    | none =>
      have remains : added.lookup key = some value ∨ ∃ line ∈ rest, lineKey line = some key := by
        refine there.imp_right ?_
        rintro ⟨later, member, isKey⟩
        rcases List.mem_cons.mp member with rfl | inside
        · rw [secretOf, isKey, Option.bind_some, secret] at found
          cases found
        · exact ⟨later, inside, isKey⟩
      simp only [storedLine, found]
      cases reading : d.readLine before line with
      | skipped => exact ih remains before
      | entry key' value' =>
        simp only [List.lookup_cons]
        by_cases same : key' = key
        · simp [same]
        · rw [beq_false_of_ne (Ne.symm same), if_neg same]
          exact ih remains _
      | failed => simp

end

/-! ### Storing once more -/

theorem secretOf_perm {secrets secrets' : List (Text × Text)} (distinct : (secrets.map Prod.fst).Nodup)
    (perm : secrets'.Perm secrets) (line : Text) : secretOf secrets' line = secretOf secrets line := by
  unfold secretOf
  cases lineKey line with
  | none => rfl
  | some key => rw [Option.bind_some, Option.bind_some, ← Assoc.lookup_perm distinct perm.symm]

theorem missing_eq_nil {secrets : List (Text × Text)} {ls : List Text} :
    missing secrets ls = [] ↔ ∀ secret ∈ secrets, ∃ line ∈ ls, lineKey line = some secret.1 := by
  rw [missing, List.filter_eq_nil_iff]
  refine forall_congr' fun secret => forall_congr' fun member => ?_
  simp only [decide_not, Bool.not_eq_eq_eq_not, Bool.not_true, Bool.not_eq_false, decide_eq_true_eq, List.mem_filterMap,
    Option.map_eq_some_iff, secretOf_eq_some]
  constructor
  · rintro ⟨line, there, ⟨key, value⟩, ⟨isKey, -⟩, rfl⟩
    exact ⟨line, there, isKey⟩
  · rintro ⟨line, there, isKey⟩
    obtain ⟨value, found⟩ := Assoc.mem_keys.mp (List.mem_map_of_mem (f := Prod.fst) member)
    exact ⟨line, there, (secret.1, value), ⟨isKey, found⟩, rfl⟩

theorem suffix_map_storedLine {secrets : List (Text × Text)} {ls : List Text} :
    [[], []] <:+ ls.map (storedLine secrets) ↔ [[], []] <:+ ls := by
  have blank : ∀ line, storedLine secrets line = [] → line = [] := by
    intro line same
    unfold storedLine at same
    split at same
    · simp [assignment] at same
    · exact same
  constructor
  · rintro ⟨init, same⟩
    obtain ⟨before, last, rfl, -, lasts⟩ := List.map_eq_append_iff.mp same.symm
    obtain ⟨a, rest, rfl, first, others⟩ := List.map_eq_cons_iff.mp lasts
    obtain ⟨b, rest, rfl, second, empty⟩ := List.map_eq_cons_iff.mp others
    rw [List.map_eq_nil_iff] at empty
    rw [blank a first, blank b second, empty]
    exact ⟨before, rfl⟩
  · rintro ⟨init, rfl⟩
    exact ⟨init.map (storedLine secrets), by rw [List.map_append]; rfl⟩

section
variable {d : Dotenv} {secrets : List (Text × Text)}

theorem SecretsPlain.oneLine (plain : SecretsPlain d secrets) (documented : Documented d) :
    ∀ secret ∈ secrets, '\n' ∉ secret.1 ∧ '\n' ∉ secret.2 := by
  intro secret member
  obtain ⟨name, readable⟩ := plain secret.1 secret.2 member
  exact ⟨isKey_absent name (by decide), (documented.oneLine readable).1⟩

theorem SecretsPlain.assignment_ends (plain : SecretsPlain d secrets) (documented : Documented d) {secret : Text × Text}
    (member : secret ∈ secrets) : (assignment secret.1 secret.2).getLast? ≠ some '\r' := by
  have ends := (documented.oneLine (plain secret.1 secret.2 member).2).2
  rw [assignment, List.getLast?_append_of_ne_nil _ (List.cons_ne_nil '=' secret.2)]
  cases value : secret.2 with
  | nil => decide
  | cons c rest =>
    rw [value] at ends
    rwa [List.getLast?_cons_cons]

theorem SecretsPlain.ends_iff (plain : SecretsPlain d secrets) (documented : Documented d) (content : Text) :
    (∀ line ∈ dropBlankEnd (newLines secrets (lines content)), line.getLast? ≠ some '\r') ↔
      ∀ line ∈ lines content, secretOf secrets line = none → line.getLast? ≠ some '\r' := by
  constructor
  · intro ends line member other
    by_cases blank : line = []
    · simp [blank]
    · exact ends line ((mem_dropBlankEnd blank).mpr (mem_newLines.mpr (.inl ⟨member, other⟩)))
  · intro ends line member
    rcases of_mem_newLines (mem_of_mem_dropBlankEnd member) with ⟨old, other⟩ | ⟨secret, inside, rfl⟩
    · exact ends line old other
    · exact plain.assignment_ends documented inside

theorem blanks_iff (secrets : List (Text × Text)) (ls : List Text) :
    (dropBlankEnd (newLines secrets ls)).getLast? ≠ some [] ↔
      ((∀ secret ∈ secrets, ∃ line ∈ ls, lineKey line = some secret.1) → ¬[[], []] <:+ ls) := by
  rw [ne_eq, getLast_dropBlankEnd, ← missing_eq_nil, newLines]
  rcases List.eq_nil_or_concat (missing secrets ls) with none_ | ⟨init, last, some_⟩
  · rw [none_, List.map_nil, List.append_nil, suffix_map_storedLine]
    simp
  · rw [some_, List.concat_eq_append]
    refine iff_of_true ?_ (by simp)
    rintro ⟨before, same⟩
    have lasts := congrArg List.getLast? same
    simp [assignment] at lasts

/-- What is stored again finds each secret in a line of its own, and rewrites that line to itself. -/
theorem again_iff (documented : Documented d) (distinct : (secrets.map Prod.fst).Nodup) (some_ : secrets ≠ [])
    (plain : SecretsPlain d secrets) (content : Text) :
    (∀ secrets', secrets'.Perm secrets → store secrets' (store secrets content) = store secrets content) ↔
      (∀ line ∈ lines content, secretOf secrets line = none → line.getLast? ≠ some '\r') ∧
        ((∀ secret ∈ secrets, ∃ line ∈ lines content, lineKey line = some secret.1) → ¬[[], []] <:+ lines content) := by
  have oneLine := plain.oneLine documented
  have stored := store_unlines distinct some_ oneLine content
  have read := store_lines distinct some_ oneLine content
  have plainLines : ∀ line ∈ dropBlankEnd (newLines secrets (lines content)), '\n' ∉ line := fun line member =>
    newLines_plain oneLine content line (mem_of_mem_dropBlankEnd member)
  rw [← plain.ends_iff documented, ← blanks_iff, ← dropBlankEnd_stripCr]
  generalize fileLines_eq : dropBlankEnd (newLines secrets (lines content)) = fileLines at *
  have written : ∀ secret ∈ secrets, assignment secret.1 secret.2 ∈ fileLines.map stripCr := by
    intro secret member
    refine List.mem_map.mpr ⟨_, ?_, stripCr_of_plain (plain.assignment_ends documented member)⟩
    rw [← fileLines_eq, mem_dropBlankEnd (by simp [assignment])]
    exact assignment_mem_newLines distinct member _
  have twice : ∀ secrets', secrets'.Perm secrets →
      store secrets' (store secrets content) = unlines (dropBlankEnd (fileLines.map stripCr)) := by
    intro secrets' perm
    have distinct' := (perm.map Prod.fst).nodup_iff.mpr distinct
    have nonempty' : secrets' ≠ [] := fun empty => some_ (List.Perm.nil_eq (empty ▸ perm)).symm
    have none_ : missing secrets' (fileLines.map stripCr) = [] := missing_eq_nil.mpr fun secret member =>
      ⟨_, written secret (perm.mem_iff.mp member), lineKey_assignment (plain secret.1 secret.2 (perm.mem_iff.mp member)).1 _⟩
    have fixed : (fileLines.map stripCr).map (storedLine secrets') = fileLines.map stripCr := by
      refine (List.map_congr_left fun line member => ?_).trans (List.map_id _)
      obtain ⟨old, inside, rfl⟩ := List.mem_map.mp member
      rw [← fileLines_eq] at inside
      rcases of_mem_newLines (mem_of_mem_dropBlankEnd inside) with ⟨-, other⟩ | ⟨secret, there, rfl⟩
      · rw [storedLine, secretOf_stripCr, secretOf_perm distinct perm, other]
        rfl
      · have name := (plain secret.1 secret.2 there).1
        have found : secretOf secrets (assignment secret.1 secret.2) = some secret :=
          secretOf_eq_some.mpr ⟨lineKey_assignment name _, Assoc.lookup_of_mem distinct there⟩
        rw [storedLine, secretOf_stripCr, secretOf_perm distinct perm, found]
        exact (stripCr_of_plain (plain.assignment_ends documented there)).symm
    rw [store_unlines distinct' nonempty' fun secret member => oneLine secret (perm.mem_iff.mp member), read, newLines,
      fixed, none_, List.map_nil, List.append_nil]
  rw [stored]
  constructor
  · intro again
    have same := again secrets (.refl _)
    rw [← stored, twice secrets (.refl _), stored] at same
    refine unlines_injective (fun line member => ?_) plainLines same
    obtain ⟨old, inside, rfl⟩ := List.mem_map.mp (mem_of_mem_dropBlankEnd member)
    exact fun feed => plainLines old inside (mem_of_mem_stripCr feed)
  · intro same secrets' perm
    rw [← stored, twice secrets' perm, same, stored]

theorem lines_store_settled (documented : Documented d) (distinct : (secrets.map Prod.fst).Nodup) (some_ : secrets ≠ [])
    (plain : SecretsPlain d secrets) {content : Text}
    (ends : ∀ line ∈ lines content, secretOf secrets line = none → line.getLast? ≠ some '\r') :
    lines (store secrets content) = dropBlankEnd (newLines secrets (lines content)) := by
  rw [store_lines distinct some_ (plain.oneLine documented)]
  exact (List.map_congr_left fun line member => stripCr_of_plain ((plain.ends_iff documented content).mpr ends line member)).trans
    (List.map_id _)

theorem secretOf_storedLine (distinct : (secrets.map Prod.fst).Nodup) (plain : SecretsPlain d secrets) (line : Text) :
    secretOf secrets (storedLine secrets line) = secretOf secrets line := by
  unfold storedLine
  split
  · next key value found =>
    have member := Assoc.mem_of_lookup (secretOf_eq_some.mp found).2
    rw [found]
    exact secretOf_eq_some.mpr ⟨lineKey_assignment (plain key value member).1 _, Assoc.lookup_of_mem distinct member⟩
  · rfl

theorem otherLines_store (documented : Documented d) (distinct : (secrets.map Prod.fst).Nodup) (some_ : secrets ≠ [])
    (plain : SecretsPlain d secrets) {content : Text}
    (ends : ∀ line ∈ lines content, secretOf secrets line = none → line.getLast? ≠ some '\r') :
    otherLines secrets (store secrets content) = otherLines secrets content := by
  have added : ((missing secrets (lines content)).map fun secret => assignment secret.1 secret.2).filter
      (fun line => (secretOf secrets line).isNone && !line.isEmpty) = [] := by
    rw [List.filter_eq_nil_iff]
    intro line member
    obtain ⟨secret, inside, rfl⟩ := List.mem_map.mp member
    have there := (List.mem_filter.mp inside).1
    have own := lineKey_assignment (plain secret.1 secret.2 there).1 secret.2
    simp [secretOf_eq_some.mpr ⟨own, Assoc.lookup_of_mem distinct there⟩]
  rw [otherLines, otherLines, lines_store_settled documented distinct some_ plain ends, filter_dropBlankEnd (by rfl),
    newLines, List.filter_append, added, List.append_nil]
  refine Lists.filter_map_fixed (fun line => ?_) (fun line other => ?_) (lines content)
  · rw [secretOf_storedLine distinct plain]
    cases found : secretOf secrets line with
    | some secret => rfl
    | none => rw [storedLine, found]
  · rw [Bool.and_eq_true, Option.isNone_iff_eq_none] at other
    rw [storedLine, other.1]

theorem comments_store_iff (documented : Documented d) (distinct : (secrets.map Prod.fst).Nodup) (some_ : secrets ≠ [])
    (plain : SecretsPlain d secrets) {content : Text}
    (ends : ∀ line ∈ lines content, secretOf secrets line = none → line.getLast? ≠ some '\r') :
    (lines (store secrets content)).filterMap d.commentOf = (lines content).filterMap d.commentOf ↔
      ∀ line ∈ lines content, (secretOf secrets line).isSome = true → d.commentOf line = none := by
  have silent : ∀ secret ∈ secrets, d.commentOf (assignment secret.1 secret.2) = none := fun secret member =>
    documented.noComment (plain secret.1 secret.2 member).1 (plain secret.1 secret.2 member).2
  have added : ((missing secrets (lines content)).map fun secret => assignment secret.1 secret.2).filterMap d.commentOf = [] := by
    rw [List.filterMap_eq_nil_iff]
    intro line member
    obtain ⟨secret, inside, rfl⟩ := List.mem_map.mp member
    exact silent secret (List.mem_filter.mp inside).1
  have each : ∀ line, d.commentOf (storedLine secrets line) =
      if (secretOf secrets line).isSome then none else d.commentOf line := by
    intro line
    cases found : secretOf secrets line with
    | some secret =>
      rw [storedLine, found]
      exact silent secret (Assoc.mem_of_lookup (secretOf_eq_some.mp found).2)
    | none => rw [storedLine, found]; rfl
  rw [lines_store_settled documented distinct some_ plain ends, filterMap_dropBlankEnd documented.blankComment, newLines,
    List.filterMap_append, added, List.append_nil, List.filterMap_map, Function.comp_def, Lists.filterMap_eq_iff]
  · refine forall_congr' fun line => forall_congr' fun member => ?_
    rw [each]
    cases (secretOf secrets line).isSome <;> simp [eq_comm]
  · intro line _
    rw [each]
    split
    · exact .inr rfl
    · exact .inl rfl

/-! ### Secrets that come back -/

/-- Plain secrets are kept exactly when the file is one in which the store and the parser see the same. -/
theorem kept_iff_settled (documented : Documented d) (distinct : (secrets.map Prod.fst).Nodup)
    (plain : SecretsPlain d secrets) (content : Text) :
    Kept d secrets content ↔ secrets = [] ∨ FileSettled d secrets content := by
  by_cases empty : secrets = []
  · subst empty
    have unchanged : store [] content = content := rfl
    refine iff_of_true ⟨nofun, by rw [unchanged], by rw [unchanged], fun secrets' perm => ?_⟩ (.inl rfl)
    rw [List.perm_nil.mp perm, unchanged, unchanged]
  · have again := again_iff documented distinct empty plain content
    have read (ends : ∀ line ∈ lines content, secretOf secrets line = none → line.getLast? ≠ some '\r')
        {key value : Text} (member : (key, value) ∈ secrets) :
        (d.readFile (store secrets content)).lookup key = some value ↔ SetsFirst d secrets key value [] (lines content) := by
      have lookup := Assoc.lookup_of_mem distinct member
      rw [Dotenv.readFile, lines_store_settled documented distinct empty plain ends, read_dropBlankEnd documented, newLines]
      refine lookup_read_iff documented plain List.filter_sublist.subset lookup ?_ []
      by_cases processed : ∃ line ∈ lines content, lineKey line = some key
      · exact .inr processed
      · refine .inl (Assoc.lookup_of_mem (distinct.sublist (List.filter_sublist.map Prod.fst)) (List.mem_filter.mpr ⟨member, ?_⟩))
        simp only [decide_not, Bool.not_eq_true', decide_eq_false_iff_not, List.mem_filterMap, Option.map_eq_some_iff]
        rintro ⟨line, there, ⟨name, _⟩, found, rfl⟩
        exact processed ⟨line, there, (secretOf_eq_some.mp found).1⟩
    simp only [empty, false_or]
    constructor
    · intro kept
      obtain ⟨ends, blanks⟩ := again.mp kept.again
      exact
        { sets := fun key value member => (read ends member).mp (kept.readBack key value member)
          noComment := (comments_store_iff documented distinct empty plain ends).mp kept.comments
          ends
          blanks }
    · intro settled
      exact
        { readBack := fun key value member => (read settled.ends member).mpr (settled.sets key value member)
          others := otherLines_store documented distinct empty plain settled.ends
          comments := (comments_store_iff documented distinct empty plain settled.ends).mpr settled.noComment
          again := again.mpr ⟨settled.ends, settled.blanks⟩ }

/-- No line that stays sets a variable of a secret. -/
def Unshadowed (d : Dotenv) (secrets : List (Text × Text)) (content : Text) : Prop :=
  ∀ line ∈ lines content, secretOf secrets line = none → ∀ before key value,
    d.readLine before line = .entry key value → ∀ secret ∈ secrets, secret.1 ≠ key

theorem readLine_stripCr (documented : Documented d) (before : List (Text × Text)) (line : Text) :
    d.readLine before (stripCr line) = d.readLine before line := by
  unfold stripCr
  split
  · next ends =>
    obtain ⟨init, rfl⟩ := List.getLast?_eq_some_iff.mp ends
    rw [List.dropLast_concat, documented.trailing]
  · rfl

theorem written_of_kept (documented : Documented d) (distinct : (secrets.map Prod.fst).Nodup)
    (oneLine : ∀ secret ∈ secrets, '\n' ∉ secret.1 ∧ '\n' ∉ secret.2) {content : Text}
    (unshadowed : Unshadowed d secrets content) (kept : Kept d secrets content) {key value : Text}
    (member : (key, value) ∈ secrets) :
    ∃ secret ∈ secrets, ∃ before, d.readLine before (assignment secret.1 secret.2) = .entry key value := by
  have found := Assoc.mem_of_lookup (kept.readBack key value member)
  rw [Dotenv.readFile, store_lines distinct (List.ne_nil_of_mem member) oneLine] at found
  obtain ⟨line, there, before, reading⟩ := mem_read found
  obtain ⟨old, inside, rfl⟩ := List.mem_map.mp there
  rw [readLine_stripCr documented] at reading
  rcases of_mem_newLines (mem_of_mem_dropBlankEnd inside) with ⟨stays, other⟩ | ⟨secret, written, rfl⟩
  · exact absurd rfl (unshadowed old stays other before key value reading _ member)
  · exact ⟨secret, written, before, reading⟩

theorem plain_of_kept (documented : Documented d) (distinct : (secrets.map Prod.fst).Nodup)
    (oneLine : ∀ secret ∈ secrets, '\n' ∉ secret.1 ∧ '\n' ∉ secret.2)
    (changes : ∀ secret ∈ secrets, ∀ before, ¬d.givesItself before secret.2) {content : Text}
    (unshadowed : Unshadowed d secrets content) (kept : Kept d secrets content) : SecretsPlain d secrets := by
  intro key value member
  obtain ⟨secret, written, before, reading⟩ := written_of_kept documented distinct oneLine unshadowed kept member
  -- The secret whose line it is comes back too, so its key is one the parser accepts.
  obtain ⟨_, _, _, others⟩ := written_of_kept documented distinct oneLine unshadowed kept written
  have same := documented.own (documented.keys others) reading
  have values := Assoc.lookup_of_mem distinct written
  rw [← same, Assoc.lookup_of_mem distinct member, Option.some.injEq] at values
  rw [← same, ← values] at reading
  have read := documented.interpreted (documented.keys reading) reading
  exact ⟨documented.keys reading, read.resolve_right (changes _ member before)⟩

end

/-- What the store writes comes back when the secrets are plain and the file is settled. Nothing less is enough for
plain secrets, and secrets that are not plain are not kept where only the store's own lines set them and no value is
substituted by itself. -/
theorem store_kept_iff {d : Dotenv} (documented : Documented d) {secrets : List (Text × Text)}
    (distinct : (secrets.map Prod.fst).Nodup) (content : Text) :
    (SecretsPlain d secrets ∧ (secrets = [] ∨ FileSettled d secrets content) → Kept d secrets content) ∧
      (SecretsPlain d secrets ∨ ((∀ secret ∈ secrets, '\n' ∉ secret.1 ∧ '\n' ∉ secret.2) ∧
          (∀ secret ∈ secrets, ∀ before, ¬d.givesItself before secret.2) ∧ Unshadowed d secrets content) →
        Kept d secrets content → SecretsPlain d secrets ∧ (secrets = [] ∨ FileSettled d secrets content)) := by
  constructor
  · rintro ⟨plain, settled⟩
    exact (kept_iff_settled documented distinct plain content).mpr settled
  · intro known kept
    have plain : SecretsPlain d secrets := by
      rcases known with plain | ⟨oneLine, changes, unshadowed⟩
      · exact plain
      · exact plain_of_kept documented distinct oneLine changes unshadowed kept
    exact ⟨plain, (kept_iff_settled documented distinct plain content).mp kept⟩

/-! ### A parser of plain lines -/

def isPlainChar (c : Char) : Bool := !isWhitespace c && c ∉ ['"', '\'', '#', '$', '\\']

def readPlainLine (line : Text) : Reading :=
  let line := line.rdropWhile isWhitespace
  if line.isEmpty || line.head? == some '#' then .skipped
  else
    match splitOnce '=' line with
    | some (key, value) => if isKey key && value.all isPlainChar then .entry key value else .failed
    | none => .failed

def plainDotenv : Dotenv where
  readLine _ line := readPlainLine line
  commentOf line := if line.head? = some '#' then some line else none
  plain value := value.all isPlainChar
  givesItself _ _ := False

theorem assignment_head {key : Text} (name : isKey key = true) (value : Text) : (key ++ '=' :: value).head? ≠ some '#' := by
  cases key with
  | nil => cases name
  | cons c rest =>
    intro same
    obtain rfl := Option.some.inj same
    exact isKey_absent name (by decide) List.mem_cons_self

theorem readPlainLine_assignment {key : Text} (name : isKey key = true) (value : Text) :
    readPlainLine (assignment key value) =
      if (value.rdropWhile isWhitespace).all isPlainChar then .entry key (value.rdropWhile isWhitespace) else .failed := by
  have line : (assignment key value).rdropWhile isWhitespace = key ++ '=' :: value.rdropWhile isWhitespace :=
    rdropWhile_append (by decide) key value
  have set_ : ((key ++ '=' :: value.rdropWhile isWhitespace).isEmpty ||
      (key ++ '=' :: value.rdropWhile isWhitespace).head? == some '#') = false := by
    rw [Bool.or_eq_false_iff]
    exact ⟨by simp, beq_false_of_ne (assignment_head name _)⟩
  have split : splitOnce '=' (key ++ '=' :: value.rdropWhile isWhitespace) = some (key, value.rdropWhile isWhitespace) :=
    splitOnce_append (isKey_absent name (by decide))
  simp only [readPlainLine, line, set_, Bool.false_eq_true, if_false, split, name, Bool.true_and]

theorem rdropWhile_plain {value : Text} (plain : value.all isPlainChar = true) : value.rdropWhile isWhitespace = value := by
  rw [List.rdropWhile_eq_self_iff]
  intro nonempty
  have last := List.all_eq_true.mp plain _ (List.getLast_mem nonempty)
  simp only [isPlainChar, Bool.and_eq_true, Bool.not_eq_true'] at last
  simp [last.1]

theorem plainDotenv_documented : Documented plainDotenv where
  blank _ := rfl
  trailing _ line := by
    simp only [plainDotenv, readPlainLine]
    rw [List.rdropWhile_concat_pos _ _ _ (by decide)]
  keys {_ line key value} reading := by
    simp only [plainDotenv, readPlainLine] at reading
    split at reading
    · cases reading
    · split at reading
      · split at reading
        · next accepted =>
          obtain ⟨rfl, rfl⟩ := Reading.entry.inj reading
          exact (Bool.and_eq_true_iff.mp accepted).1
        · cases reading
      · cases reading
  own {_ _ value _ _} name reading := by
    simp only [plainDotenv, readPlainLine_assignment name] at reading
    split at reading
    · exact (Reading.entry.inj reading).1.symm
    · cases reading
  verbatim {_ _} name plain _ := by
    simp only [plainDotenv] at plain ⊢
    rw [readPlainLine_assignment name, rdropWhile_plain plain, if_pos plain]
  interpreted {_ _ _} name reading := by
    simp only [plainDotenv, readPlainLine_assignment name] at reading ⊢
    split at reading
    · next plain =>
      rw [(Reading.entry.inj reading).2] at plain
      exact .inl plain
    · cases reading
  oneLine {value} plain := by
    have chars : ∀ c, isPlainChar c = false → c ∉ value := fun c other member => by
      rw [List.all_eq_true.mp plain c member] at other
      cases other
    exact ⟨chars _ (by decide), fun ends => chars _ (by decide) (List.mem_of_getLast? ends)⟩
  noComment {_ value} name _ := if_neg (assignment_head name value)
  blankComment := rfl

def authorization : Text := "MQB__PUBLISHERS__ORDERS__HTTP__CUSTOM_HEADERS__AUTHORIZATION"

theorem token_kept : Kept plainDotenv [(authorization, "abc")] "PORT=80" := by
  refine (store_kept_iff plainDotenv_documented (by decide) "PORT=80").1 ⟨?_, .inr ⟨?_, ?_, ?_, ?_⟩⟩
  · intro key value member
    obtain ⟨rfl, rfl⟩ := Prod.mk.inj (List.mem_singleton.mp member)
    decide
  · intro key value member
    obtain ⟨rfl, rfl⟩ := Prod.mk.inj (List.mem_singleton.mp member)
    show if ("PORT" : Text) = authorization then ("80" : Text) = "abc" else True
    decide
  · decide
  · decide
  · decide

/-- The usual value of the header has a blank, and is not read back. -/
theorem bearer_token_lost : ¬Kept plainDotenv [(authorization, "Bearer abc")] "PORT=80" := by
  intro kept
  have found := kept.readBack authorization "Bearer abc" List.mem_cons_self
  exact absurd found (by decide)

end MqBridge.Config.EnvFile
