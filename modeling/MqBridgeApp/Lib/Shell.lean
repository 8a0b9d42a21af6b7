import MqBridgeApp.Lib.Text

/-!
# Shell words

How a POSIX shell splits a simple command into words and removes the quotes. A text that asks for more
than that (an operator, an expansion, a pattern or a comment) is not split.
-/

namespace MqBridge.Shell
open Text

inductive Quoting where
  | plain
  | escaped
  | single
  | double
  | doubleEscaped
  deriving DecidableEq

structure Splitter where
  quoting : Quoting := .plain
  /-- The word that was begun, if there is one. -/
  word : Option Text := none
  words : List Text := []
  deriving DecidableEq

/-- Begins a word, which quotes do even where nothing is between them. -/
def Splitter.quote (quoting : Quoting) (s : Splitter) : Splitter :=
  { s with quoting, word := some (s.word.getD []) }

def Splitter.put (text : Text) (s : Splitter) : Splitter := { s with word := some (s.word.getD [] ++ text) }

def Splitter.cut (s : Splitter) : Splitter :=
  match s.word with
  | none => s
  | some word => { s with word := none, words := s.words ++ [word] }

def isBlank (c : Char) : Bool := c = ' ' || c = '\t'

/-- The characters that mean something where they are not quoted. -/
def isSpecial (c : Char) : Bool :=
  c ∈ ['|', '&', ';', '<', '>', '(', ')', '$', Char.ofNat 96, '\\', '"', '\'', ' ', '\t', '\n', '*', '?', '[', '#', '~', '=',
    '%', '\x7b', '\x7d', '!']

/-- The characters that a backslash quotes between double quotes. -/
def isDoubleSpecial (c : Char) : Bool := c ∈ ['$', Char.ofNat 96, '"', '\\', '\n']

/-- Where a character leads, or `none` where it asks for more than splitting. -/
def Splitter.step (s : Splitter) (c : Char) : Option Splitter :=
  match s.quoting with
  | .plain =>
    if c = '\'' then some (s.quote .single)
    else if c = '"' then some (s.quote .double)
    else if c = '\\' then some { s with quoting := .escaped }
    else if isBlank c then some s.cut
    else if isSpecial c then none
    else some (s.put [c])
  | .escaped =>
    -- a quoted line break is no part of the word
    if c = '\n' then some { s with quoting := .plain } else some { s.put [c] with quoting := .plain }
  | .single => if c = '\'' then some { s with quoting := .plain } else some (s.put [c])
  | .double =>
    if c = '"' then some { s with quoting := .plain }
    else if c = '\\' then some { s with quoting := .doubleEscaped }
    else if isDoubleSpecial c && c != '\n' then none
    else some (s.put [c])
  | .doubleEscaped =>
    if c = '\n' then some { s with quoting := .double }
    else some { s.put (if isDoubleSpecial c then [c] else ['\\', c]) with quoting := .double }

def Splitter.run (s : Splitter) (text : Text) : Option Splitter := text.foldlM Splitter.step s

/-- The words at the end of a command, where no quote is left open. -/
def Splitter.finish (s : Splitter) : Option (List Text) := if s.quoting = .plain then some s.cut.words else none

def splitWords (command : Text) : Option (List Text) := (Splitter.run {} command).bind Splitter.finish

section
variable {s : Splitter} {word text : Text}

theorem run_append (s : Splitter) (first second : Text) :
    s.run (first ++ second) = (s.run first).bind fun s' => s'.run second := List.foldlM_append

theorem run_cons (s : Splitter) (c : Char) (rest : Text) : s.run (c :: rest) = (s.step c).bind fun s' => s'.run rest :=
  List.foldlM_cons

def inside (quoting : Quoting) (words : List Text) (word : Text) : Splitter := ⟨quoting, some word, words⟩

theorem step_single {c : Char} (other : c ≠ '\'') (words : List Text) (word : Text) :
    (inside .single words word).step c = some (inside .single words (word ++ [c])) := by
  show (if c = '\'' then _ else _) = _
  rw [if_neg other]
  rfl

end

/-! ### Arguments

Some characters mean something only at the start of a word, and some only where the name of the command
is expected. -/

/-- The characters of operators, expansions and patterns. -/
def isActive (c : Char) : Bool := c ∈ ['|', '&', ';', '<', '>', '(', ')', '$', Char.ofNat 96, '\n', '*', '?', '[']

/-- The characters of comments and home directories. -/
def opensWord (c : Char) : Bool := c = '#' || c = '~'

/-- The characters of assignments and reserved words. -/
def marksCommand (c : Char) : Bool := c ∈ ['=', '\x7b', '\x7d', '!']

def isQuote (c : Char) : Bool := c = '\'' || c = '"' || c = '\\'

def Splitter.meansMore (s : Splitter) (c : Char) : Bool :=
  isActive c || (s.word.isNone && opensWord c) || (s.words.isEmpty && marksCommand c)

/-- `Splitter.step`, which refuses a character only where it means something. -/
def Splitter.stepArgument (s : Splitter) (c : Char) : Option Splitter :=
  match s.quoting with
  | .plain =>
    if isQuote c || isBlank c then s.step c
    else if s.meansMore c then none
    else some (s.put [c])
  | _ => s.step c

def Splitter.runArguments (s : Splitter) (text : Text) : Option Splitter := text.foldlM Splitter.stepArgument s

/-- The words of a command and its arguments. -/
def argumentWords (command : Text) : Option (List Text) := (Splitter.runArguments {} command).bind Splitter.finish

example : argumentWords "curl -X A=B 'it'\\''s' \\\n  -H a#b" =
    some (["curl", "-X", "A=B", "it's", "-H", "a#b"] : List Text) := by decide

theorem runArguments_append (s : Splitter) (first second : Text) :
    s.runArguments (first ++ second) = (s.runArguments first).bind fun s' => s'.runArguments second := List.foldlM_append

theorem runArguments_cons (s : Splitter) (c : Char) (rest : Text) :
    s.runArguments (c :: rest) = (s.stepArgument c).bind fun s' => s'.runArguments rest := List.foldlM_cons

/-- How many characters a state may still put besides its next one. -/
def Splitter.owed (s : Splitter) : Nat := if s.quoting = .doubleEscaped then 1 else 0

/-- What a step can do: nothing but a change of the quoting, which a space never does; putting its
character, with a backslash when one was kept back; or ending a word. -/
theorem stepArgument_cases {s s' : Splitter} {c : Char} (stepped : s.stepArgument c = some s') :
    (s'.words = s.words ∧ s'.word.getD [] = s.word.getD [] ∧ c ≠ ' ' ∧ (s'.quoting = .doubleEscaped → s.quoting = .double) ∧
      (s'.word = none → s.word = none) ∧ (s'.word = none → s.quoting = .plain → c = '\\' ∧ s'.quoting = .escaped) ∧
      (s.quoting = .escaped → c = '\n')) ∨
    (∃ added, s'.words = s.words ∧ s'.word = some (s.word.getD [] ++ added) ∧ s'.quoting ≠ .doubleEscaped ∧
      (added = [c] ∨ s.quoting = .doubleEscaped ∧ added = ['\\', c]) ∧
      (s.quoting = .plain → s'.quoting = .plain ∧ isQuote c = false ∧ isBlank c = false ∧ s.meansMore c = false)) ∨
    (s.quoting = .plain ∧ isBlank c = true ∧ s' = s.cut) := by
  obtain ⟨quoting, word, words⟩ := s
  cases quoting with
  | plain =>
    simp only [Splitter.stepArgument, Splitter.step] at stepped
    split_ifs at stepped with marked single double backslash blank special more
    · obtain rfl := Option.some.inj stepped
      exact .inl ⟨rfl, rfl, by rw [single]; decide, nofun, nofun, nofun, nofun⟩
    · obtain rfl := Option.some.inj stepped
      exact .inl ⟨rfl, rfl, by rw [double]; decide, nofun, nofun, nofun, nofun⟩
    · obtain rfl := Option.some.inj stepped
      exact .inl ⟨rfl, rfl, by rw [backslash]; decide, nofun, id, fun _ _ => ⟨backslash, rfl⟩, nofun⟩
    · obtain rfl := Option.some.inj stepped
      exact .inr (.inr ⟨rfl, blank, rfl⟩)
    · simp [isQuote, single, double, backslash, blank] at marked
    · obtain rfl := Option.some.inj stepped
      simp only [Bool.or_eq_true, not_or, Bool.not_eq_true] at marked
      exact .inr (.inl ⟨[c], rfl, rfl, nofun, .inl rfl, fun _ => ⟨rfl, marked.1, marked.2, by simpa using more⟩⟩)
  | escaped =>
    simp only [Splitter.stepArgument, Splitter.step] at stepped
    split_ifs at stepped with newline
    · obtain rfl := Option.some.inj stepped
      exact .inl ⟨rfl, rfl, by rw [newline]; decide, nofun, id, nofun, fun _ => newline⟩
    · obtain rfl := Option.some.inj stepped
      exact .inr (.inl ⟨[c], rfl, rfl, nofun, .inl rfl, nofun⟩)
  | single =>
    simp only [Splitter.stepArgument, Splitter.step] at stepped
    split_ifs at stepped with closed
    · obtain rfl := Option.some.inj stepped
      exact .inl ⟨rfl, rfl, by rw [closed]; decide, nofun, id, nofun, nofun⟩
    · obtain rfl := Option.some.inj stepped
      exact .inr (.inl ⟨[c], rfl, rfl, nofun, .inl rfl, nofun⟩)
  | double =>
    simp only [Splitter.stepArgument, Splitter.step] at stepped
    split_ifs at stepped with closed backslash special
    · obtain rfl := Option.some.inj stepped
      exact .inl ⟨rfl, rfl, by rw [closed]; decide, nofun, id, nofun, nofun⟩
    · obtain rfl := Option.some.inj stepped
      exact .inl ⟨rfl, rfl, by rw [backslash]; decide, fun _ => rfl, id, nofun, nofun⟩
    · obtain rfl := Option.some.inj stepped
      exact .inr (.inl ⟨[c], rfl, rfl, nofun, .inl rfl, nofun⟩)
  | doubleEscaped =>
    simp only [Splitter.stepArgument, Splitter.step] at stepped
    split_ifs at stepped with newline special
    · obtain rfl := Option.some.inj stepped
      exact .inl ⟨rfl, rfl, by rw [newline]; decide, nofun, id, nofun, nofun⟩
    · obtain rfl := Option.some.inj stepped
      exact .inr (.inl ⟨[c], rfl, rfl, nofun, .inl rfl, nofun⟩)
    · obtain rfl := Option.some.inj stepped
      exact .inr (.inl ⟨['\\', c], rfl, rfl, nofun, .inr ⟨rfl, rfl⟩, nofun⟩)

/-- The words that were ended stay. -/
theorem words_kept {s : Splitter} {text : Text} {words : List Text}
    (split : (s.runArguments text).bind Splitter.finish = some words) : s.words <+: words := by
  induction text generalizing s with
  | nil =>
    obtain ⟨s', ran, finished⟩ := Option.bind_eq_some_iff.mp split
    obtain rfl := Option.some.inj ran
    unfold Splitter.finish at finished
    split at finished
    · obtain rfl := Option.some.inj finished
      unfold Splitter.cut
      split
      · exact List.prefix_rfl
      · exact List.prefix_append ..
    · cases finished
  | cons c rest ih =>
    rw [runArguments_cons] at split
    cases stepped : s.stepArgument c with
    | none => simp [stepped] at split
    | some s' =>
      rw [stepped, Option.bind_some] at split
      have later := ih split
      rcases stepArgument_cases stepped with ⟨same, -⟩ | ⟨_, same, -⟩ | ⟨-, -, rfl⟩
      · rwa [← same]
      · rwa [← same]
      · refine List.IsPrefix.trans ?_ later
        unfold Splitter.cut
        split
        · exact List.prefix_rfl
        · exact List.prefix_append ..

/-- A word that was begun is only continued. -/
theorem word_kept {s : Splitter} {word text : Text} {words : List Text} (begun : s.word = some word)
    (split : (s.runArguments text).bind Splitter.finish = some words) :
    ∃ whole rest, words = s.words ++ whole :: rest ∧ word <+: whole := by
  induction text generalizing s word with
  | nil =>
    obtain ⟨s', ran, finished⟩ := Option.bind_eq_some_iff.mp split
    obtain rfl := Option.some.inj ran
    unfold Splitter.finish Splitter.cut at finished
    rw [begun] at finished
    split at finished
    · exact ⟨word, [], (Option.some.inj finished).symm, List.prefix_rfl⟩
    · cases finished
  | cons c rest ih =>
    rw [runArguments_cons] at split
    cases stepped : s.stepArgument c with
    | none => simp [stepped] at split
    | some s' =>
      rw [stepped, Option.bind_some] at split
      rcases stepArgument_cases stepped with ⟨same, word', -, -, opened, -⟩ | ⟨added, same, word', -⟩ | ⟨-, -, rfl⟩
      · cases begun' : s'.word with
        | none => simp [opened begun'] at begun
        | some other =>
          rw [begun', begun] at word'
          obtain rfl : other = word := word'
          rw [← same]
          exact ih begun' split
      · rw [begun] at word'
        obtain ⟨whole, more, rfl, grown⟩ := ih word' split
        rw [← same]
        exact ⟨whole, more, rfl, (List.prefix_append ..).trans grown⟩
      · have ended := words_kept split
        unfold Splitter.cut at ended
        rw [begun] at ended
        obtain ⟨more, rfl⟩ := ended
        exact ⟨word, more, by simp, List.prefix_rfl⟩

/-! ### Words that are taken as they are -/

/-- A word that means nothing more as an argument. -/
def IsPlainWord (word : Text) : Prop :=
  (∀ c ∈ word, isQuote c = false ∧ isBlank c = false ∧ isActive c = false) ∧ ∀ c ∈ word.head?, opensWord c = false

theorem isPlainWord_of_all {word : Text} (inside : (word.all fun c => !isQuote c && !isBlank c && !isActive c) = true)
    (first : (word.head?.all fun c => !opensWord c) = true) : IsPlainWord word := by
  refine ⟨fun c member => ?_, fun c head => ?_⟩
  · simpa [and_assoc] using List.all_eq_true.mp inside c member
  · rw [Option.mem_def.mp head] at first
    simpa using first

/-- Where nothing but the command has to come before it, a plain word is taken as it is. -/
theorem runArguments_plainWord {words : List Text} (after : words ≠ []) {text : Text} (plain : IsPlainWord text) :
    Splitter.runArguments ⟨.plain, none, words⟩ text = some ⟨.plain, if text.isEmpty then none else some text, words⟩ := by
  induction text using List.reverseRecOn with
  | nil => rfl
  | append_singleton text c ih =>
    obtain ⟨quote, blank, active⟩ := plain.1 c (List.mem_append_right _ List.mem_cons_self)
    have front : IsPlainWord text := by
      refine ⟨fun d member => plain.1 d (List.mem_append_left _ member), fun d first => plain.2 d ?_⟩
      rw [List.head?_append, first]
      rfl
    have opens : ((if text.isEmpty then none else some text : Option Text).isNone && opensWord c) = false := by
      cases text with
      | nil => exact plain.2 c rfl
      | cons d rest => rfl
    rw [runArguments_append, ih front, Option.bind_some, runArguments_cons]
    simp only [Splitter.stepArgument, Splitter.meansMore, quote, blank, active, opens, List.isEmpty_eq_false_iff.mpr after,
      Bool.or_self, Bool.false_and, Bool.false_eq_true, if_false, Option.bind_some]
    cases text <;> rfl

/-- The argument begins with a line break that is quoted, or with a blank. -/
def Skips (text : Text) : Prop := (['\\', '\n'] : Text) <+: text ∨ ∃ c ∈ text.head?, isBlank c = true

/-- Each space of the text is an earlier space of the word. -/
def SpacesBehind (text word : Text) : Prop := ∀ i : Nat, text[i]? = some ' ' → ∃ j : Nat, j < i ∧ word[j]? = some ' '

/-- Where an argument leads: it is taken as it is, or its word has fallen behind, or was ended before. -/
inductive Reads (words : List Text) : Text → Splitter → Prop
  | verbatim {text : Text} (plain : IsPlainWord text) : Reads words text ⟨.plain, if text.isEmpty then none else some text, words⟩
  | behind {text : Text} {s : Splitter} (same : s.words = words) (short : (s.word.getD []).length + s.owed < text.length)
      (spaces : ¬ Skips text → SpacesBehind text (s.word.getD []) ∧ (s.word = none → text = ['\\'] ∧ s.quoting = .escaped)) :
      Reads words text s
  | past {text word : Text} {s : Splitter} (ended : words ++ [word] <+: s.words) (short : word.length < text.length) :
      Reads words text s

theorem skips_append {text : Text} (c : Char) (skips : Skips text) : Skips (text ++ [c]) := by
  rcases skips with ⟨rest, rfl⟩ | ⟨d, first, blank⟩
  · exact .inl ⟨rest ++ [c], by simp⟩
  · cases text with
    | nil => cases first
    | cons d rest => exact .inr ⟨_, first, blank⟩

theorem spacesBehind_other {text word : Text} {c : Char} (other : c ≠ ' ') (behind : SpacesBehind text word) :
    SpacesBehind (text ++ [c]) word := by
  intro i space
  rw [List.getElem?_append] at space
  split at space
  · exact behind i space
  · obtain ⟨_, isSpace⟩ := List.getElem?_eq_some_iff.mp space
    exact absurd (by simpa using isSpace) other

theorem spacesBehind_put {text word added : Text} {c : Char} (behind : SpacesBehind text word)
    (space : c = ' ' → ∃ j < text.length, (word ++ added)[j]? = some ' ') : SpacesBehind (text ++ [c]) (word ++ added) := by
  intro i found
  rw [List.getElem?_append] at found
  split at found
  · obtain ⟨j, before, there⟩ := behind i found
    refine ⟨j, before, ?_⟩
    obtain ⟨inside, -⟩ := List.getElem?_eq_some_iff.mp there
    rw [List.getElem?_append_left inside, there]
  · next beyond =>
    obtain ⟨_, isSpace⟩ := List.getElem?_eq_some_iff.mp found
    obtain ⟨j, before, there⟩ := space (by simpa using isSpace)
    exact ⟨j, by omega, there⟩

theorem owed_zero {s : Splitter} (other : s.quoting ≠ .doubleEscaped) : s.owed = 0 := if_neg other

theorem reads_step {words : List Text} {text : Text} {s s' : Splitter} {c : Char}
    (reads : Reads words text s) (stepped : s.stepArgument c = some s') : Reads words (text ++ [c]) s' := by
  have longer : (text ++ [c]).length = text.length + 1 := by simp
  cases reads with
  | past ended short =>
    refine .past (ended.trans ?_) (by omega)
    rcases stepArgument_cases stepped with ⟨same, -⟩ | ⟨_, same, -⟩ | ⟨-, -, rfl⟩
    · rw [same]
    · rw [same]
    · unfold Splitter.cut
      split
      · exact List.prefix_rfl
      · exact List.prefix_append ..
  | verbatim plain =>
    have word : (if text.isEmpty then none else some text).getD [] = text := by cases text <;> rfl
    rcases stepArgument_cases stepped with ⟨same, word', other, double, opened, begun, -⟩ |
        ⟨added, same, word', -, put, taken⟩ | ⟨-, blank, rfl⟩
    · rw [word] at word'
      refine .behind same ?_ fun _ => ⟨?_, fun none => ?_⟩
      · rw [word', owed_zero fun pending => nomatch double pending]
        omega
      · rw [word']
        refine spacesBehind_other other fun i space => ?_
        exact absurd (plain.1 ' ' (List.mem_of_getElem? space)).2.1 (by decide)
      · obtain ⟨rfl, escaped⟩ := begun none rfl
        have empty : text = [] := by simpa using opened none
        exact ⟨by rw [empty]; rfl, escaped⟩
    · obtain ⟨stays, quote, blank, more⟩ := taken rfl
      obtain rfl := put.resolve_right fun pending => nomatch pending.1
      rw [word] at word'
      have verbatim : s' = ⟨.plain, if (text ++ [c]).isEmpty then none else some (text ++ [c]), words⟩ := by
        cases s'
        simp_all
      rw [verbatim]
      simp only [Splitter.meansMore, Bool.or_eq_false_iff] at more
      refine .verbatim ⟨List.forall_mem_append.mpr ⟨plain.1, by simpa using ⟨quote, blank, more.1.1⟩⟩, ?_⟩
      cases text with
      | nil => simpa using more.1.2
      | cons first rest => exact plain.2
    · cases text with
      | nil => exact .behind rfl (by simp [Splitter.cut, Splitter.owed]) fun skips => absurd (.inr ⟨c, rfl, blank⟩) skips
      | cons first rest => exact .past List.prefix_rfl (by simp)
  | behind same short spaces =>
    have inherited : ¬ Skips (text ++ [c]) → ¬ Skips text := fun skips before => skips (skips_append c before)
    rcases stepArgument_cases stepped with ⟨same', word', other, double, opened, -, newline⟩ |
        ⟨added, same', word', settled, put, -⟩ | ⟨plain, blank, rfl⟩
    · refine .behind (same'.trans same) ?_ fun skips => ⟨?_, fun none => ?_⟩
      · rw [word', longer]
        by_cases pending : s'.quoting = .doubleEscaped
        · rw [Splitter.owed, if_pos pending]
          omega
        · rw [owed_zero pending]
          omega
      · rw [word']
        exact spacesBehind_other other (spaces (inherited skips)).1
      · obtain ⟨rfl, escaped⟩ := (spaces (inherited skips)).2 (opened none)
        obtain rfl := newline escaped
        exact absurd (.inl List.prefix_rfl) skips
    · have room : (s.word.getD []).length + added.length ≤ text.length := by
        rcases put with rfl | ⟨pending, rfl⟩
        · rw [List.length_singleton]
          omega
        · rw [Splitter.owed, if_pos pending] at short
          show _ + 2 ≤ _
          omega
      refine .behind (same'.trans same) ?_ fun skips => ⟨?_, fun none => ?_⟩
      · rw [word', owed_zero settled, Option.getD_some, List.length_append]
        omega
      · rw [word']
        refine spacesBehind_put (spaces (inherited skips)).1 fun space => ?_
        rcases put with rfl | ⟨-, rfl⟩
        · exact ⟨(s.word.getD []).length, room, by simp [space]⟩
        · exact ⟨(s.word.getD []).length + 1, room, by simp [space]⟩
      · rw [none] at word'
        cases word'
    · cases begun : s.word with
      | none =>
        have same_ : s.cut = s := by rw [Splitter.cut, begun]
        rw [same_]
        refine .behind same (by omega) fun skips => ?_
        have escaped := ((spaces (inherited skips)).2 begun).2
        rw [plain] at escaped
        cases escaped
      | some word =>
        rw [begun] at short
        refine @Reads.past _ _ word _ ?_ (by simp at short ⊢; omega)
        rw [Splitter.cut, begun, same]

/-- Where an argument leads that follows the words before it. -/
theorem reads_run {words : List Text} {text : Text} : ∀ {s : Splitter}, Splitter.runArguments ⟨.plain, none, words⟩ text = some s →
    Reads words text s := by
  induction text using List.reverseRecOn with
  | nil =>
    intro s ran
    obtain rfl := Option.some.inj ran
    exact .verbatim ⟨by simp, by simp⟩
  | append_singleton text c ih =>
    intro s ran
    rw [runArguments_append] at ran
    obtain ⟨before, first, last⟩ := Option.bind_eq_some_iff.mp ran
    rw [runArguments_cons] at last
    obtain ⟨after, stepped, done⟩ := Option.bind_eq_some_iff.mp last
    obtain rfl := Option.some.inj done
    exact reads_step (ih first) stepped

theorem not_past {words others : List Text} {text word : Text} {s : Splitter} {tail : Text} (ended : words ++ [word] <+: s.words)
    (short : word.length < text.length) :
    (s.runArguments tail).bind Splitter.finish ≠ some (words ++ text :: others) := by
  intro split
  obtain ⟨more, same⟩ := ended.trans (words_kept split)
  rw [List.append_assoc] at same
  have := (List.cons.inj (List.append_cancel_left same)).1
  rw [this] at short
  omega

theorem not_space_of_earlier {text : Text} (earlier : SpacesBehind text text) (i : Nat) : text[i]? ≠ some ' ' := by
  induction i using Nat.strongRecOn with
  | ind i ih =>
    intro there
    obtain ⟨j, before, inside⟩ := earlier i there
    exact ih j before inside

/-- An argument that is split off as it stands, and is followed by a space, is plain. -/
theorem isPlainWord_of_split {words others : List Text} {text tail : Text} (begins : ¬ Skips text)
    (split : (Splitter.runArguments ⟨.plain, none, words⟩ (text ++ ' ' :: tail)).bind Splitter.finish =
      some (words ++ text :: others)) : IsPlainWord text := by
  rw [runArguments_append] at split
  obtain ⟨last, ran, finished⟩ := Option.bind_eq_some_iff.mp split
  obtain ⟨s, first, rest⟩ := Option.bind_eq_some_iff.mp ran
  have whole : (s.runArguments (' ' :: tail)).bind Splitter.finish = some (words ++ text :: others) := by
    rw [rest, Option.bind_some, finished]
  cases reads_run first with
  | verbatim plain => exact plain
  | past ended short => exact absurd whole (not_past ended short)
  | behind same short spaces =>
    rw [runArguments_cons] at whole
    obtain ⟨final, ran', finished'⟩ := Option.bind_eq_some_iff.mp whole
    obtain ⟨s', stepped, rest'⟩ := Option.bind_eq_some_iff.mp ran'
    have after : (s'.runArguments tail).bind Splitter.finish = some (words ++ text :: others) := by
      rw [rest', Option.bind_some, finished']
    obtain ⟨behind, unbegun⟩ := spaces begins
    rcases stepArgument_cases stepped with ⟨-, -, other, -⟩ | ⟨added, same', word', -, put, -⟩ | ⟨plain, -, rfl⟩
    · exact absurd rfl other
    · obtain ⟨found, more, same'', grown⟩ := word_kept word' after
      rw [same', same] at same''
      obtain ⟨rfl, -⟩ := List.cons.inj (List.append_cancel_left same'')
      have space : ' ' ∈ added := by
        rcases put with same | ⟨-, same⟩ <;> simp [same]
      obtain ⟨i, _, there⟩ := List.getElem_of_mem (grown.subset (List.mem_append_right _ space))
      have earlier : SpacesBehind text text := by
        intro i there
        obtain ⟨j, before, inside⟩ := behind i there
        obtain ⟨within, -⟩ := List.getElem?_eq_some_iff.mp inside
        obtain ⟨more', rfl⟩ := (List.prefix_append ..).trans grown
        exact ⟨j, before, by rw [List.getElem?_append_left within, inside]⟩
      exact absurd (List.getElem?_eq_some_iff.mpr ⟨_, there⟩) (not_space_of_earlier earlier i)
    · cases begun : s.word with
      | none =>
        rw [(unbegun begun).2] at plain
        cases plain
      | some word =>
        rw [begun] at short
        refine absurd after (@not_past _ _ _ word _ _ ?_ (by simp at short; omega))
        rw [Splitter.cut, begun, same]

/-- A text that is not plain is not split off before an empty argument. -/
theorem isPlainWord_of_split_empty {words : List Text} {text : Text}
    (split : (Splitter.runArguments ⟨.plain, none, words⟩ (text ++ " ''")).bind Splitter.finish = some (words ++ [text, []])) :
    IsPlainWord text := by
  rw [runArguments_append] at split
  obtain ⟨last, ran, finished⟩ := Option.bind_eq_some_iff.mp split
  obtain ⟨s, first, rest⟩ := Option.bind_eq_some_iff.mp ran
  have whole : (s.runArguments " ''").bind Splitter.finish = some (words ++ [text, []]) := by
    rw [rest, Option.bind_some, finished]
  cases reads_run first with
  | verbatim plain => exact plain
  | past ended short => exact absurd whole (not_past ended short)
  | behind same short spaces =>
    obtain ⟨quoting, word, _⟩ := s
    obtain rfl := same
    cases quoting with
    | plain =>
      cases word with
      | none =>
        have counted := congrArg List.length (Option.some.inj whole)
        simp [Splitter.cut, Splitter.quote] at counted
      | some word =>
        have ended := (List.append_assoc ..).symm.trans (Option.some.inj whole)
        simp [Splitter.cut] at ended
        obtain ⟨rfl, -⟩ := ended
        exact absurd short (Nat.not_lt.mpr (Nat.le_add_right ..))
    | escaped =>
      have counted := congrArg List.length (Option.some.inj whole)
      simp [Splitter.put, Splitter.cut, Splitter.quote] at counted
    | single => cases whole
    | double => cases whole
    | doubleEscaped => cases whole

end MqBridge.Shell
