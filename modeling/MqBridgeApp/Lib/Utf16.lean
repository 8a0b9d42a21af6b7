import MqBridgeApp.Lib.JsonText

/-!
# UTF-16

A text as the units in which JavaScript counts and cuts it, and the strings of JSON as they are read from
units.
-/

namespace MqBridge.Utf16

/-- UTF-16 units, by their numbers. -/
abbrev Units := List Nat

def ofChar (c : Char) : Units :=
  if c.toNat < 0x10000 then [c.toNat]
  else [0xD800 + (c.toNat - 0x10000) / 0x400, 0xDC00 + (c.toNat - 0x10000) % 0x400]

def ofText (text : Text) : Units := text.flatMap ofChar

/-- The code point that begins with a unit. A unit that is paired with none is taken for one itself. -/
def codePoint (first : Nat) : Units → Nat
  | second :: _ =>
    if 0xD800 ≤ first ∧ first < 0xDC00 ∧ 0xDC00 ≤ second ∧ second < 0xE000 then
      0x10000 + (first - 0xD800) * 0x400 + (second - 0xDC00)
    else first
  | [] => first

theorem ofText_cons (c : Char) (rest : Text) : ofText (c :: rest) = ofChar c ++ ofText rest := List.flatMap_cons

theorem ofText_append (a b : Text) : ofText (a ++ b) = ofText a ++ ofText b := List.flatMap_append

theorem toNat_scalar (c : Char) : c.toNat < 0xD800 ∨ 0xE000 ≤ c.toNat ∧ c.toNat < 0x110000 := by
  rcases c.valid with low | ⟨above, below⟩
  · exact .inl low
  · exact .inr ⟨above, below⟩

theorem ascii_le_of_mem {c : Char} (other : 0x80 ≤ c.toNat) : ∀ u ∈ ofChar c, 0x80 ≤ u := by
  intro u member
  unfold ofChar at member
  split at member
  · rw [List.mem_singleton.mp member]
    exact other
  · simp only [List.mem_cons, List.not_mem_nil, or_false] at member
    omega

theorem ofChar_ascii {c : Char} (ascii : c.toNat < 0x80) : ofChar c = [c.toNat] := if_pos (by omega)

theorem codePoint_ofChar (c : Char) (rest : Units) :
    ∃ first others, ofChar c = first :: others ∧ codePoint first (others ++ rest) = c.toNat ∧
      others.length = if 0xFFFF < c.toNat then 1 else 0 := by
  have scalar := toNat_scalar c
  unfold ofChar
  split
  · next small =>
    refine ⟨_, [], rfl, ?_, by rw [if_neg (by omega)]; rfl⟩
    cases rest with
    | nil => rfl
    | cons second rest => exact if_neg (by omega)
  · next large =>
    refine ⟨_, _, rfl, ?_, by rw [if_pos (by omega)]; rfl⟩
    rw [List.cons_append, codePoint, if_pos (by omega)]
    omega

theorem ofText_injective : ∀ {a b : Text}, ofText a = ofText b → a = b
  | [], [], _ => rfl
  | [], c :: _, same => by
    obtain ⟨first, others, units, -⟩ := codePoint_ofChar c []
    rw [ofText_cons, units] at same
    cases same
  | c :: _, [], same => by
    obtain ⟨first, others, units, -⟩ := codePoint_ofChar c []
    rw [ofText_cons, units] at same
    cases same
  | c :: a, d :: b, same => by
    rw [ofText_cons, ofText_cons] at same
    obtain ⟨first, others, units, point, -⟩ := codePoint_ofChar c (ofText a)
    obtain ⟨first', others', units', point', -⟩ := codePoint_ofChar d (ofText b)
    have whole := same
    rw [units, units', List.cons_append, List.cons_append] at whole
    obtain ⟨rfl, behind⟩ := List.cons.inj whole
    obtain rfl : c = d := Char.toNat_inj.mp (by rw [← point, ← point', behind])
    rw [ofText_injective (List.append_cancel_left same)]

def hexUnit (u : Nat) : Option Nat :=
  if '0'.toNat ≤ u ∧ u ≤ '9'.toNat then some (u - '0'.toNat)
  else if 'a'.toNat ≤ u ∧ u ≤ 'f'.toNat then some (u - 'a'.toNat + 10)
  else if 'A'.toNat ≤ u ∧ u ≤ 'F'.toNat then some (u - 'A'.toNat + 10)
  else none

def escapedUnits (a b c d : Nat) : Option Nat :=
  match hexUnit a, hexUnit b, hexUnit c, hexUnit d with
  | some a, some b, some c, some d => some (((a * 16 + b) * 16 + c) * 16 + d)
  | _, _, _, _ => none

/-- What a backslash and a unit stand for. -/
def simpleEscape (u : Nat) : Option Nat :=
  (([('"', '"'), ('\\', '\\'), ('/', '/'), ('b', '\x08'), ('f', '\x0c'), ('n', '\n'), ('r', '\r'), ('t', '\t')] :
    List (Char × Char)).find? fun escape => escape.1.toNat == u).map fun escape => escape.2.toNat

/-- The rest of a string after its opening quote, which has to end with the units. -/
def readString : Units → Option Units
  | [] => none
  | u :: rest =>
    if u = '"'.toNat then if rest.isEmpty then some [] else none
    else if u < 0x20 then none
    else if u = '\\'.toNat then
      match rest with
      | [] => none
      | e :: rest =>
        if e = 'u'.toNat then
          match rest with
          | a :: b :: c :: d :: rest =>
            match escapedUnits a b c d with
            | some unit => (readString rest).map (unit :: ·)
            | none => none
          | _ => none
        else
          match simpleEscape e with
          | some unit => (readString rest).map (unit :: ·)
          | none => none
    else (readString rest).map (u :: ·)

/-- `JSON.parse(literal)`, where the literal is a string -/
def parseString : Units → Option Units
  | u :: rest => if u = '"'.toNat then readString rest else none
  | [] => none

theorem readString_plain {u : Nat} (plain : u ≠ '"'.toNat ∧ 0x20 ≤ u ∧ u ≠ '\\'.toNat) (rest : Units) :
    readString (u :: rest) = (readString rest).map (u :: ·) := by
  rw [readString.eq_def]
  dsimp only
  rw [if_neg plain.1, if_neg (Nat.not_lt.mpr plain.2.1), if_neg plain.2.2]

theorem readString_units {units : Units} (plain : ∀ u ∈ units, u ≠ '"'.toNat ∧ 0x20 ≤ u ∧ u ≠ '\\'.toNat) (rest : Units) :
    readString (units ++ rest) = (readString rest).map (units ++ ·) := by
  induction units with
  | nil => simp
  | cons u units ih =>
    rw [List.cons_append, readString_plain (plain u List.mem_cons_self),
      ih fun v member => plain v (List.mem_cons_of_mem _ member), Option.map_map]
    rfl

theorem hexUnit_hexDigit : ∀ n < 16, hexUnit (Json.hexDigit n).toNat = some n := by decide

theorem hexDigit_ascii : ∀ n < 16, (Json.hexDigit n).toNat < 0x80 := by decide

/-- What is written for a character is read as its units. -/
theorem readString_escapeChar (c : Char) (rest : Units) :
    readString (ofText (Json.escapeChar c) ++ rest) = (readString rest).map (ofChar c ++ ·) := by
  have simple : ∀ d : Char, d ≠ 'u' → d.toNat < 0x80 → simpleEscape d.toNat = some c.toNat → c.toNat < 0x80 →
      readString (ofText ['\\', d] ++ rest) = (readString rest).map (ofChar c ++ ·) := by
    intro d other ascii stands small
    rw [ofText_cons, ofText_cons, ofChar_ascii (by decide), ofChar_ascii ascii, ofChar_ascii small]
    have unit : d.toNat ≠ 'u'.toNat := fun same => other (Char.toNat_inj.mp same)
    show readString ('\\'.toNat :: d.toNat :: rest) = _
    rw [readString.eq_def]
    dsimp only
    rw [if_neg (by decide), if_neg (by decide), if_pos rfl, if_neg unit, stands]
    rfl
  unfold Json.escapeChar
  by_cases quote : c = '"'
  · subst quote
    exact simple '"' (by decide) (by decide) (by decide) (by decide)
  by_cases slash : c = '\\'
  · subst slash
    exact simple '\\' (by decide) (by decide) (by decide) (by decide)
  by_cases newline : c = '\n'
  · subst newline
    exact simple 'n' (by decide) (by decide) (by decide) (by decide)
  by_cases carriage : c = '\r'
  · subst carriage
    exact simple 'r' (by decide) (by decide) (by decide) (by decide)
  by_cases tab : c = '\t'
  · subst tab
    exact simple 't' (by decide) (by decide) (by decide) (by decide)
  by_cases backspace : c = '\x08'
  · subst backspace
    exact simple 'b' (by decide) (by decide) (by decide) (by decide)
  by_cases feed : c = '\x0c'
  · subst feed
    exact simple 'f' (by decide) (by decide) (by decide) (by decide)
  rw [if_neg quote, if_neg slash, if_neg newline, if_neg carriage, if_neg tab, if_neg backspace, if_neg feed]
  by_cases control : c.toNat < 32
  · have units : ofText ['\\', 'u', '0', '0', Json.hexDigit (c.toNat / 16), Json.hexDigit (c.toNat % 16)] =
        ['\\'.toNat, 'u'.toNat, '0'.toNat, '0'.toNat, (Json.hexDigit (c.toNat / 16)).toNat,
          (Json.hexDigit (c.toNat % 16)).toNat] := by
      simp only [ofText, List.flatMap_cons, List.flatMap_nil]
      rw [ofChar_ascii (hexDigit_ascii _ (by omega)), ofChar_ascii (hexDigit_ascii _ (by omega))]
      rfl
    have value : escapedUnits '0'.toNat '0'.toNat (Json.hexDigit (c.toNat / 16)).toNat (Json.hexDigit (c.toNat % 16)).toNat =
        some c.toNat := by
      rw [escapedUnits, hexUnit_hexDigit _ (by omega), hexUnit_hexDigit _ (by omega)]
      exact congrArg some (by show ((0 * 16 + 0) * 16 + c.toNat / 16) * 16 + c.toNat % 16 = c.toNat; omega)
    rw [if_pos control, units, ofChar_ascii (by omega)]
    show readString ('\\'.toNat :: 'u'.toNat :: '0'.toNat :: '0'.toNat :: _ :: _ :: rest) = _
    rw [readString, if_neg (by decide), if_neg (by decide), if_pos rfl, if_pos rfl, value]
    rfl
  · rw [if_neg control]
    show readString (ofChar c ++ [] ++ rest) = _
    rw [List.append_nil]
    refine readString_units ?_ rest
    by_cases ascii : c.toNat < 0x80
    · rw [ofChar_ascii ascii]
      intro u member
      rw [List.mem_singleton.mp member]
      exact ⟨fun same => quote (Char.toNat_inj.mp same), by omega, fun same => slash (Char.toNat_inj.mp same)⟩
    · intro u member
      have other := ascii_le_of_mem (Nat.not_lt.mp ascii) u member
      have : '"'.toNat = 34 := rfl
      have : '\\'.toNat = 92 := rfl
      omega

theorem readString_escaped (s : Text) : readString (ofText (Json.escaped s)) = some (ofText s) := by
  induction s with
  | nil => rfl
  | cons c rest ih =>
    rw [Json.escaped, ofText_append, readString_escapeChar, ih, ofText_cons]
    rfl

theorem parseString_renderString (s : Text) : parseString (ofText (Json.renderString s)) = some (ofText s) :=
  readString_escaped s

end MqBridge.Utf16
