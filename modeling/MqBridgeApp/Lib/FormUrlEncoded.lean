import Mathlib.Algebra.GroupWithZero.Nat
import MqBridgeApp.Lib.PercentEncoding

/-!
# Form decoding

A part of a form is decoded to bytes, each `%XX` to one, and the bytes are read as UTF-8 where every maximal
invalid part becomes one replacement character. A text decodes to what its percent-encoding decodes to, and
to no more bytes and no more characters than it has.
-/

namespace MqBridge.Form
open Text

/-- The second byte may follow the first one. -/
def follows (lead second : UInt8) : Bool :=
  let (low, high) :=
    if lead = 0xE0 then ((0xA0, 0xBF) : UInt8 × UInt8)
    else if lead = 0xED then (0x80, 0x9F)
    else if lead = 0xF0 then (0x90, 0xBF)
    else if lead = 0xF4 then (0x80, 0x8F)
    else (0x80, 0xBF)
  0xE0 ≤ lead && lead ≤ 0xF4 && low ≤ second && second ≤ high

/-- How many bytes one replacement character stands for, when no character can be read. -/
def invalidRun (lead : UInt8) : List UInt8 → Nat
  | second :: third :: _ =>
    if !follows lead second then 1
    else if 0xF0 ≤ lead && 0x80 ≤ third && third ≤ 0xBF then 3
    else 2
  | [second] => if follows lead second then 2 else 1
  | [] => 1

def replacement : Char := Char.ofNat 0xFFFD

/-- Reads the bytes after so many that have been read. -/
def lossyAfter : Nat → List UInt8 → Text
  | _, [] => []
  | skip + 1, _ :: bytes => lossyAfter skip bytes
  | 0, lead :: bytes =>
    match (lead :: bytes).toByteArray.utf8DecodeChar? 0 with
    | some c => c :: lossyAfter (c.utf8Size - 1) bytes
    | none => replacement :: lossyAfter (invalidRun lead bytes - 1) bytes

/-- `String::from_utf8_lossy` -/
def lossy (bytes : List UInt8) : Text := lossyAfter 0 bytes

def hexDigit? (c : Char) : Option Nat :=
  if c.isDigit then some (c.toNat - 48)
  else if 'A' ≤ c && c ≤ 'F' then some (c.toNat - 55)
  else if 'a' ≤ c && c ≤ 'f' then some (c.toNat - 87)
  else none

/-- A character of the text, or an escaped byte. -/
inductive Piece where
  | char (c : Char)
  | byte (b : UInt8)

def Piece.bytes : Piece → List UInt8
  | .char c => String.utf8EncodeChar c
  | .byte b => [b]

def pieces : Text → List Piece
  | '%' :: high :: low :: rest =>
    match hexDigit? high, hexDigit? low with
    | some h, some l => .byte (UInt8.ofNat (16 * h + l)) :: pieces rest
    | _, _ => .char '%' :: pieces (high :: low :: rest)
  | c :: rest => .char c :: pieces rest
  | [] => []

def percentDecode (text : Text) : List UInt8 := (pieces text).flatMap Piece.bytes

def decode (text : Text) : Text := lossy (percentDecode (replaceChar '+' ' ' text))

example : decode "a+b%2Bc%C3%A4%FF%E2%82" = ("a b+cä\uFFFD\uFFFD" : Text) := by decide

/-! ### What is read -/

theorem utf8DecodeChar_append (c : Char) (bytes : List UInt8) :
    (String.utf8EncodeChar c ++ bytes).toByteArray.utf8DecodeChar? 0 = some c := by
  rw [List.toByteArray_append]
  exact ByteArray.utf8DecodeChar?_utf8EncodeChar_append

theorem eq_of_utf8DecodeChar {bytes : List UInt8} {c : Char} (read : bytes.toByteArray.utf8DecodeChar? 0 = some c) :
    ∃ rest, bytes = String.utf8EncodeChar c ++ rest := by
  obtain ⟨rest, split⟩ := ByteArray.exists_of_utf8DecodeChar?_eq_some read
  refine ⟨rest.data.toList, ?_⟩
  have := congrArg (fun array : ByteArray => array.data.toList) split
  simpa using this

theorem lossyAfter_eq (skip : Nat) (bytes : List UInt8) : lossyAfter skip bytes = lossy (bytes.drop skip) := by
  induction skip generalizing bytes with
  | zero => rfl
  | succ skip ih =>
    cases bytes with
    | nil => rfl
    | cons _ bytes => exact ih bytes

/-- A byte inside a character, or in none. -/
def Inner (byte : UInt8) : Prop := ¬ byte.IsUTF8FirstByte

theorem utf8EncodeChar_cons (c : Char) : ∃ lead inner, String.utf8EncodeChar c = lead :: inner ∧
    lead.IsUTF8FirstByte ∧ (∀ byte ∈ inner, Inner byte) ∧ inner.length + 1 = c.utf8Size := by
  have size := String.length_utf8EncodeChar c
  have first := fun i (inside : i < (String.utf8EncodeChar c).length) =>
    @UInt8.isUTF8FirstByte_getElem_utf8EncodeChar c i inside
  generalize String.utf8EncodeChar c = bytes at size first
  cases bytes with
  | nil => exact absurd size (by have := c.utf8Size_pos; simp; omega)
  | cons lead inner =>
    refine ⟨lead, inner, rfl, (first 0 (by simp)).mpr rfl, fun byte member => ?_, by simpa using size⟩
    obtain ⟨i, inside, rfl⟩ := List.getElem_of_mem member
    have := first (i + 1) (by simpa using inside)
    simpa [Inner] using this

theorem inner_of_tail {byte : UInt8} (low : 0x80 ≤ byte) (high : byte ≤ 0xBF) : Inner byte := by
  have all : ∀ n : Fin 256, 0x80 ≤ UInt8.ofNat n → UInt8.ofNat n ≤ 0xBF → Inner (UInt8.ofNat n) := by
    unfold Inner
    decide +kernel
  have := all ⟨byte.toNat, UInt8.toNat_lt byte⟩
  rw [UInt8.ofNat_toNat] at this
  exact this low high

theorem inner_of_follows {lead second : UInt8} (after : follows lead second = true) : Inner second := by
  unfold follows at after
  simp only [Bool.and_eq_true, decide_eq_true_eq] at after
  obtain ⟨⟨-, low⟩, high⟩ := after
  have wide : (0x80 : UInt8) ≤ second ∧ second ≤ 0xBF := by
    split_ifs at low high <;> exact ⟨UInt8.le_trans (by decide) low, UInt8.le_trans high (by decide)⟩
  exact inner_of_tail wide.1 wide.2

theorem lossy_char (c : Char) (bytes : List UInt8) : lossy (String.utf8EncodeChar c ++ bytes) = c :: lossy bytes := by
  have read := utf8DecodeChar_append c bytes
  obtain ⟨lead, inner, encoded, -, -, size⟩ := utf8EncodeChar_cons c
  rw [encoded, List.cons_append] at read ⊢
  rw [lossy, lossyAfter, read]
  dsimp only
  rw [lossyAfter_eq, ← size, Nat.add_sub_cancel, List.drop_left]

/-- What is read at a byte: one character, for it and inner bytes that follow. -/
theorem lossy_cons (lead : UInt8) (bytes : List UInt8) :
    ∃ c inner rest, bytes = inner ++ rest ∧ (∀ byte ∈ inner, Inner byte) ∧ c.utf8Size ≤ 3 * (inner.length + 1) ∧
      lossy (lead :: bytes) = c :: lossy rest := by
  cases read : (lead :: bytes).toByteArray.utf8DecodeChar? 0 with
  | some c =>
    obtain ⟨rest, split⟩ := eq_of_utf8DecodeChar read
    obtain ⟨_, inner, encoded, -, tails, size⟩ := utf8EncodeChar_cons c
    have whole := lossy_char c rest
    rw [← split] at whole
    rw [encoded] at split
    exact ⟨c, inner, rest, (List.cons.inj split).2, tails, by omega, whole⟩
  | none =>
    have one : lossy (lead :: bytes) = replacement :: lossy (bytes.drop (invalidRun lead bytes - 1)) := by
      rw [lossy, lossyAfter, read]
      dsimp only
      rw [lossyAfter_eq]
    refine ⟨replacement, bytes.take (invalidRun lead bytes - 1), _, (List.take_append_drop ..).symm, ?_, ?_, one⟩
    · unfold invalidRun
      split
      · split_ifs with apart long
        · simp
        · simp only [Bool.and_eq_true, decide_eq_true_eq] at long
          have second := inner_of_follows (by simpa using apart)
          have third := inner_of_tail long.1.2 long.2
          simpa using ⟨second, third⟩
        · simpa using inner_of_follows (by simpa using apart)
      · split_ifs with apart
        · simpa using inner_of_follows apart
        · simp
      · simp
    · have three : replacement.utf8Size = 3 := by decide
      omega

/-! ### Weights

A weight of texts counts characters, each as at most its bytes. -/

structure Weight (weight : Char → Nat) : Prop where
  pos : ∀ c, 1 ≤ weight c
  le : ∀ c, weight c ≤ c.utf8Size

def weigh (weight : Char → Nat) (text : Text) : Nat := (text.map weight).sum

/-- The length of the UTF-8 form. -/
def byteSize : Text → Nat := weigh Char.utf8Size

def Piece.weigh (weight : Char → Nat) : Piece → Nat
  | .char c => weight c
  | .byte _ => 3

theorem escaped_of_inner : ∀ {inner rest : List UInt8} {all : List Piece}, (∀ byte ∈ inner, Inner byte) →
    all.flatMap Piece.bytes = inner ++ rest → ∃ others, all = inner.map .byte ++ others ∧ others.flatMap Piece.bytes = rest
  | [], rest, all, _, same => ⟨all, rfl, same⟩
  | byte :: inner, rest, [], _, same => by simp at same
  | byte :: inner, rest, .byte b :: all, tails, same => by
    simp only [List.flatMap_cons, Piece.bytes, List.cons_append, List.nil_append, List.cons.injEq] at same
    obtain ⟨rfl, same⟩ := same
    obtain ⟨others, rfl, left⟩ := escaped_of_inner (fun byte member => tails byte (.tail _ member)) same
    exact ⟨others, rfl, left⟩
  | byte :: inner, rest, .char c :: all, tails, same => by
    obtain ⟨lead, _, encoded, first, -⟩ := utf8EncodeChar_cons c
    simp only [List.flatMap_cons, Piece.bytes, encoded, List.cons_append, List.cons.injEq] at same
    exact absurd (same.1 ▸ first) (tails byte (.head _))

theorem weigh_lossy {weight : Char → Nat} (law : Weight weight) : ∀ all : List Piece,
    weigh weight (lossy (all.flatMap Piece.bytes)) ≤ (all.map (Piece.weigh weight)).sum
  | [] => Nat.le_refl _
  | .char c :: all => by
    have := weigh_lossy law all
    rw [List.flatMap_cons, Piece.bytes, lossy_char]
    simp only [weigh, Piece.weigh, List.map_cons, List.sum_cons] at this ⊢
    omega
  | .byte b :: all => by
    obtain ⟨c, inner, rest, split, tails, small, read⟩ := lossy_cons b (all.flatMap Piece.bytes)
    obtain ⟨others, rfl, rfl⟩ := escaped_of_inner tails split
    have shorter : others.length < (Piece.byte b :: (inner.map Piece.byte ++ others)).length := by
      rw [List.length_cons, List.length_append]
      omega
    have := weigh_lossy law others
    have one := law.le c
    have escapes : ((inner.map Piece.byte).map (Piece.weigh weight)).sum = 3 * inner.length := by
      simp [Function.comp_def, Piece.weigh, Nat.mul_comm]
    rw [List.flatMap_cons, Piece.bytes, List.cons_append, List.nil_append, read]
    simp only [weigh, Piece.weigh, List.map_cons, List.sum_cons, List.map_append, List.sum_append] at this escapes ⊢
    omega
  termination_by all => all.length

theorem weigh_pieces {weight : Char → Nat} (law : Weight weight) (text : Text) :
    ((pieces text).map (Piece.weigh weight)).sum ≤ weigh weight text := by
  fun_induction pieces text with
  | case1 high low rest h l _ _ ih =>
    have sign := law.pos '%'
    have one := law.pos high
    have two := law.pos low
    simp only [weigh, Piece.weigh, List.map_cons, List.sum_cons] at ih ⊢
    omega
  | case2 high low rest _ ih =>
    simp only [weigh, Piece.weigh, List.map_cons, List.sum_cons] at ih ⊢
    omega
  | case3 c rest _ ih =>
    simp only [weigh, Piece.weigh, List.map_cons, List.sum_cons] at ih ⊢
    omega
  | case4 => exact Nat.le_refl _

theorem weigh_decode {weight : Char → Nat} (law : Weight weight) (text : Text) :
    weigh weight (decode text) ≤ weigh weight text := by
  have spaces : weigh weight (replaceChar '+' ' ' text) ≤ weigh weight text := by
    induction text with
    | nil => exact Nat.le_refl _
    | cons c text ih =>
      have one := law.le ' '
      have size : ' '.utf8Size = 1 := by decide
      have here := law.pos c
      simp only [weigh, replaceChar, List.map_cons, List.sum_cons] at ih ⊢
      split <;> omega
  exact ((weigh_lossy law _).trans (weigh_pieces law _)).trans spaces

/-! ### Encoded texts -/

/-- A set of characters to encode, none of which means something to a form. -/
def QuerySet (set : Char → Bool) : Prop := ∀ c, c.isAlphanum = true ∨ c ∈ (['%', '&', '=', '+'] : Text) → set c = false

theorem hexDigit?_hexDigit {n : Nat} (digit : n < 16) : hexDigit? (Percent.hexDigit n) = some n := by
  have all : ∀ n : Fin 16, hexDigit? (Percent.hexDigit n) = some n.1 := by decide
  exact all ⟨n, digit⟩

theorem pieces_encodeByte (byte : UInt8) (rest : Text) : pieces (Percent.encodeByte byte ++ rest) = .byte byte :: pieces rest := by
  have small := UInt8.toNat_lt byte
  rw [Percent.encodeByte, List.cons_append, List.cons_append, List.cons_append, List.nil_append, pieces,
    hexDigit?_hexDigit (by omega), hexDigit?_hexDigit (by omega)]
  dsimp only
  rw [Nat.div_add_mod, UInt8.ofNat_toNat]

theorem percentDecode_encodeChar (c : Char) (rest : Text) :
    percentDecode (Percent.encodeChar c ++ rest) = String.utf8EncodeChar c ++ percentDecode rest := by
  unfold Percent.encodeChar
  generalize String.utf8EncodeChar c = bytes
  induction bytes with
  | nil => rfl
  | cons byte bytes ih =>
    rw [List.flatMap_cons, List.append_assoc, percentDecode, pieces_encodeByte, List.flatMap_cons, ← percentDecode, ih]
    rfl

/-- Two digits at the front. -/
def digits? : Text → Option (Nat × Nat × Text)
  | high :: low :: rest =>
    match hexDigit? high, hexDigit? low with
    | some h, some l => some (h, l, rest)
    | _, _ => none
  | _ => none

theorem percentDecode_percent (rest : Text) : percentDecode ('%' :: rest) =
    match digits? rest with
    | some (h, l, rest) => UInt8.ofNat (16 * h + l) :: percentDecode rest
    | none => String.utf8EncodeChar '%' ++ percentDecode rest := by
  match rest with
  | [] => rfl
  | [_] => rfl
  | high :: low :: rest =>
    rw [digits?, percentDecode, pieces]
    cases hexDigit? high with
    | none => rfl
    | some h =>
      cases hexDigit? low with
      | none => rfl
      | some l => rfl

theorem percentDecode_other {c : Char} (other : c ≠ '%') (rest : Text) :
    percentDecode (c :: rest) = String.utf8EncodeChar c ++ percentDecode rest := by
  rw [percentDecode, pieces]
  · rfl
  · rintro high low rest rfl
    exact absurd rfl other

section
variable {set : Char → Bool}

/-- What one character becomes before it is decoded. -/
def sent (set : Char → Bool) (c : Char) : Text := replaceChar '+' ' ' (if set c then Percent.encodeChar c else [c])

theorem sent_set {c : Char} (inSet : set c = true) : sent set c = Percent.encodeChar c := by
  rw [sent, if_pos inSet, replaceChar]
  refine List.map_congr_left (g := id) (fun d member => ?_) |>.trans (List.map_id _)
  have escape := Percent.isEscape_of_mem_encodeChar member
  have other : d ≠ '+' := by rintro rfl; cases escape
  simp [other]

theorem replaceChar_encode (c : Char) (text : Text) : replaceChar '+' ' ' (Percent.encode set (c :: text)) =
    sent set c ++ replaceChar '+' ' ' (Percent.encode set text) := by
  rw [Percent.encode, List.flatMap_cons, sent, replaceChar, List.map_append]
  rfl

theorem isAlphanum_of_hexDigit {c : Char} {n : Nat} (digit : hexDigit? c = some n) : c.isAlphanum = true := by
  unfold hexDigit? at digit
  split at digit
  · next decimal => exact isAlphanum_iff.mpr (.inr (.inr (isDigit_iff.mp decimal)))
  split at digit
  · next upper =>
    simp only [Bool.and_eq_true, decide_eq_true_eq] at upper
    exact isAlphanum_iff.mpr (.inl ⟨upper.1, Nat.le_trans upper.2 (by decide)⟩)
  split at digit
  · next lower =>
    simp only [Bool.and_eq_true, decide_eq_true_eq] at lower
    exact isAlphanum_iff.mpr (.inr (.inl ⟨lower.1, Nat.le_trans lower.2 (by decide)⟩))
  · cases digit

theorem sent_digit (law : QuerySet set) {c : Char} {n : Nat} (digit : hexDigit? c = some n) :
    sent set c = [c] ∧ replaceChar '+' ' ' [c] = [c] := by
  have letter := isAlphanum_of_hexDigit digit
  have plain : c ≠ '+' := by rintro rfl; exact absurd letter (by decide)
  rw [sent, law c (.inl letter)]
  simp [replaceChar, plain]

theorem sent_other {c : Char} (other : hexDigit? c = none) : ∃ d rest, sent set c = d :: rest ∧ hexDigit? d = none := by
  by_cases inSet : set c = true
  · rw [sent_set inSet, Percent.encodeChar]
    obtain ⟨lead, inner, encoded, -⟩ := utf8EncodeChar_cons c
    exact ⟨'%', _, by rw [encoded, List.flatMap_cons, Percent.encodeByte]; rfl, by decide⟩
  · refine ⟨if c = '+' then ' ' else c, [], by simp [sent, inSet, replaceChar], ?_⟩
    split
    · decide
    · exact other

theorem digits?_none_left {high : Char} (other : hexDigit? high = none) (rest : Text) : digits? (high :: rest) = none := by
  cases rest <;> simp [digits?, other]

theorem digits?_none_right {low : Char} (other : hexDigit? low = none) (high : Char) (rest : Text) :
    digits? (high :: low :: rest) = none := by
  rw [digits?, other]
  cases hexDigit? high <;> rfl

/-- Digits stay where they are. -/
theorem digits?_encode (law : QuerySet set) (text : Text) :
    (digits? (replaceChar '+' ' ' text) = none ∧ digits? (replaceChar '+' ' ' (Percent.encode set text)) = none) ∨
    ∃ high low rest h l, text = high :: low :: rest ∧
      digits? (replaceChar '+' ' ' text) = some (h, l, replaceChar '+' ' ' rest) ∧
      digits? (replaceChar '+' ' ' (Percent.encode set text)) = some (h, l, replaceChar '+' ' ' (Percent.encode set rest)) := by
  have spaced : ∀ {c : Char}, hexDigit? c = none → hexDigit? (if c = '+' then ' ' else c) = none := by
    intro c other
    split
    · decide
    · exact other
  match text with
  | [] => exact .inl ⟨rfl, rfl⟩
  | high :: text =>
    cases first : hexDigit? high with
    | none =>
      obtain ⟨d, rest, became, other⟩ := @sent_other set high first
      rw [replaceChar_encode, became]
      exact .inl ⟨digits?_none_left (spaced first) _, digits?_none_left other _⟩
    | some h =>
      obtain ⟨kept, kept'⟩ := sent_digit law first
      have here : replaceChar '+' ' ' (high :: text) = high :: replaceChar '+' ' ' text :=
        congrArg (· ++ replaceChar '+' ' ' text) kept'
      rw [replaceChar_encode, kept, here]
      match text with
      | [] => exact .inl ⟨rfl, rfl⟩
      | low :: rest =>
        cases second : hexDigit? low with
        | none =>
          obtain ⟨d, others, became, other⟩ := @sent_other set low second
          rw [replaceChar_encode, became]
          exact .inl ⟨digits?_none_right (spaced second) _ _, digits?_none_right other _ _⟩
        | some l =>
          obtain ⟨keptLow, keptLow'⟩ := sent_digit law second
          have there : replaceChar '+' ' ' (low :: rest) = low :: replaceChar '+' ' ' rest :=
            congrArg (· ++ replaceChar '+' ' ' rest) keptLow'
          rw [replaceChar_encode, keptLow, there]
          refine .inr ⟨high, low, rest, h, l, rfl, ?_, ?_⟩ <;> simp [digits?, first, second]

theorem percentDecode_encode (law : QuerySet set) : ∀ text : Text,
    percentDecode (replaceChar '+' ' ' (Percent.encode set text)) = percentDecode (replaceChar '+' ' ' text)
  | [] => rfl
  | c :: text => by
    have ih := percentDecode_encode law text
    have here : replaceChar '+' ' ' (c :: text) = (if c = '+' then ' ' else c) :: replaceChar '+' ' ' text := rfl
    rw [replaceChar_encode, here]
    by_cases inSet : set c = true
    · have plain : c ≠ '+' ∧ c ≠ '%' := by
        constructor <;> rintro rfl <;> rw [law _ (by decide)] at inSet <;> cases inSet
      rw [sent_set inSet, percentDecode_encodeChar, if_neg plain.1, percentDecode_other plain.2, ih]
    have became : sent set c = [if c = '+' then ' ' else c] := by simp [sent, inSet, replaceChar]
    rw [became, List.cons_append, List.nil_append]
    by_cases sign : c = '%'
    · subst sign
      rw [if_neg (by decide), percentDecode_percent, percentDecode_percent]
      rcases digits?_encode law text with ⟨none, none'⟩ | ⟨high, low, rest, h, l, rfl, found, found'⟩
      · rw [none, none', ih]
      · rw [found, found']
        exact congrArg (_ :: ·) (percentDecode_encode law rest)
    · have other : (if c = '+' then ' ' else c) ≠ '%' := by
        split
        · decide
        · exact sign
      rw [percentDecode_other other, percentDecode_other other, ih]
  termination_by text => text.length

/-- Encoding a text first does not change what it decodes to. -/
theorem decode_encode (law : QuerySet set) (text : Text) : decode (Percent.encode set text) = decode text :=
  congrArg lossy (percentDecode_encode law text)

end

end MqBridge.Form
