import Mathlib.Algebra.GroupWithZero.Nat
import MqBridgeApp.Config.Sealing
import MqBridgeApp.Lib.PercentEncoding

/-!
# Collector route keys

A consumer's route is registered under the bytes of its key, as pairs of hexadecimal digits. Reading a
name back cuts it every two bytes, and reads each pair as a number, which may have a sign.
-/

namespace MqBridge.Ui
open Text Config

/-- A digit of `{:x}`. -/
def lowerHexDigit (n : Nat) : Char := if n < 10 then Char.ofNat (48 + n) else Char.ofNat (87 + n)

def hexText (bytes : List UInt8) : Text :=
  bytes.flatMap fun byte => [lowerHexDigit (byte.toNat / 16), lowerHexDigit (byte.toNat % 16)]

def encodeCollectorRouteKey (consumerKey : Text) : Text := hexText (toUtf8 consumerKey)

def collectorRoutePrefix : Text := "ui_collector_route_"

def collectorRouteName (consumerKey : Text) : Text := collectorRoutePrefix ++ encodeCollectorRouteKey consumerKey

/-! ### Decoding

An outer `none` is a panic. -/

def byteLength (text : Text) : Nat := (text.map Char.utf8Size).sum

/-- Cuts a text after so many bytes, which panics inside a character and past the end. -/
def splitBytes : Nat → Text → Option (Text × Text)
  | 0, text => some ([], text)
  | _ + 1, [] => none
  | n + 1, c :: rest =>
    if c.utf8Size ≤ n + 1 then
      (splitBytes (n + 1 - c.utf8Size) rest).map fun parts => (c :: parts.1, parts.2)
    else none

theorem splitBytes_notLonger {n : Nat} {text : Text} {parts : Text × Text} (split : splitBytes n text = some parts) :
    parts.2.length ≤ text.length := by
  induction text generalizing n parts with
  | nil =>
    cases n with
    | zero =>
      obtain rfl := Option.some.inj split
      exact Nat.le_refl _
    | succ n => cases split
  | cons c rest ih =>
    cases n with
    | zero =>
      obtain rfl := Option.some.inj split
      exact Nat.le_refl _
    | succ n =>
      rw [splitBytes] at split
      split at split
      · obtain ⟨later, found, rfl⟩ := Option.map_eq_some_iff.mp split
        have shorter := ih found
        exact Nat.le_succ_of_le shorter
      · cases split

theorem splitBytes_shorter {n : Nat} {text : Text} {parts : Text × Text} (split : splitBytes (n + 1) text = some parts) :
    parts.2.length < text.length := by
  cases text with
  | nil => cases split
  | cons c rest =>
    rw [splitBytes] at split
    split at split
    · obtain ⟨later, found, rfl⟩ := Option.map_eq_some_iff.mp split
      have shorter := splitBytes_notLonger found
      exact Nat.lt_succ_of_le shorter
    · cases split

def readHexDigits : Nat → Text → Option Nat
  | value, [] => some value
  | value, c :: rest =>
    (hexDigitValue c).bind fun digit =>
      if value * 16 + digit < 256 then readHexDigits (value * 16 + digit) rest else none

/-- `u8::from_str_radix` in base 16, which reads a plus sign over. -/
def u8FromHex : Text → Option UInt8
  | [] | ['+'] | ['-'] => none
  | '+' :: digits => (readHexDigits 0 digits).map Nat.toUInt8
  | digits => (readHexDigits 0 digits).map Nat.toUInt8

/-- The bytes of a text, two of its bytes at a time. -/
def decodePairs (text : Text) : Option (Option (List UInt8)) :=
  if text.isEmpty then some (some [])
  else
    match _split : splitBytes 2 text with
    | none => none
    | some (pair, rest) =>
      match u8FromHex pair with
      | none => some none
      | some value => (decodePairs rest).map fun later => later.map fun bytes => value :: bytes
termination_by text.length
decreasing_by exact splitBytes_shorter _split

def decodeCollectorRouteKey (encoded : Text) : Option (Option Text) :=
  if byteLength encoded % 2 ≠ 0 then some none
  else (decodePairs encoded).map fun bytes => bytes.bind fromUtf8

theorem hexDigitValue_digit {c : Char} {value : Nat} (read : hexDigitValue c = some value) :
    value < 16 ∧ lowerHexDigit value = c.toLower ∧ c.utf8Size = 1 := by
  have small : c.toNat < 128 := by
    unfold hexDigitValue at read
    split at read
    · next digit =>
      rw [Char.isDigit, Bool.and_eq_true, decide_eq_true_eq, decide_eq_true_eq] at digit
      exact Nat.lt_of_le_of_lt digit.2 (by decide)
    · split at read
      · next letter => exact Nat.lt_of_le_of_lt letter.2 (by decide)
      · split at read
        · next letter => exact Nat.lt_of_le_of_lt letter.2 (by decide)
        · cases read
  have all : ((hexDigitValue c).all fun value =>
      decide (value < 16) && lowerHexDigit value == c.toLower && c.utf8Size == 1) = true :=
    Percent.of_toNat_lt small (by decide)
  simpa [read, and_assoc] using all

theorem hexDigitValue_lower {n : Nat} (digit : n < 16) : hexDigitValue (lowerHexDigit n) = some n := by
  have all : ∀ n : Fin 16, hexDigitValue (lowerHexDigit n) = some n.val := by decide
  exact all ⟨n, digit⟩

theorem u8FromHex_digits {c d : Char} {high low : Nat} (first : hexDigitValue c = some high)
    (second : hexDigitValue d = some low) : u8FromHex [c, d] = some (high * 16 + low).toUInt8 := by
  have unsigned : c ≠ '+' := by
    rintro rfl
    cases first
  have bounds := (hexDigitValue_digit first).1
  have bounds' := (hexDigitValue_digit second).1
  have digits : readHexDigits 0 [c, d] = some (high * 16 + low) := by
    simp only [readHexDigits, first, second, Option.bind_some, Nat.zero_mul, Nat.zero_add]
    rw [if_pos (by omega), if_pos (by omega)]
  simp [u8FromHex, unsigned, digits]

theorem u8FromHex_plus {d : Char} {low : Nat} (second : hexDigitValue d = some low) :
    u8FromHex ['+', d] = some low.toUInt8 := by
  have bounds := (hexDigitValue_digit second).1
  have digits : readHexDigits 0 [d] = some low := by
    simp only [readHexDigits, second, Option.bind_some, Nat.zero_mul, Nat.zero_add]
    rw [if_pos (by omega)]
  simp [u8FromHex, digits]

/-! ### One step of decoding -/

theorem decodePairs_nil : decodePairs [] = some (some []) := by
  rw [decodePairs]
  rfl

theorem decodePairs_cut {c : Char} {text : Text} (cut : splitBytes 2 (c :: text) = none) :
    decodePairs (c :: text) = none := by
  rw [decodePairs]
  split
  · next empty => cases empty
  · split
    · rfl
    · next found => 
      rw [cut] at found
      cases found

theorem decodePairs_split {c : Char} {text pair rest : Text} (split : splitBytes 2 (c :: text) = some (pair, rest)) :
    decodePairs (c :: text) =
      (u8FromHex pair).elim (some none) fun value => (decodePairs rest).map fun later => later.map fun bytes => value :: bytes := by
  rw [decodePairs]
  split
  · next empty => cases empty
  · split
    · next found =>
      rw [split] at found
      cases found
    · next found =>
      rw [split] at found
      cases found
      cases u8FromHex pair <;> rfl

/-- A pair that is read as a number. -/
structure HexPair (c d : Char) : Prop where
  first : c = '+' ∨ (hexDigitValue c).isSome = true
  second : (hexDigitValue d).isSome = true

inductive Readable : Text → Prop where
  | nil : Readable []
  | pair {c d : Char} {rest : Text} (here : HexPair c d) (later : Readable rest) : Readable (c :: d :: rest)

/-- A text whose second byte is followed by the rest of a character. -/
def OpensInside : Text → Prop
  | [] => False
  | c :: rest => 3 ≤ c.utf8Size ∨ c.utf8Size = 1 ∧ ∃ d ∈ rest.head?, 2 ≤ d.utf8Size

theorem splitBytes_pair {c d : Char} (narrow : c.utf8Size = 1) (narrow' : d.utf8Size = 1) (rest : Text) :
    splitBytes 2 (c :: d :: rest) = some ([c, d], rest) := by
  simp [splitBytes, narrow, narrow']

theorem splitBytes_wide {c : Char} (wide : c.utf8Size = 2) (rest : Text) :
    splitBytes 2 (c :: rest) = some ([c], rest) := by
  cases rest <;> simp [splitBytes, wide]

theorem splitBytes_inside {text : Text} (opens : OpensInside text) : splitBytes 2 text = none := by
  cases text with
  | nil => cases opens
  | cons c rest =>
    rcases opens with wide | ⟨narrow, d, member, wide⟩
    · rw [splitBytes, if_neg (by omega)]
    · cases rest with
      | nil => cases member
      | cons e rest =>
        obtain rfl := Option.some.inj member
        rw [splitBytes, if_pos (by omega), narrow]
        show Option.map _ (splitBytes 1 (e :: rest)) = none
        rw [splitBytes, if_neg (by omega)]
        rfl

/-- How a text of an even number of bytes starts. -/
theorem pair_cases {c : Char} {text : Text} (even : byteLength (c :: text) % 2 = 0) :
    OpensInside (c :: text) ∨ c.utf8Size = 2 ∨
      ∃ d rest, text = d :: rest ∧ c.utf8Size = 1 ∧ d.utf8Size = 1 := by
  have total : byteLength (c :: text) = c.utf8Size + byteLength text := by simp [byteLength]
  rcases Char.utf8Size_eq c with one | two | three | four
  · cases text with
    | nil =>
      rw [total, one] at even
      cases even
    | cons d rest =>
      rcases Char.utf8Size_eq d with one' | wide
      · exact .inr (.inr ⟨d, rest, rfl, one, one'⟩)
      · exact .inl (.inr ⟨one, d, rfl, by omega⟩)
  · exact .inr (.inl two)
  · exact .inl (.inl (by omega))
  · exact .inl (.inl (by omega))

theorem HexPair.narrow {c d : Char} (pair : HexPair c d) : c.utf8Size = 1 ∧ d.utf8Size = 1 := by
  obtain ⟨low, second⟩ := Option.isSome_iff_exists.mp pair.second
  refine ⟨?_, (hexDigitValue_digit second).2.2⟩
  rcases pair.first with rfl | digit
  · rfl
  · obtain ⟨high, first⟩ := Option.isSome_iff_exists.mp digit
    exact (hexDigitValue_digit first).2.2

theorem u8FromHex_wide {c : Char} (wide : c.utf8Size = 2) : u8FromHex [c] = none := by
  have noDigit : hexDigitValue c = none := by
    by_contra digit
    obtain ⟨value, read⟩ := Option.ne_none_iff_exists'.mp digit
    have narrow := (hexDigitValue_digit read).2.2
    omega
  have noPlus : c ≠ '+' := by
    rintro rfl
    cases wide
  have noMinus : c ≠ '-' := by
    rintro rfl
    cases wide
  simp [u8FromHex, noPlus, noMinus, readHexDigits, noDigit]

theorem hexText_ofNat {value : Nat} (small : value < 256) :
    hexText [value.toUInt8] = [lowerHexDigit (value / 16), lowerHexDigit (value % 16)] := by
  have same : value.toUInt8.toNat = value := by
    rw [Nat.toUInt8, UInt8.toNat_ofNat']
    omega
  simp [hexText, same]

theorem notPlus_of_digit {c : Char} (digit : (hexDigitValue c).isSome = true) : c ≠ '+' := by
  rintro rfl
  cases digit

/-- A pair with a number is written with a zero in place of a sign. -/
theorem u8FromHex_of_hexPair {c d : Char} (pair : HexPair c d) :
    ∃ value, u8FromHex [c, d] = some value ∧ hexText [value] = toAsciiLowercase (replaceChar '+' '0' [c, d]) := by
  have notPlus := notPlus_of_digit pair.second
  obtain ⟨low, second⟩ := Option.isSome_iff_exists.mp pair.second
  obtain ⟨small, written, -⟩ := hexDigitValue_digit second
  rcases pair.first with rfl | digit
  · refine ⟨_, u8FromHex_plus second, ?_⟩
    rw [hexText_ofNat (by omega), Nat.div_eq_of_lt small, Nat.mod_eq_of_lt small, written]
    simp [toAsciiLowercase, replaceChar, notPlus, lowerHexDigit]
  · have notPlus' := notPlus_of_digit digit
    obtain ⟨high, first⟩ := Option.isSome_iff_exists.mp digit
    obtain ⟨small', written', -⟩ := hexDigitValue_digit first
    refine ⟨_, u8FromHex_digits first second, ?_⟩
    have quotient : (high * 16 + low) / 16 = high := by omega
    have remainder : (high * 16 + low) % 16 = low := by omega
    rw [hexText_ofNat (by omega), quotient, remainder, written, written']
    simp [toAsciiLowercase, replaceChar, notPlus, notPlus']

theorem hexPair_of_u8FromHex {c d : Char} {value : UInt8} (read : u8FromHex [c, d] = some value) : HexPair c d := by
  by_cases plus : c = '+'
  · subst plus
    have digits : (readHexDigits 0 [d]).map Nat.toUInt8 = some value := by simpa [u8FromHex] using read
    refine ⟨.inl rfl, ?_⟩
    cases second : hexDigitValue d with
    | none => simp [readHexDigits, second] at digits
    | some low => rfl
  · have digits : (readHexDigits 0 [c, d]).map Nat.toUInt8 = some value := by simpa [u8FromHex, plus] using read
    cases first : hexDigitValue c with
    | none => simp [readHexDigits, first] at digits
    | some high =>
      refine ⟨.inr (by rw [first]; rfl), ?_⟩
      cases second : hexDigitValue d with
      | none => simp [readHexDigits, first, second] at digits
      | some low => rfl

/-! ### Decoding a text -/

theorem hexText_cons (value : UInt8) (bytes : List UInt8) : hexText (value :: bytes) = hexText [value] ++ hexText bytes := by
  simp [hexText]

theorem decodePairs_pair {c d : Char} {value : UInt8} (read : u8FromHex [c, d] = some value) (rest : Text) :
    decodePairs (c :: d :: rest) = (decodePairs rest).map fun later => later.map fun bytes => value :: bytes := by
  obtain ⟨narrow, narrow'⟩ := (hexPair_of_u8FromHex read).narrow
  rw [decodePairs_split (splitBytes_pair narrow narrow' rest), read]
  rfl

theorem decodePairs_of_readable {text : Text} (readable : Readable text) :
    ∃ bytes, decodePairs text = some (some bytes) ∧ hexText bytes = toAsciiLowercase (replaceChar '+' '0' text) := by
  induction readable with
  | nil => exact ⟨[], decodePairs_nil, rfl⟩
  | pair here _ ih =>
    obtain ⟨value, read, written⟩ := u8FromHex_of_hexPair here
    obtain ⟨bytes, decoded, same⟩ := ih
    refine ⟨value :: bytes, ?_, ?_⟩
    · rw [decodePairs_pair read, decoded]
      rfl
    · rw [hexText_cons, written, same]
      rfl

theorem decodePairs_inside {front rest : Text} (readable : Readable front) (opens : OpensInside rest) :
    decodePairs (front ++ rest) = none := by
  induction readable with
  | nil =>
    cases rest with
    | nil => cases opens
    | cons c rest => exact decodePairs_cut (splitBytes_inside opens)
  | pair here _ ih =>
    obtain ⟨value, read, -⟩ := u8FromHex_of_hexPair here
    rw [List.cons_append, List.cons_append, decodePairs_pair read, ih]
    rfl

/-- Decoding reads a text of pairs, panics inside a character after such a text, or stops at a pair that
is no number. -/
theorem decodePairs_cases {text : Text} (even : byteLength text % 2 = 0) :
    Readable text ∨ (∃ front rest, text = front ++ rest ∧ Readable front ∧ OpensInside rest) ∨
      decodePairs text = some none := by
  induction length : text.length using Nat.strong_induction_on generalizing text with
  | _ n ih =>
    cases text with
    | nil => exact .inl .nil
    | cons c text =>
      rcases pair_cases even with opens | wide | ⟨d, rest, rfl, narrow, narrow'⟩
      · exact .inr (.inl ⟨[], _, rfl, .nil, opens⟩)
      · refine .inr (.inr ?_)
        rw [decodePairs_split (splitBytes_wide wide text), u8FromHex_wide wide]
        rfl
      · cases read : u8FromHex [c, d] with
        | none =>
          refine .inr (.inr ?_)
          rw [decodePairs_split (splitBytes_pair narrow narrow' rest), read]
          rfl
        | some value =>
          have here := hexPair_of_u8FromHex read
          have evenRest : byteLength rest % 2 = 0 := by
            simp only [byteLength, List.map_cons, List.sum_cons, narrow, narrow'] at even ⊢
            omega
          have shorter : rest.length < n := by
            simp only [List.length_cons] at length
            omega
          rcases ih _ shorter evenRest rfl with readable | ⟨front, back, rfl, readable, opens⟩ | stops
          · exact .inl (.pair here readable)
          · exact .inr (.inl ⟨c :: d :: front, back, rfl, .pair here readable, opens⟩)
          · refine .inr (.inr ?_)
            rw [decodePairs_pair read, stops]
            rfl

theorem readable_hexText (bytes : List UInt8) : Readable (hexText bytes) := by
  induction bytes with
  | nil => exact .nil
  | cons byte rest ih =>
    have small := UInt8.toNat_lt byte
    refine .pair ⟨.inr ?_, ?_⟩ ih
    · rw [hexDigitValue_lower (by omega)]
      rfl
    · rw [hexDigitValue_lower (by omega)]
      rfl

theorem decodePairs_hexText (bytes : List UInt8) : decodePairs (hexText bytes) = some (some bytes) := by
  induction bytes with
  | nil => exact decodePairs_nil
  | cons byte rest ih =>
    have small := UInt8.toNat_lt byte
    have read : u8FromHex [lowerHexDigit (byte.toNat / 16), lowerHexDigit (byte.toNat % 16)] = some byte := by
      rw [u8FromHex_digits (hexDigitValue_lower (by omega)) (hexDigitValue_lower (by omega))]
      have whole : byte.toNat / 16 * 16 + byte.toNat % 16 = byte.toNat := by omega
      rw [whole, Nat.toUInt8, UInt8.ofNat_toNat]
    show decodePairs (_ :: _ :: hexText rest) = _
    rw [decodePairs_pair read, ih]
    rfl

theorem byteLength_readable {text : Text} (readable : Readable text) : byteLength text % 2 = 0 := by
  induction readable with
  | nil => rfl
  | pair here _ ih =>
    simp only [byteLength, List.map_cons, List.sum_cons, here.narrow.1, here.narrow.2] at ih ⊢
    omega

theorem toUtf8_of_fromUtf8 {bytes : List UInt8} {text : Text} (read : fromUtf8 bytes = some text) :
    toUtf8 text = bytes := by
  unfold fromUtf8 String.fromUTF8? at read
  split at read
  · obtain rfl := Option.some.inj read
    rw [toUtf8, String.ofList_toList]
    rfl
  · cases read

theorem decodeCollectorRouteKey_encode (consumerKey : Text) :
    decodeCollectorRouteKey (encodeCollectorRouteKey consumerKey) = some (some consumerKey) := by
  have even := byteLength_readable (readable_hexText (toUtf8 consumerKey))
  rw [decodeCollectorRouteKey, encodeCollectorRouteKey, if_neg (by omega), decodePairs_hexText]
  simp [fromUtf8_toUtf8]

/-! ### Which names are read back -/

/-- The decoder returns, and a key it returns is the one the name is written for. -/
def ReadsBack (encoded : Text) : Prop :=
  ∃ found, decodeCollectorRouteKey encoded = some found ∧
    ∀ consumerKey, found = some consumerKey → encodeCollectorRouteKey consumerKey = toAsciiLowercase encoded

/-- After pairs that are read, two bytes end inside a character. -/
def CutsCharacter (encoded : Text) : Prop :=
  byteLength encoded % 2 = 0 ∧ ∃ front rest, encoded = front ++ rest ∧ Readable front ∧ OpensInside rest

/-- A text of pairs with plus signs, which is some key's when each sign is a zero. -/
def SignedKey (encoded : Text) : Prop :=
  '+' ∈ encoded ∧ Readable encoded ∧
    ∃ consumerKey, encodeCollectorRouteKey consumerKey = toAsciiLowercase (replaceChar '+' '0' encoded)

theorem toAsciiLowercase_unsigned (text : Text) :
    toAsciiLowercase (replaceChar '+' '0' text) = toAsciiLowercase text ↔ '+' ∉ text := by
  rw [toAsciiLowercase, toAsciiLowercase, replaceChar, List.map_map, List.map_inj_left]
  constructor
  · intro same member
    have sign := same '+' member
    simp at sign
  · intro unsigned c member
    have different : c ≠ '+' := by
      rintro rfl
      exact unsigned member
    simp [different]

theorem hexText_injective {bytes bytes' : List UInt8} (same : hexText bytes = hexText bytes') : bytes = bytes' := by
  have decoded := decodePairs_hexText bytes
  rw [same, decodePairs_hexText] at decoded
  exact (Option.some.inj (Option.some.inj decoded)).symm

/-- The decoder returns unless it cuts a character. -/
theorem decodeCollectorRouteKey_eq_none {encoded : Text} :
    decodeCollectorRouteKey encoded = none ↔ CutsCharacter encoded := by
  constructor
  · intro panics
    unfold decodeCollectorRouteKey at panics
    split at panics
    · cases panics
    · next even =>
      have cut := Option.map_eq_none_iff.mp panics
      refine ⟨by omega, ?_⟩
      have isEven : byteLength encoded % 2 = 0 := by omega
      rcases decodePairs_cases isEven with readable | inside | stops
      · obtain ⟨bytes, decoded, -⟩ := decodePairs_of_readable readable
        rw [cut] at decoded
        cases decoded
      · exact inside
      · rw [cut] at stops
        cases stops
  · rintro ⟨even, front, rest, rfl, readable, opens⟩
    rw [decodeCollectorRouteKey, if_neg (by omega), decodePairs_inside readable opens]
    rfl

theorem not_readsBack_of_cuts {encoded : Text} (cuts : CutsCharacter encoded) : ¬ReadsBack encoded := by
  rintro ⟨found, decoded, -⟩
  rw [decodeCollectorRouteKey_eq_none.mpr cuts] at decoded
  cases decoded

/-- A text of pairs is read back unless it is a key's with signs for zeros. -/
theorem readsBack_iff_of_readable {encoded : Text} (readable : Readable encoded) :
    ReadsBack encoded ↔ ¬SignedKey encoded := by
  obtain ⟨bytes, decoded, written⟩ := decodePairs_of_readable readable
  have even := byteLength_readable readable
  have result : decodeCollectorRouteKey encoded = some (fromUtf8 bytes) := by
    rw [decodeCollectorRouteKey, if_neg (by omega), decoded]
    rfl
  have keys : ∀ consumerKey, fromUtf8 bytes = some consumerKey ↔
      encodeCollectorRouteKey consumerKey = toAsciiLowercase (replaceChar '+' '0' encoded) := by
    intro consumerKey
    rw [← written, encodeCollectorRouteKey]
    constructor
    · exact fun read => congrArg hexText (toUtf8_of_fromUtf8 read)
    · intro same
      rw [← hexText_injective same, fromUtf8_toUtf8]
  constructor
  · rintro ⟨found, returned, promise⟩ ⟨sign, -, consumerKey, same⟩
    rw [result] at returned
    have plain := promise consumerKey ((Option.some.inj returned).symm.trans ((keys consumerKey).mpr same))
    exact (toAsciiLowercase_unsigned encoded).mp (same.symm.trans plain) sign
  · intro unsigned
    refine ⟨_, result, fun consumerKey read => ?_⟩
    have same := (keys consumerKey).mp read
    have noSign : '+' ∉ encoded := fun sign => unsigned ⟨sign, readable, consumerKey, same⟩
    rw [same, toAsciiLowercase_unsigned]
    exact noSign

theorem readsBack_of_none {encoded : Text} (stops : decodeCollectorRouteKey encoded = some none) : ReadsBack encoded :=
  ⟨none, stops, nofun⟩

theorem readsBack_iff (encoded : Text) : ReadsBack encoded ↔ ¬CutsCharacter encoded ∧ ¬SignedKey encoded := by
  by_cases even : byteLength encoded % 2 = 0
  · rcases decodePairs_cases even with readable | inside | stops
    · have whole : ¬CutsCharacter encoded := by
        rintro ⟨-, front, rest, rfl, front', opens⟩
        obtain ⟨bytes, decoded, -⟩ := decodePairs_of_readable readable
        rw [decodePairs_inside front' opens] at decoded
        cases decoded
      rw [readsBack_iff_of_readable readable, and_iff_right whole]
    · have cuts : CutsCharacter encoded := ⟨even, inside⟩
      exact iff_of_false (not_readsBack_of_cuts cuts) fun both => both.1 cuts
    · have stopped : decodeCollectorRouteKey encoded = some none := by
        rw [decodeCollectorRouteKey, if_neg (by omega), stops]
        rfl
      refine iff_of_true (readsBack_of_none stopped) ⟨fun cuts => not_readsBack_of_cuts cuts (readsBack_of_none stopped), ?_⟩
      rintro ⟨-, readable, -⟩
      obtain ⟨bytes, decoded, -⟩ := decodePairs_of_readable readable
      rw [stops] at decoded
      cases decoded
  · have stopped : decodeCollectorRouteKey encoded = some none := by rw [decodeCollectorRouteKey, if_pos even]
    exact iff_of_true (readsBack_of_none stopped)
      ⟨fun cuts => even cuts.1, fun signed => even (byteLength_readable signed.2.1)⟩

/-- A key is always read back. A name is, unless its pairs cut a character or have signs. -/
theorem collectorRouteKey_codec (consumerKey encoded : Text) :
    decodeCollectorRouteKey (encodeCollectorRouteKey consumerKey) = some (some consumerKey) ∧
      (ReadsBack encoded ↔ ¬CutsCharacter encoded ∧ ¬SignedKey encoded) :=
  ⟨decodeCollectorRouteKey_encode consumerKey, readsBack_iff encoded⟩

theorem collectorRouteKey_not_readsBack : ¬ReadsBack "aéb" ∧ ¬ReadsBack "+a" := by
  constructor
  · rw [readsBack_iff]
    have cuts : CutsCharacter "aéb" := ⟨by decide, [], "aéb", rfl, .nil, .inr ⟨by decide, 'é', rfl, by decide⟩⟩
    exact fun both => both.1 cuts
  · rw [readsBack_iff]
    have signed : SignedKey "+a" := ⟨by decide, .pair ⟨.inl rfl, rfl⟩ .nil, "\n", by decide⟩
    exact fun both => both.2 signed

end MqBridge.Ui
