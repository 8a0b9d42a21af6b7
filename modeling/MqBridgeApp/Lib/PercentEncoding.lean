import MqBridgeApp.Lib.Text

/-!
# Percent-encoding

Characters of a set become the bytes of their UTF-8 form, as `%XX`. Which set it is depends on where the text stands.
-/

namespace MqBridge.Percent

def hexDigit (n : Nat) : Char := if n < 10 then Char.ofNat (48 + n) else Char.ofNat (55 + n)

def isUpperHex (c : Char) : Bool := ('0' ≤ c && c ≤ '9') || ('A' ≤ c && c ≤ 'F')

def encodeByte (byte : UInt8) : Text := ['%', hexDigit (byte.toNat / 16), hexDigit (byte.toNat % 16)]

def encodeChar (c : Char) : Text := (String.utf8EncodeChar c).flatMap encodeByte

def encode (set : Char → Bool) (text : Text) : Text := text.flatMap fun c => if set c then encodeChar c else [c]

/-- The digits of `%XX` and its sign. -/
def isEscape (c : Char) : Bool := c == '%' || isUpperHex c

theorem isUpperHex_hexDigit {n : Nat} (digit : n < 16) : isUpperHex (hexDigit n) = true := by
  have all : ∀ n : Fin 16, isUpperHex (hexDigit n) = true := by decide
  exact all ⟨n, digit⟩

theorem isEscape_of_mem_encodeChar {c d : Char} (member : d ∈ encodeChar c) : isEscape d = true := by
  obtain ⟨byte, -, inside⟩ := List.mem_flatMap.mp member
  have small := UInt8.toNat_lt byte
  simp only [encodeByte, List.mem_cons, List.not_mem_nil, or_false] at inside
  unfold isEscape
  rcases inside with rfl | rfl | rfl
  · rfl
  · rw [isUpperHex_hexDigit (by omega), Bool.or_true]
  · rw [isUpperHex_hexDigit (by omega), Bool.or_true]

theorem mem_encode {set : Char → Bool} {text : Text} {c : Char} (member : c ∈ encode set text) :
    isEscape c = true ∨ (c ∈ text ∧ set c = false) := by
  obtain ⟨d, inside, member⟩ := List.mem_flatMap.mp member
  split at member
  · exact .inl (isEscape_of_mem_encodeChar member)
  · next kept =>
    obtain rfl := List.mem_singleton.mp member
    exact .inr ⟨inside, by simpa using kept⟩

theorem notMem_encode {set : Char → Bool} {c : Char} (sign : isEscape c = false) (inSet : set c = true) (text : Text) :
    c ∉ encode set text := by
  intro member
  rcases mem_encode member with escape | ⟨-, kept⟩
  · rw [sign] at escape
    cases escape
  · rw [inSet] at kept
    cases kept

theorem toNat_lt_of_isEscape {c : Char} (escape : isEscape c = true) : c.toNat < 128 := by
  simp only [isEscape, isUpperHex, Bool.or_eq_true, Bool.and_eq_true, beq_iff_eq, decide_eq_true_eq] at escape
  rcases escape with rfl | ⟨-, digit⟩ | ⟨-, letter⟩
  · decide
  · exact Nat.lt_of_le_of_lt digit (by decide)
  · exact Nat.lt_of_le_of_lt letter (by decide)

@[elab_as_elim]
theorem of_toNat_lt {p : Char → Prop} {bound : Nat} {c : Char} (small : c.toNat < bound)
    (all : ∀ n : Fin bound, p (Char.ofNat n)) : p c := by
  have one := all ⟨c.toNat, small⟩
  rwa [Char.ofNat_toNat] at one

theorem encode_congr {set set' : Char → Bool} {text : Text} (same : ∀ c ∈ text, set c = set' c) :
    encode set text = encode set' text :=
  List.flatMap_congr fun c member => by rw [same c member]

theorem encode_plain {set : Char → Bool} {text : Text} (plain : ∀ c ∈ text, set c = false) : encode set text = text := by
  have each : ∀ c ∈ text, (if set c then encodeChar c else [c]) = [c] := fun c member => by simp [plain c member]
  rw [encode, List.flatMap_congr each]
  simp

theorem encode_encode {set set' : Char → Bool} (escapes : ∀ c, isEscape c = true → set c = false)
    (smaller : ∀ c, set' c = false → set c = false) (text : Text) : encode set (encode set' text) = encode set' text := by
  refine encode_plain fun c member => ?_
  rcases mem_encode member with escape | ⟨-, kept⟩
  · exact escapes c escape
  · exact smaller c kept

end MqBridge.Percent
