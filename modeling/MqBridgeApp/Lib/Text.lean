import Mathlib.Data.List.Infix
import Mathlib.Data.List.DropRight
import Mathlib.Data.Bool.AllAny

/-!
# Text

Strings as lists of characters, with the splitting, trimming and case functions of a string
library and the lemmas that say where a split was made.
-/

namespace MqBridge

abbrev Text := List Char

instance : LawfulBEq Text := inferInstance

/-- The text of a literal, which rewriting leaves closed. -/
def Text.lit (s : String) : Text := s.toList

instance : Coe String Text := ⟨Text.lit⟩

namespace Text

/-- The text before and after the first `sep`. -/
def splitOnce (sep : Char) : Text → Option (Text × Text)
  | [] => none
  | c :: rest =>
    if c = sep then some ([], rest) else (splitOnce sep rest).map fun p => (c :: p.1, p.2)

/-- The text before and after the last `sep`. -/
def rsplitOnce (sep : Char) : Text → Option (Text × Text)
  | [] => none
  | c :: rest =>
    match rsplitOnce sep rest with
    | some p => some (c :: p.1, p.2)
    | none => if c = sep then some ([], rest) else none

/-- The text before and after the first occurrence of `pat`. -/
def splitAtText (pat : Text) : Text → Option (Text × Text)
  | [] => if pat = [] then some ([], []) else none
  | c :: rest =>
    if pat <+: c :: rest then some ([], (c :: rest).drop pat.length)
    else (splitAtText pat rest).map fun p => (c :: p.1, p.2)

/-- The characters with the Unicode property `White_Space`. -/
def isWhitespace (c : Char) : Bool :=
  (0x9 ≤ c.toNat && c.toNat ≤ 0xD) || c.toNat == 0x20 || c.toNat == 0x85 || c.toNat == 0xA0 ||
    c.toNat == 0x1680 || (0x2000 ≤ c.toNat && c.toNat ≤ 0x200A) || c.toNat == 0x2028 ||
    c.toNat == 0x2029 || c.toNat == 0x202F || c.toNat == 0x205F || c.toNat == 0x3000

def trimStart (t : Text) : Text := t.dropWhile isWhitespace

def trim (t : Text) : Text := (trimStart t).rdropWhile isWhitespace

def toAsciiLowercase (t : Text) : Text := t.map Char.toLower

def toAsciiUppercase (t : Text) : Text := t.map Char.toUpper

def replaceChar (old new : Char) (t : Text) : Text := t.map fun c => if c = old then new else c

/-- The first of two texts, unless it is empty. -/
def orText (first second : Text) : Text := if first.isEmpty then second else first

def ofNat (n : Nat) : Text := Nat.toDigits 10 n

def stripPrefix (pre t : Text) : Option Text := if pre <+: t then some (t.drop pre.length) else none

theorem ofNat_injective : Function.Injective ofNat :=
  Function.LeftInverse.injective fun _ => Nat.ofDigitChars_ten_toDigits

theorem isDigit_of_mem_ofNat {n : Nat} {c : Char} (member : c ∈ ofNat n) : c.isDigit = true :=
  Nat.isDigit_of_mem_toDigits (by decide) (by decide) member

/-! ### Where a split was made -/

theorem splitOnce_eq_none {sep : Char} {t : Text} : splitOnce sep t = none ↔ sep ∉ t := by
  induction t with
  | nil => simp [splitOnce]
  | cons c rest ih =>
    by_cases h : c = sep
    · simp [splitOnce, h]
    · simp [splitOnce, h, ih, Ne.symm h]

theorem splitOnce_append {sep : Char} {a b : Text} (h : sep ∉ a) :
    splitOnce sep (a ++ sep :: b) = some (a, b) := by
  induction a with
  | nil => simp [splitOnce]
  | cons c rest ih =>
    simp only [List.mem_cons, not_or] at h
    simp [splitOnce, Ne.symm h.1, ih h.2]

theorem splitOnce_eq_some {sep : Char} {t a b : Text} :
    splitOnce sep t = some (a, b) ↔ t = a ++ sep :: b ∧ sep ∉ a := by
  constructor
  · intro h
    induction t generalizing a with
    | nil => simp [splitOnce] at h
    | cons c rest ih =>
      by_cases hc : c = sep
      · simp only [splitOnce, hc, if_true, Option.some.injEq, Prod.mk.injEq] at h
        obtain ⟨rfl, rfl⟩ := h
        simp [hc]
      · simp only [splitOnce, hc, if_false, Option.map_eq_some_iff, Prod.mk.injEq] at h
        obtain ⟨⟨a', b'⟩, split, rfl, rfl⟩ := h
        obtain ⟨rfl, absent⟩ := ih split
        simp [absent, Ne.symm hc]
  · rintro ⟨rfl, h⟩
    exact splitOnce_append h

theorem rsplitOnce_eq_none {sep : Char} {t : Text} : rsplitOnce sep t = none ↔ sep ∉ t := by
  induction t with
  | nil => simp [rsplitOnce]
  | cons c rest ih =>
    cases hr : rsplitOnce sep rest with
    | some p =>
      have : sep ∈ rest := by
        by_contra absent
        simp [ih.mpr absent] at hr
      simp [rsplitOnce, hr, this]
    | none =>
      have absent := ih.mp hr
      by_cases h : c = sep
      · simp [rsplitOnce, hr, h]
      · simp [rsplitOnce, hr, h, absent, Ne.symm h]

theorem rsplitOnce_append {sep : Char} {a b : Text} (h : sep ∉ b) :
    rsplitOnce sep (a ++ sep :: b) = some (a, b) := by
  induction a with
  | nil => simp [rsplitOnce, rsplitOnce_eq_none.mpr h]
  | cons c rest ih => simp [rsplitOnce, ih]

theorem rsplitOnce_eq_some {sep : Char} {t a b : Text} :
    rsplitOnce sep t = some (a, b) ↔ t = a ++ sep :: b ∧ sep ∉ b := by
  constructor
  · intro h
    induction t generalizing a with
    | nil => simp [rsplitOnce] at h
    | cons c rest ih =>
      cases hr : rsplitOnce sep rest with
      | some p =>
        simp only [rsplitOnce, hr, Option.some.injEq, Prod.mk.injEq] at h
        obtain ⟨rfl, rfl⟩ := h
        obtain ⟨rfl, absent⟩ := ih hr
        exact ⟨rfl, absent⟩
      | none =>
        simp only [rsplitOnce, hr] at h
        split at h
        · next hc =>
          simp only [Option.some.injEq, Prod.mk.injEq] at h
          obtain ⟨rfl, rfl⟩ := h
          exact ⟨by simp [hc], rsplitOnce_eq_none.mp hr⟩
        · cases h
  · rintro ⟨rfl, h⟩
    exact rsplitOnce_append h

theorem splitAtText_eq_some {pat t a b : Text} (h : splitAtText pat t = some (a, b)) :
    t = a ++ pat ++ b := by
  induction t generalizing a with
  | nil =>
    simp only [splitAtText] at h
    split at h
    · next empty =>
      simp only [Option.some.injEq, Prod.mk.injEq] at h
      obtain ⟨rfl, rfl⟩ := h
      simp [empty]
    · cases h
  | cons c rest ih =>
    simp only [splitAtText] at h
    split at h
    · next hp =>
      simp only [Option.some.injEq, Prod.mk.injEq] at h
      obtain ⟨rfl, rfl⟩ := h
      obtain ⟨s, hs⟩ := hp
      simp [← hs]
    · simp only [Option.map_eq_some_iff, Prod.mk.injEq] at h
      obtain ⟨⟨a', b'⟩, split, rfl, rfl⟩ := h
      rw [ih split]
      simp

/-- Where the first occurrence lies does not depend on what follows it. -/
theorem splitAtText_tail {pat t a b : Text} (h : splitAtText pat t = some (a, b)) (b' : Text) :
    splitAtText pat (a ++ pat ++ b') = some (a, b') := by
  induction t generalizing a with
  | nil =>
    simp only [splitAtText] at h
    split at h
    · next empty =>
      simp only [Option.some.injEq, Prod.mk.injEq] at h
      obtain ⟨rfl, rfl⟩ := h
      cases b' <;> simp [empty, splitAtText]
    · cases h
  | cons c rest ih =>
    simp only [splitAtText] at h
    split at h
    · simp only [Option.some.injEq, Prod.mk.injEq] at h
      obtain ⟨rfl, rfl⟩ := h
      cases hp : pat with
      | nil => cases b' <;> simp [splitAtText]
      | cons p ps => simp [splitAtText]
    · next absent =>
      simp only [Option.map_eq_some_iff, Prod.mk.injEq] at h
      obtain ⟨⟨a', b₀⟩, split, rfl, rfl⟩ := h
      have found := splitAtText_eq_some split
      have stays : ¬pat <+: c :: (a' ++ pat ++ b') := by
        intro hp
        apply absent
        rw [found]
        have kept : c :: (a' ++ pat) <+: c :: (a' ++ pat ++ b') := ⟨b', by simp⟩
        have short : pat <+: c :: (a' ++ pat) :=
          List.prefix_of_prefix_length_le hp kept (by simp; omega)
        exact short.trans ⟨b₀, by simp⟩
      simp only [List.cons_append, splitAtText]
      rw [if_neg stays, ih split]
      rfl

theorem splitAtText_append {first : Char} {pat a b : Text} (absent : first ∉ a) :
    splitAtText (first :: pat) (a ++ first :: pat ++ b) = some (a, b) := by
  induction a with
  | nil => simp [splitAtText]
  | cons c rest ih =>
    simp only [List.mem_cons, not_or] at absent
    have stays : ¬(first :: pat) <+: c :: (rest ++ first :: pat ++ b) := by
      intro starts
      exact absent.1 (List.cons_prefix_cons.mp starts).1
    rw [List.cons_append, List.cons_append, splitAtText, if_neg stays, ih absent.2]
    rfl

theorem splitAtText_eq_none {pat t : Text} (hp : pat ≠ []) :
    splitAtText pat t = none ↔ ¬pat <:+: t := by
  induction t with
  | nil => simp [splitAtText, hp]
  | cons c rest ih =>
    by_cases h : pat <+: c :: rest
    · simp [splitAtText, h, h.isInfix]
    · simp [splitAtText, h, ih, List.infix_cons_iff]

/-! ### Trimming and case -/

theorem trimStart_trim (t : Text) : trimStart (trim t) = trim t := by
  have first : ∀ s : Text, s.dropWhile isWhitespace = s → (s.rdropWhile isWhitespace).dropWhile isWhitespace =
      s.rdropWhile isWhitespace := by
    intro s plain
    obtain ⟨tail, split⟩ := List.rdropWhile_prefix isWhitespace (l := s)
    cases kept : s.rdropWhile isWhitespace with
    | nil => rfl
    | cons c rest =>
      rw [kept] at split
      rw [← split, List.cons_append] at plain
      by_cases blank : isWhitespace c = true
      · rw [List.dropWhile_cons_of_pos blank] at plain
        have := congrArg List.length plain
        have shorter := (List.dropWhile_suffix isWhitespace (l := rest ++ tail)).length_le
        simp only [List.length_cons] at this
        omega
      · rw [List.dropWhile_cons_of_neg blank]
  exact first (trimStart t) (List.dropWhile_idempotent _ _)

theorem trim_trim (t : Text) : trim (trim t) = trim t := by
  rw [trim, trimStart_trim]
  exact List.rdropWhile_idempotent _ _

theorem isUpper_iff {c : Char} : c.isUpper = true ↔ 65 ≤ c.toNat ∧ c.toNat ≤ 90 := decide_eq_true_iff

theorem isLower_iff {c : Char} : c.isLower = true ↔ 97 ≤ c.toNat ∧ c.toNat ≤ 122 :=
  (iff_of_eq (Bool.and_eq_true ..)).trans (and_congr decide_eq_true_iff decide_eq_true_iff)

theorem isDigit_iff {c : Char} : c.isDigit = true ↔ 48 ≤ c.toNat ∧ c.toNat ≤ 57 :=
  (iff_of_eq (Bool.and_eq_true ..)).trans (and_congr decide_eq_true_iff decide_eq_true_iff)

theorem isAlphanum_iff {c : Char} : c.isAlphanum = true ↔
    (65 ≤ c.toNat ∧ c.toNat ≤ 90) ∨ (97 ≤ c.toNat ∧ c.toNat ≤ 122) ∨ (48 ≤ c.toNat ∧ c.toNat ≤ 57) := by
  show ((c.isUpper || c.isLower) || c.isDigit) = true ↔ _
  rw [Bool.or_eq_true, Bool.or_eq_true, isUpper_iff, isLower_iff, isDigit_iff, or_assoc]

theorem isWhitespace_visible {c : Char} (above : 0x20 < c.toNat) (below : c.toNat < 0x7F) : isWhitespace c = false := by
  unfold isWhitespace
  simp only [Bool.or_eq_false_iff, Bool.and_eq_false_iff, decide_eq_false_iff_not, beq_eq_false_iff_ne]
  omega

theorem trim_eq_nil {t : Text} : trim t = [] ↔ ∀ c ∈ t, isWhitespace c = true := by
  rw [trim, List.rdropWhile_eq_nil_iff]
  constructor
  · intro blank
    cases start : trimStart t with
    | nil => exact List.dropWhile_eq_nil_iff.mp start
    | cons c rest =>
      have first := List.head?_dropWhile_not isWhitespace t
      rw [← trimStart, start] at first
      have blank := blank c (start ▸ List.mem_cons_self)
      simp [blank] at first
  · intro blank c member
    exact blank c ((List.dropWhile_suffix _).subset member)

theorem trim_of_plain {t : Text} (plain : ∀ c ∈ t, isWhitespace c = false) : trim t = t := by
  have start : trimStart t = t := by
    rw [trimStart, List.dropWhile_eq_self_iff]
    intro nonempty blank
    rw [plain _ (List.getElem_mem nonempty)] at blank
    cases blank
  rw [trim, start, List.rdropWhile_eq_self_iff]
  intro nonempty blank
  rw [plain _ (List.getLast_mem nonempty)] at blank
  cases blank

theorem rdropWhile_append {p : Char → Bool} {c : Char} (stop : p c = false) (a b : Text) :
    (a ++ c :: b).rdropWhile p = a ++ c :: b.rdropWhile p := by
  induction b using List.reverseRecOn with
  | nil => rw [List.rdropWhile_concat_neg _ _ _ (by simp [stop]), List.rdropWhile_nil]
  | append_singleton b last ih =>
    rw [← List.cons_append, ← List.append_assoc]
    by_cases drops : p last = true
    · rw [List.rdropWhile_concat_pos _ _ _ drops, List.rdropWhile_concat_pos _ _ _ drops, ih]
    · rw [List.rdropWhile_concat_neg _ _ _ drops, List.rdropWhile_concat_neg _ _ _ drops, List.append_assoc]
      rfl

theorem trim_concat {c : Char} (blank : isWhitespace c = true) (t : Text) : trim (t ++ [c]) = trim t := by
  rw [trim, trim, trimStart, trimStart, List.dropWhile_append]
  split
  · next empty =>
    rw [List.isEmpty_iff] at empty
    rw [empty, List.dropWhile_cons_of_pos blank, List.dropWhile_nil]
  · rw [List.rdropWhile_concat_pos _ _ _ blank]

theorem toLower_toLower (c : Char) : c.toLower.toLower = c.toLower := by
  by_cases upper : c.val ≥ 'A'.val ∧ c.val ≤ 'Z'.val
  · have lowered : c.toLower = _ := dif_pos upper
    have low : c.toLower.val = c.val + ('a'.val - 'A'.val) := by rw [lowered]
    have above : ¬(c.toLower.val ≥ 'A'.val ∧ c.toLower.val ≤ 'Z'.val) := by
      rw [low]
      simp only [ge_iff_le, UInt32.le_iff_toNat_le, UInt32.toNat_add] at upper ⊢
      have a : 'A'.val.toNat = 65 := rfl
      have z : 'Z'.val.toNat = 90 := rfl
      have shift : ('a'.val - 'A'.val).toNat = 32 := rfl
      omega
    exact dif_neg above
  · have same : c.toLower = c := dif_neg upper
    rw [same, same]

theorem toAsciiLowercase_idempotent (t : Text) : toAsciiLowercase (toAsciiLowercase t) = toAsciiLowercase t := by
  unfold toAsciiLowercase
  rw [List.map_map]
  exact List.map_congr_left fun c _ => toLower_toLower c

theorem toUpper_toUpper (c : Char) : c.toUpper.toUpper = c.toUpper := by
  by_cases lower : 'a'.val ≤ c.val ∧ c.val ≤ 'z'.val
  · have raised : c.toUpper = _ := dif_pos lower
    have high : c.toUpper.val = c.val + ('A'.val - 'a'.val) := by rw [raised]
    have below : ¬('a'.val ≤ c.toUpper.val ∧ c.toUpper.val ≤ 'z'.val) := by
      rw [high]
      simp only [UInt32.le_iff_toNat_le, UInt32.toNat_add] at lower ⊢
      have a : 'a'.val.toNat = 97 := rfl
      have z : 'z'.val.toNat = 122 := rfl
      have shift : ('A'.val - 'a'.val).toNat = 4294967264 := rfl
      omega
    exact dif_neg below
  · have same : c.toUpper = c := dif_neg lower
    rw [same, same]

theorem toAsciiUppercase_idempotent (t : Text) : toAsciiUppercase (toAsciiUppercase t) = toAsciiUppercase t := by
  unfold toAsciiUppercase
  rw [List.map_map]
  exact List.map_congr_left fun c _ => toUpper_toUpper c

@[simp] theorem stripPrefix_append (pre t : Text) : stripPrefix pre (pre ++ t) = some t := by
  simp [stripPrefix]

/-- The order of two lists of numbers by the first place in which they differ. -/
def codesLe : List Nat → List Nat → Bool
  | [], _ => true
  | _ :: _, [] => false
  | a :: as, b :: bs => if a < b then true else if b < a then false else codesLe as bs

def textLe (a b : Text) : Bool := codesLe (a.map Char.toNat) (b.map Char.toNat)

theorem codesLe_trans {a b c : List Nat} (first : codesLe a b = true) (second : codesLe b c = true) : codesLe a c = true := by
  induction a generalizing b c with
  | nil => rfl
  | cons x xs ih =>
    cases b with
    | nil => cases first
    | cons y ys =>
      cases c with
      | nil => cases second
      | cons z zs =>
        unfold codesLe at first second ⊢
        split at first
        · split at second
          · rw [if_pos (by omega)]
          · split at second
            · cases second
            · rw [if_pos (by omega)]
        · split at first
          · cases first
          · split at second
            · rw [if_pos (by omega)]
            · split at second
              · cases second
              · rw [if_neg (by omega), if_neg (by omega)]
                exact ih first second

theorem codesLe_total (a b : List Nat) : (codesLe a b || codesLe b a) = true := by
  induction a generalizing b with
  | nil => rfl
  | cons x xs ih =>
    cases b with
    | nil => rfl
    | cons y ys =>
      unfold codesLe
      rcases Nat.lt_trichotomy x y with less | same | more
      · rw [if_pos less, Bool.true_or]
      · have apart : ¬x < y ∧ ¬y < x := by omega
        simp only [if_neg apart.1, if_neg apart.2]
        exact ih ys
      · have apart : ¬x < y := by omega
        simp only [if_neg apart, if_pos more, Bool.or_true]

theorem codesLe_antisymm {a b : List Nat} (first : codesLe a b = true) (second : codesLe b a = true) : a = b := by
  induction a generalizing b with
  | nil =>
    cases b with
    | nil => rfl
    | cons _ _ => cases second
  | cons x xs ih =>
    cases b with
    | nil => cases first
    | cons y ys =>
      unfold codesLe at first second
      rcases Nat.lt_trichotomy x y with less | same | more
      · simp [less, Nat.not_lt_of_gt less] at second
      · have apart : ¬x < y ∧ ¬y < x := by omega
        simp only [if_neg apart.1, if_neg apart.2] at first second
        rw [same, ih first second]
      · simp [more, Nat.not_lt_of_gt more] at first

theorem textLe_trans {a b c : Text} (first : textLe a b = true) (second : textLe b c = true) : textLe a c = true :=
  codesLe_trans first second

theorem textLe_total (a b : Text) : (textLe a b || textLe b a) = true := codesLe_total _ _

theorem textLe_antisymm {a b : Text} (first : textLe a b = true) (second : textLe b a = true) : a = b :=
  List.map_injective_iff.mpr (fun _ _ same => Char.toNat_inj.mp same) (codesLe_antisymm first second)

end Text

end MqBridge
