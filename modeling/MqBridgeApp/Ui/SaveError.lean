import Mathlib.Algebra.GroupWithZero.Nat
import MqBridgeApp.Lib.Utf16
import MqBridgeApp.Lib.JsonPlaces
import MqBridgeApp.Lib.JavaScript

/-!
# The place of a save error

The server says at which byte of the configuration it stopped reading. The byte is counted back in UTF-16
units, and the text is scanned up to there for the path of the value that ends at it.
-/

namespace MqBridge.Ui
open Text Utf16

/-! ### Scanning -/

structure Frame where
  array : Bool
  key : Option Units := none
  index : Nat := 0

def indexSegment (index : Nat) : Units := '['.toNat :: (ofText (Text.ofNat index) ++ [']'.toNat])

def Frame.segment (frame : Frame) : Option Units := if frame.array then some (indexSegment frame.index) else frame.key

/-- The segments of a stack, whose last frame comes first. -/
def currentSegments (stack : List Frame) : List Units := stack.reverse.filterMap Frame.segment

/-- The rest of a string after its opening quote, up to its closing quote, and what follows. -/
def readLiteral : Units → Units × Units
  | [] => ([], [])
  | u :: rest =>
    if u = '"'.toNat then ([u], rest)
    else if u = '\\'.toNat then
      match rest with
      | [] => ([u], [])
      | v :: rest => (u :: v :: (readLiteral rest).1, (readLiteral rest).2)
    else (u :: (readLiteral rest).1, (readLiteral rest).2)

def isSpaceUnit (u : Nat) : Bool := isJsSpace (Char.ofNat u)

/-- A string before a colon is the key of a member. -/
def noteKey (literal after : Units) : List Frame → List Frame
  | [] => []
  | frame :: below =>
    if (after.dropWhile isSpaceUnit).head? = some ':'.toNat && !frame.array then
      { frame with key := parseString literal } :: below
    else frame :: below

def nextMember : List Frame → List Frame
  | [] => []
  | frame :: below => (if frame.array then { frame with index := frame.index + 1 } else { frame with key := none }) :: below

theorem readLiteral_length (units : Units) : (readLiteral units).2.length ≤ units.length := by
  fun_induction readLiteral units <;> simp_all <;> omega

/-- The loop of `jsonPathAtOffset`, at an index and the units from there on. -/
def scan (offset : Nat) (stack : List Frame) (index : Nat) : Units → List Units
  | [] => currentSegments stack
  | u :: rest =>
    if offset < index then currentSegments stack
    else if u = '"'.toNat then
      scan offset (noteKey (u :: (readLiteral rest).1) (readLiteral rest).2 stack)
        (index + 1 + (readLiteral rest).1.length) (readLiteral rest).2
    else if u = '{'.toNat ∨ u = '['.toNat then scan offset ({ array := u = '['.toNat } :: stack) (index + 1) rest
    else if u = '}'.toNat ∨ u = ']'.toNat then
      if offset ≤ index then currentSegments stack.tail else scan offset stack.tail (index + 1) rest
    else if u = ','.toNat then scan offset (nextMember stack) (index + 1) rest
    else scan offset stack (index + 1) rest
termination_by units => units.length
decreasing_by
  all_goals simp only [List.length_cons]
  · exact Nat.lt_succ_of_le (readLiteral_length rest)
  all_goals omega

def jsonPathAtOffset (json : Units) (offset : Nat) : List Units := scan offset [] 0 json

/-- The loop of `utf16IndexForByteOffset`, at a count of bytes and an index. -/
def countBytes (byteOffset : Nat) (bytes index : Nat) : Units → Nat
  | [] => index
  | first :: rest =>
    if byteOffset ≤ bytes then index
    else
      let codePoint := codePoint first rest
      let width := if codePoint < 0x80 then 1 else if codePoint < 0x800 then 2 else if codePoint < 0x10000 then 3 else 4
      if 0xFFFF < codePoint then countBytes byteOffset (bytes + width) (index + 2) (rest.drop 1)
      else countBytes byteOffset (bytes + width) (index + 1) rest
termination_by units => units.length
decreasing_by
  · exact Nat.lt_succ_of_le (List.length_drop ▸ Nat.sub_le ..)
  · exact Nat.lt_succ_self _

def utf16IndexForByteOffset (json : Units) (byteOffset : Nat) : Nat :=
  if byteOffset = 0 then 0 else countBytes byteOffset 0 0 json

section
variable (numberKey : Units → Units)

/-- `current[key]`, where an array has its length besides its items. What is inherited is no JSON value. -/
def property (key : Units) : Json → Option Json
  | .obj entries => (entries.find? fun entry => ofText entry.1 == key).map Prod.snd
  | .arr items =>
    if key = ofText "length" then some (.num (.ofNat items.length))
    else ((List.range items.length).find? fun i => ofText (Text.ofNat i) == key).bind fun i => items[i]?
  | _ => none

/-- The key that a segment stands for, where `numberKey` is `String(Number(text))`. -/
def segmentKey (segment : Units) : Units :=
  if segment.head? = some '['.toNat then numberKey (segment.drop 1).dropLast else segment

def valueAtPath (root : Json) (segments : List Units) : Option Json :=
  segments.foldl (fun current segment => current.bind (property (segmentKey numberKey segment))) (some root)

end

/-! ### Scanning a value -/

/-- What follows is no colon, so that a string before it is no key. -/
def NoColon (rest : Units) : Prop := (rest.dropWhile isSpaceUnit).head? ≠ some ':'.toNat

def IsSilent (u : Nat) : Prop :=
  u ≠ '"'.toNat ∧ u ≠ '{'.toNat ∧ u ≠ '['.toNat ∧ u ≠ '}'.toNat ∧ u ≠ ']'.toNat ∧ u ≠ ','.toNat

theorem readLiteral_plain {units : Units} (plain : ∀ u ∈ units, u ≠ '"'.toNat ∧ u ≠ '\\'.toNat) (rest : Units) :
    readLiteral (units ++ rest) = (units ++ (readLiteral rest).1, (readLiteral rest).2) := by
  induction units with
  | nil => rfl
  | cons u units ih =>
    obtain ⟨quote, slash⟩ := plain u List.mem_cons_self
    rw [List.cons_append, readLiteral.eq_def]
    dsimp only
    rw [if_neg quote, if_neg slash, ih fun v member => plain v (List.mem_cons_of_mem _ member)]
    rfl

theorem readLiteral_escape (u : Nat) (rest : Units) : readLiteral ('\\'.toNat :: u :: rest) =
    ('\\'.toNat :: u :: (readLiteral rest).1, (readLiteral rest).2) := by
  rw [readLiteral, if_neg (by decide), if_pos rfl]

/-- What is written for a character is passed as a part of its string. -/
theorem readLiteral_escapeChar (c : Char) (rest : Units) : readLiteral (ofText (Json.escapeChar c) ++ rest) =
    (ofText (Json.escapeChar c) ++ (readLiteral rest).1, (readLiteral rest).2) := by
  have simple : ∀ d : Char, d.toNat < 0x80 → readLiteral (ofText ['\\', d] ++ rest) =
      (ofText ['\\', d] ++ (readLiteral rest).1, (readLiteral rest).2) := by
    intro d ascii
    rw [ofText_cons, ofText_cons, ofChar_ascii (by decide), ofChar_ascii ascii]
    exact readLiteral_escape d.toNat rest
  unfold Json.escapeChar
  split_ifs with quote slash newline carriage tab backspace feed control
  · exact simple '"' (by decide)
  · exact simple '\\' (by decide)
  · exact simple 'n' (by decide)
  · exact simple 'r' (by decide)
  · exact simple 't' (by decide)
  · exact simple 'b' (by decide)
  · exact simple 'f' (by decide)
  · have digits : ∀ n < 16, (Json.hexDigit n).toNat ≠ '"'.toNat ∧ (Json.hexDigit n).toNat ≠ '\\'.toNat := by decide
    have plain : ∀ u ∈ ofText ['0', '0', Json.hexDigit (c.toNat / 16), Json.hexDigit (c.toNat % 16)],
        u ≠ '"'.toNat ∧ u ≠ '\\'.toNat := by
      simp only [ofText, List.flatMap_cons, List.flatMap_nil]
      rw [ofChar_ascii (hexDigit_ascii _ (by omega)), ofChar_ascii (hexDigit_ascii _ (by omega))]
      intro u member
      simp only [List.mem_append, List.mem_singleton, List.not_mem_nil, or_false] at member
      rcases member with zero | zero | rfl | rfl
      · rw [List.mem_singleton.mp zero]
        decide
      · rw [List.mem_singleton.mp zero]
        decide
      · exact digits _ (by omega)
      · exact digits _ (by omega)
    have read := readLiteral_escape 'u'.toNat
      (ofText ['0', '0', Json.hexDigit (c.toNat / 16), Json.hexDigit (c.toNat % 16)] ++ rest)
    rw [readLiteral_plain plain] at read
    exact read
  · refine readLiteral_plain ?_ rest
    intro u member
    have unit : u ∈ ofChar c := by simpa [ofText] using member
    by_cases ascii : c.toNat < 0x80
    · rw [ofChar_ascii ascii] at unit
      rw [List.mem_singleton.mp unit]
      exact ⟨fun same => quote (Char.toNat_inj.mp same), fun same => slash (Char.toNat_inj.mp same)⟩
    · have other := ascii_le_of_mem (Nat.not_lt.mp ascii) u unit
      have : '"'.toNat = 34 := rfl
      have : '\\'.toNat = 92 := rfl
      omega

theorem readLiteral_escaped (s : Text) (rest : Units) :
    readLiteral (ofText (Json.escaped s) ++ rest) = (ofText (Json.escaped s), rest) := by
  induction s with
  | nil =>
    show readLiteral ('"'.toNat :: rest) = _
    rw [readLiteral.eq_def]
    rfl
  | cons c s ih => rw [Json.escaped, ofText_append, List.append_assoc, readLiteral_escapeChar, ih]

section
variable {offset index : Nat} {stack : List Frame} {rest : Units}

/-- Past the offset the scan ends with the stack that it has. -/
theorem scan_past (past : offset < index) (rest : Units) : scan offset stack index rest = currentSegments stack := by
  cases rest with
  | nil => rw [scan]
  | cons u rest => rw [scan, if_pos past]

theorem scan_silent {u : Nat} (silent : IsSilent u) (within : index ≤ offset) :
    scan offset stack index (u :: rest) = scan offset stack (index + 1) rest := by
  obtain ⟨quote, brace, bracket, brace', bracket', comma⟩ := silent
  rw [scan, if_neg (by omega), if_neg quote, if_neg (not_or.mpr ⟨brace, bracket⟩), if_neg (not_or.mpr ⟨brace', bracket'⟩),
    if_neg comma]

theorem scan_silents {units : Units} (silent : ∀ u ∈ units, IsSilent u) (within : index + units.length ≤ offset + 1) :
    scan offset stack index (units ++ rest) = scan offset stack (index + units.length) rest := by
  induction units generalizing index with
  | nil => rfl
  | cons u units ih =>
    rw [List.length_cons] at within ⊢
    rw [List.cons_append, scan_silent (silent u List.mem_cons_self) (by omega),
      ih (fun v member => silent v (List.mem_cons_of_mem _ member)) (by omega)]
    congr 1
    omega

theorem scan_comma (within : index ≤ offset) :
    scan offset stack index (','.toNat :: rest) = scan offset (nextMember stack) (index + 1) rest := by
  rw [scan, if_neg (by omega), if_neg (by decide), if_neg (by decide), if_neg (by decide), if_pos rfl]

/-- A closing bracket leads back to the container, also where the scan ends at it. -/
theorem scan_close {u : Nat} {frame : Frame} (closes : u = '}'.toNat ∨ u = ']'.toNat) (within : index ≤ offset) :
    scan offset (frame :: stack) index (u :: rest) = scan offset stack (index + 1) rest := by
  have other : u ≠ '"'.toNat ∧ ¬ (u = '{'.toNat ∨ u = '['.toNat) := by
    rcases closes with rfl | rfl <;> decide
  rw [scan, if_neg (by omega), if_neg other.1, if_neg other.2, if_pos closes]
  split
  · exact (scan_past (by omega) rest).symm
  · rfl

theorem scan_open {u : Nat} (opens : u = '{'.toNat ∨ u = '['.toNat) (within : index ≤ offset) :
    scan offset stack index (u :: rest) = scan offset ({ array := u = '['.toNat } :: stack) (index + 1) rest := by
  have other : u ≠ '"'.toNat := by
    rcases opens with rfl | rfl <;> decide
  rw [scan, if_neg (by omega), if_neg other, if_pos opens]

theorem scan_string (s : Text) (within : index ≤ offset) :
    scan offset stack index (ofText (Json.renderString s) ++ rest) =
      scan offset (noteKey (ofText (Json.renderString s)) rest stack) (index + (ofText (Json.renderString s)).length) rest := by
  have units : ofText (Json.renderString s) = '"'.toNat :: ofText (Json.escaped s) := rfl
  rw [units, List.cons_append, scan, if_neg (by omega), if_pos rfl, readLiteral_escaped, List.length_cons]
  dsimp only
  congr 1
  omega

theorem noteKey_noColon (none : NoColon rest) (literal : Units) : noteKey literal rest stack = stack := by
  cases stack with
  | nil => rfl
  | cons frame below =>
    have other : decide ((rest.dropWhile isSpaceUnit).head? = some ':'.toNat) = false := decide_eq_false none
    unfold noteKey
    dsimp only
    rw [other]
    rfl

theorem nextMember_array {frame : Frame} (array : frame.array = true) :
    nextMember (frame :: stack) = { frame with index := frame.index + 1 } :: stack := by
  unfold nextMember
  dsimp only
  rw [if_pos array]

theorem nextMember_object {frame : Frame} (object : frame.array = false) :
    nextMember (frame :: stack) = { frame with key := none } :: stack := by
  unfold nextMember
  dsimp only
  rw [if_neg (by simp [object])]

theorem next_array {frame : Frame} (array : frame.array = true) :
    Frame.array { frame with index := frame.index + 1 } = true := array

theorem keyed_object {frame : Frame} (object : frame.array = false) (key : Option Units) :
    Frame.array { frame with key } = false := object

theorem noteKey_member {frame : Frame} (object : frame.array = false) (name : Text) (rest : Units) :
    noteKey (ofText (Json.renderString name)) (':'.toNat :: rest) (frame :: stack) =
      { frame with key := some (ofText name) } :: stack := by
  have colon : isSpaceUnit ':'.toNat = false := by decide
  unfold noteKey
  dsimp only
  rw [List.dropWhile_cons_of_neg (by rw [colon]; decide), List.head?_cons, object, parseString_renderString]
  rfl

theorem scan_name {frame : Frame} (object : frame.array = false) (name : Text)
    (within : index + (ofText (Json.renderString name)).length ≤ offset) :
    scan offset (frame :: stack) index (ofText (Json.renderString name) ++ ':'.toNat :: rest) =
      scan offset ({ frame with key := some (ofText name) } :: stack) (index + (ofText (Json.renderString name)).length + 1)
        rest := by
  rw [scan_string name (by omega), noteKey_member object, scan_silent (by unfold IsSilent; decide) within]

theorem noColon_of_head {u : Nat} (head : rest.head? = some u) (other : u ≠ ':'.toNat) (plain : isSpaceUnit u = false) :
    NoColon rest := by
  cases rest with
  | nil => cases head
  | cons v rest =>
    obtain rfl := Option.some.inj head
    unfold NoColon
    rw [List.dropWhile_cons_of_neg (by simp [plain]), List.head?_cons]
    exact fun same => other (Option.some.inj same)

theorem noColon_items (back : List Json) (rest : Units) : NoColon (ofText (Json.renderItems false back) ++ rest) := by
  cases back with
  | nil => exact noColon_of_head (u := ']'.toNat) rfl (by decide) (by decide)
  | cons item back => exact noColon_of_head (u := ','.toNat) rfl (by decide) (by decide)

theorem noColon_entries (back : List (Text × Json)) (rest : Units) :
    NoColon (ofText (Json.renderEntries false back) ++ rest) := by
  cases back with
  | nil => exact noColon_of_head (u := '}'.toNat) rfl (by decide) (by decide)
  | cons entry back => exact noColon_of_head (u := ','.toNat) rfl (by decide) (by decide)

end

theorem isNumberChar_ascii {c : Char} (numeric : isNumberChar c = true) : c.toNat < 0x80 := by
  simp only [isNumberChar, Bool.or_eq_true, decide_eq_true_eq, List.mem_cons, List.not_mem_nil, or_false] at numeric
  rcases numeric with digit | rfl | rfl | rfl | rfl | rfl
  · simp only [Char.isDigit, Bool.and_eq_true, decide_eq_true_eq] at digit
    exact Nat.lt_of_le_of_lt (UInt32.le_iff_toNat_le.mp digit.2) (by decide)
  all_goals decide

theorem isSilent_number {n : JsonNumber} : ∀ u ∈ ofText n.text, IsSilent u := by
  intro u member
  obtain ⟨c, inside, unit⟩ := List.mem_flatMap.mp member
  have numeric := n.numeric c inside
  have other : ∀ d : Char, isNumberChar d = false → c ≠ d := fun d no same => by
    rw [same, no] at numeric
    cases numeric
  rw [ofChar_ascii (isNumberChar_ascii numeric)] at unit
  rw [List.mem_singleton.mp unit]
  have apart : ∀ d : Char, isNumberChar d = false → c.toNat ≠ d.toNat := fun d no same => other d no (Char.toNat_inj.mp same)
  exact ⟨apart _ (by decide), apart _ (by decide), apart _ (by decide), apart _ (by decide), apart _ (by decide),
    apart _ (by decide)⟩

mutual
/-- A value is passed as a whole, also where the offset is at its last unit. -/
theorem scan_render : ∀ (value : Json) {offset index : Nat} {stack : List Frame} {rest : Units}, NoColon rest →
    index + (ofText value.render).length ≤ offset + 1 →
    scan offset stack index (ofText value.render ++ rest) = scan offset stack (index + (ofText value.render).length) rest
  | .null, _, _, _, _, _, within => scan_silents (by unfold IsSilent; decide) within
  | .bool true, _, _, _, _, _, within => scan_silents (by unfold IsSilent; decide) within
  | .bool false, _, _, _, _, _, within => scan_silents (by unfold IsSilent; decide) within
  | .num n, _, _, _, _, _, within => scan_silents isSilent_number within
  | .str s, offset, index, _, _, follows, within => by
    have nonempty : 0 < (ofText (Json.renderString s)).length := Nat.succ_pos _
    rw [Json.render] at within ⊢
    rw [scan_string s (by omega), noteKey_noColon follows]
  | .arr items, offset, index, stack, rest, _, within => by
    have units : ofText (Json.arr items).render = '['.toNat :: ofText (Json.renderItems true items) := by
      rw [Json.render]
      rfl
    rw [units, List.length_cons] at within ⊢
    rw [List.cons_append, scan_open (.inr rfl) (by omega), scan_renderItems items true (by decide) (by omega)]
    congr 1
    omega
  | .obj entries, offset, index, stack, rest, _, within => by
    have units : ofText (Json.obj entries).render = '\x7b'.toNat :: ofText (Json.renderEntries true entries) := by
      rw [Json.render]
      rfl
    rw [units, List.length_cons] at within ⊢
    rw [List.cons_append, scan_open (.inl rfl) (by omega), scan_renderEntries entries true (by decide) (by omega)]
    congr 1
    omega
theorem scan_renderItems : ∀ (items : List Json) (first : Bool) {offset index : Nat} {frame : Frame} {stack : List Frame}
    {rest : Units}, frame.array = true → index + (ofText (Json.renderItems first items)).length ≤ offset + 1 →
    scan offset (frame :: stack) index (ofText (Json.renderItems first items) ++ rest) =
      scan offset stack (index + (ofText (Json.renderItems first items)).length) rest
  | [], _, _, _, _, _, _, _, within => scan_close (.inr rfl) (Nat.le_of_succ_le_succ within)
  | item :: items, true, offset, index, frame, stack, rest, array, within => by
    rw [Json.renderItems, if_pos rfl, List.nil_append, ofText_append, List.length_append] at within ⊢
    rw [List.append_assoc, scan_render item (noColon_items items rest) (by omega),
      scan_renderItems items false array (by omega), Nat.add_assoc]
  | item :: items, false, offset, index, frame, stack, rest, array, within => by
    have units : ofText (Json.renderItems false (item :: items)) =
        ','.toNat :: (ofText item.render ++ ofText (Json.renderItems false items)) := by
      rw [Json.renderItems, ← ofText_append]
      rfl
    rw [units, List.length_cons, List.length_append] at within ⊢
    rw [List.cons_append, List.append_assoc, scan_comma (by omega), scan_render item (noColon_items items rest) (by omega)]
    rw [nextMember_array array, scan_renderItems items false (next_array array) (by omega)]
    congr 1
    omega
theorem scan_renderEntries : ∀ (entries : List (Text × Json)) (first : Bool) {offset index : Nat} {frame : Frame}
    {stack : List Frame} {rest : Units}, frame.array = false →
    index + (ofText (Json.renderEntries first entries)).length ≤ offset + 1 →
    scan offset (frame :: stack) index (ofText (Json.renderEntries first entries) ++ rest) =
      scan offset stack (index + (ofText (Json.renderEntries first entries)).length) rest
  | [], _, _, _, _, _, _, _, within => scan_close (.inl rfl) (Nat.le_of_succ_le_succ within)
  | (name, value) :: entries, true, offset, index, frame, stack, rest, object, within => by
    have units : ofText (Json.renderEntries true ((name, value) :: entries)) = ofText (Json.renderString name) ++
        ':'.toNat :: (ofText value.render ++ ofText (Json.renderEntries false entries)) := by
      rw [Json.renderEntries, if_pos rfl, List.nil_append, ← ofText_append]
      show ofText (Json.renderString name ++ ':' :: value.render ++ Json.renderEntries false entries) = _
      rw [List.append_assoc, ofText_append]
      rfl
    rw [units, List.length_append, List.length_cons, List.length_append] at within ⊢
    rw [List.append_assoc, List.cons_append, List.append_assoc, scan_name object name (by omega),
      scan_render value (noColon_entries entries rest) (by omega),
      scan_renderEntries entries false (keyed_object object _) (by omega)]
    congr 1
    omega
  | (name, value) :: entries, false, offset, index, frame, stack, rest, object, within => by
    have units : ofText (Json.renderEntries false ((name, value) :: entries)) = ','.toNat :: (ofText (Json.renderString name) ++
        ':'.toNat :: (ofText value.render ++ ofText (Json.renderEntries false entries))) := by
      rw [Json.renderEntries, ← ofText_append]
      show ofText (',' :: (Json.renderString name ++ ':' :: value.render ++ Json.renderEntries false entries)) = _
      rw [List.append_assoc, ofText_cons, ofText_append]
      rfl
    rw [units, List.length_cons, List.length_append, List.length_cons, List.length_append] at within ⊢
    rw [List.cons_append, List.append_assoc, List.cons_append, List.append_assoc, scan_comma (by omega)]
    rw [nextMember_object object, scan_name (keyed_object object _) name (by omega),
      scan_render value (noColon_entries entries rest) (by omega),
      scan_renderEntries entries false (keyed_object object _) (by omega)]
    congr 1
    omega
end

/-! ### The path of a part -/

def stepSegment : Step → Units
  | .key name => ofText name
  | .index i => indexSegment i

theorem currentSegments_cons (frame : Frame) (stack : List Frame) :
    currentSegments (frame :: stack) = currentSegments stack ++ frame.segment.toList := by
  unfold currentSegments
  rw [List.reverse_cons, List.filterMap_append]
  cases segment : frame.segment <;> simp [segment]

theorem render_length_pos (value : Json) : 0 < (ofText value.render).length := by
  obtain ⟨c, rest, text, -⟩ := Json.render_head value
  obtain ⟨first, others, units, -⟩ := codePoint_ofChar c []
  rw [text, ofText_cons, units]
  exact Nat.succ_pos _

section
variable {offset index : Nat} {stack : List Frame} {rest : Units}

/-- The items before one are passed, each with its comma. -/
theorem scan_itemsBefore (front : List Json) {frame : Frame} (array : frame.array = true)
    (within : index + (ofText (Json.itemsBefore front)).length ≤ offset) :
    scan offset (frame :: stack) index (ofText (Json.itemsBefore front) ++ rest) =
      scan offset ({ frame with index := frame.index + front.length } :: stack)
        (index + (ofText (Json.itemsBefore front)).length) rest := by
  induction front generalizing index frame with
  | nil => rfl
  | cons item front ih =>
    have units : ofText (Json.itemsBefore (item :: front)) =
        ofText item.render ++ ','.toNat :: ofText (Json.itemsBefore front) := by
      unfold Json.itemsBefore
      rw [List.flatMap_cons, ofText_append, ofText_append, List.append_assoc]
      rfl
    rw [units, List.length_append, List.length_cons] at within ⊢
    rw [List.append_assoc, List.cons_append,
      scan_render item (noColon_of_head (u := ','.toNat) rfl (by decide) (by decide)) (by omega), scan_comma (by omega),
      nextMember_array array, ih (next_array array) (by omega), List.length_cons]
    dsimp only
    congr 1
    · rw [Nat.add_assoc, Nat.add_comm 1]
    · omega

/-- The members before one are passed, each with its comma. -/
theorem scan_entriesBefore (front : List (Text × Json)) {frame : Frame} (object : frame.array = false)
    (within : index + (ofText (front.flatMap Json.entryBefore)).length ≤ offset) :
    ∃ key, scan offset (frame :: stack) index (ofText (front.flatMap Json.entryBefore) ++ rest) =
      scan offset ({ frame with key } :: stack) (index + (ofText (front.flatMap Json.entryBefore)).length) rest := by
  induction front generalizing index frame with
  | nil => exact ⟨frame.key, rfl⟩
  | cons entry front ih =>
    have units : ofText ((entry :: front).flatMap Json.entryBefore) = ofText (Json.renderString entry.1) ++
        ':'.toNat :: (ofText entry.2.render ++ ','.toNat :: ofText (front.flatMap Json.entryBefore)) := by
      rw [List.flatMap_cons, ofText_append, Json.entryBefore, ofText_append, ofText_cons, ofText_append]
      simp only [List.append_assoc]
      rfl
    rw [units, List.length_append, List.length_cons, List.length_append, List.length_cons] at within ⊢
    rw [List.append_assoc, List.cons_append, List.append_assoc, List.cons_append, scan_name object entry.1 (by omega),
      scan_render entry.2 (noColon_of_head (u := ','.toNat) rfl (by decide) (by decide)) (by omega), scan_comma (by omega),
      nextMember_object (keyed_object object _)]
    obtain ⟨key, passed⟩ := @ih (index + (ofText (Json.renderString entry.1)).length + 1 + (ofText entry.2.render).length + 1) _
      (keyed_object object none) (by omega)
    refine ⟨key, passed.trans ?_⟩
    congr 1
    omega

end

/-- A scan up to the last unit of a part ends with the path of the part. -/
theorem scan_inside {value part : Json} {path : List Step} {before after : Text}
    (inside : Json.Inside value path before part after) {offset index : Nat} {stack : List Frame} {rest : Units}
    (follows : NoColon rest) (last : offset + 1 = index + (ofText before).length + (ofText part.render).length) :
    scan offset stack index (ofText value.render ++ rest) = currentSegments stack ++ path.map stepSegment := by
  have filled := render_length_pos part
  induction inside generalizing index stack rest with
  | here value =>
    have start : (ofText ([] : Text)).length = 0 := rfl
    rw [scan_render value follows (by omega), scan_past (by omega), List.map_nil, List.append_nil]
  | @item front back item part path before after _ ih =>
    have units : ofText (Json.arr (front ++ item :: back)).render =
        '['.toNat :: (ofText (Json.itemsBefore front) ++ (ofText item.render ++ ofText (Json.renderItems false back))) := by
      rw [Json.render, Json.renderItems_append, ← ofText_append, ← ofText_append]
      rfl
    have start : (ofText ('[' :: (Json.itemsBefore front ++ before))).length =
        (ofText (Json.itemsBefore front)).length + (ofText before).length + 1 := by
      rw [ofText_cons, ofText_append, List.length_append, List.length_append]
      exact Nat.add_comm ..
    rw [start] at last
    rw [units, List.cons_append, List.append_assoc, List.append_assoc, scan_open (.inr rfl) (by omega),
      scan_itemsBefore front rfl (by omega), ih (noColon_items back rest) (by omega) filled, currentSegments_cons,
      List.append_assoc, List.map_cons]
    show _ ++ (indexSegment (0 + front.length) :: _) = _
    rw [Nat.zero_add]
    rfl
  | @entry front back name value part path before after _ ih =>
    have units : ofText (Json.obj (front ++ (name, value) :: back)).render =
        '\x7b'.toNat :: (ofText (front.flatMap Json.entryBefore) ++ (ofText (Json.renderString name) ++
          ':'.toNat :: (ofText value.render ++ ofText (Json.renderEntries false back)))) := by
      rw [Json.render, Json.renderEntries_append, ← ofText_append]
      show ofText ('\x7b' :: _) = _
      rw [ofText_cons, ofText_append, ofText_append]
      rfl
    have start : (ofText ('\x7b' :: (front.flatMap Json.entryBefore ++ (Json.renderString name ++ ':' :: before)))).length =
        (ofText (front.flatMap Json.entryBefore)).length + (ofText (Json.renderString name)).length +
          (ofText before).length + 2 := by
      rw [ofText_cons, ofText_append, ofText_append, ofText_cons]
      simp only [List.length_append, ofChar_ascii (show '\x7b'.toNat < 0x80 by decide),
        ofChar_ascii (show ':'.toNat < 0x80 by decide), List.length_singleton]
      omega
    rw [start] at last
    obtain ⟨key, passed⟩ := @scan_entriesBefore offset (index + 1) stack
      (ofText (Json.renderString name) ++ ':'.toNat :: (ofText value.render ++ (ofText (Json.renderEntries false back) ++ rest)))
      front { array := false } rfl (by omega)
    simp only [units, List.cons_append, List.append_assoc]
    rw [scan_open (.inl rfl) (by omega)]
    refine passed.trans ?_
    rw [scan_name rfl name (by omega), ih (noColon_entries back rest) (by omega) filled, currentSegments_cons,
      List.append_assoc]
    rfl

/-! ### Counting bytes -/

def utf8Length (text : Text) : Nat := (text.map Char.utf8Size).sum

theorem utf8Length_append (a b : Text) : utf8Length (a ++ b) = utf8Length a + utf8Length b := by
  unfold utf8Length
  rw [List.map_append, List.sum_append]

theorem countBytes_ofChar {byteOffset bytes index : Nat} (before : bytes < byteOffset) (c : Char) (rest : Units) :
    countBytes byteOffset bytes index (ofChar c ++ rest) =
      countBytes byteOffset (bytes + c.utf8Size) (index + (ofChar c).length) rest := by
  obtain ⟨first, others, units, point, count⟩ := codePoint_ofChar c rest
  have size : (if c.toNat < 0x80 then 1 else if c.toNat < 0x800 then 2 else if c.toNat < 0x10000 then 3 else 4) =
      c.utf8Size := by
    unfold Char.utf8Size Char.toNat
    simp only [UInt32.le_iff_toNat_le]
    split_ifs <;> simp_all <;> omega
  rw [units, List.cons_append, countBytes, if_neg (by omega), point]
  dsimp only
  rw [size, List.length_cons]
  split
  · next pair =>
    rw [if_pos pair] at count
    have second : (others ++ rest).drop 1 = rest := by rw [← count, List.drop_left]
    rw [second, count]
  · next single =>
    rw [if_neg single] at count
    rw [List.eq_nil_of_length_eq_zero count]
    rfl

/-- The bytes of a text lead to its end. -/
theorem countBytes_ofText (text : Text) {bytes index : Nat} (rest : Units) :
    countBytes (bytes + utf8Length text) bytes index (ofText text ++ rest) = index + (ofText text).length := by
  induction text generalizing bytes index with
  | nil =>
    cases rest with
    | nil => exact countBytes.eq_1 ..
    | cons first rest => exact (countBytes.eq_2 ..).trans (if_pos (Nat.le_refl _))
  | cons c text ih =>
    have sizes : bytes + utf8Length (c :: text) = bytes + c.utf8Size + utf8Length text := by
      unfold utf8Length
      rw [List.map_cons, List.sum_cons, Nat.add_assoc]
    have positive := c.utf8Size_pos
    rw [ofText_cons, List.append_assoc, countBytes_ofChar (by omega), sizes, ih, List.length_append]
    omega

theorem utf16IndexForByteOffset_ofText (front back : Text) :
    utf16IndexForByteOffset (ofText (front ++ back)) (utf8Length front) = (ofText front).length := by
  unfold utf16IndexForByteOffset
  split
  · next empty =>
    cases front with
    | nil => rfl
    | cons c front =>
      have positive := c.utf8Size_pos
      unfold utf8Length at empty
      rw [List.map_cons, List.sum_cons] at empty
      omega
  · have counted := @countBytes_ofText front 0 0 (ofText back)
    rwa [Nat.zero_add, Nat.zero_add, ← ofText_append] at counted

theorem renderItems_last (first : Bool) (items : List Json) : ∃ front, Json.renderItems first items = front ++ [']'] := by
  induction items generalizing first with
  | nil => exact ⟨[], rfl⟩
  | cons item items ih =>
    obtain ⟨front, text⟩ := ih false
    exact ⟨_, by rw [Json.renderItems, text, ← List.append_assoc]⟩

theorem renderEntries_last (first : Bool) (entries : List (Text × Json)) :
    ∃ front, Json.renderEntries first entries = front ++ ['\x7d'] := by
  induction entries generalizing first with
  | nil => exact ⟨[], rfl⟩
  | cons entry entries ih =>
    obtain ⟨front, text⟩ := ih false
    exact ⟨_, by rw [Json.renderEntries, text, ← List.append_assoc]⟩

theorem escaped_last (s : Text) : ∃ front, Json.escaped s = front ++ ['"'] := by
  induction s with
  | nil => exact ⟨[], rfl⟩
  | cons c s ih =>
    obtain ⟨front, text⟩ := ih
    exact ⟨_, by rw [Json.escaped, text, ← List.append_assoc]⟩

/-- The text of a value ends with a character of ASCII. -/
theorem render_last (value : Json) : ∃ front c, value.render = front ++ [c] ∧ c.toNat < 0x80 := by
  cases value with
  | null => exact ⟨"nul", 'l', rfl, by decide⟩
  | bool b =>
    cases b
    · exact ⟨"fals", 'e', rfl, by decide⟩
    · exact ⟨"tru", 'e', rfl, by decide⟩
  | num n =>
    obtain ⟨front, c, text⟩ := List.eq_nil_or_concat n.text |>.resolve_left n.nonempty
    have numeric := n.numeric c (by rw [text]; simp)
    exact ⟨front, c, by rw [Json.render, text, List.concat_eq_append], isNumberChar_ascii numeric⟩
  | str s =>
    obtain ⟨front, text⟩ := escaped_last s
    exact ⟨'"' :: front, '"', by rw [Json.render, Json.renderString, text]; rfl, by decide⟩
  | arr items =>
    obtain ⟨front, text⟩ := renderItems_last true items
    exact ⟨'[' :: front, ']', by rw [Json.render, text]; rfl, by decide⟩
  | obj entries =>
    obtain ⟨front, text⟩ := renderEntries_last true entries
    exact ⟨'\x7b' :: front, '\x7d', by rw [Json.render, text]; rfl, by decide⟩

/-- The column of the last byte of a part that stands behind a text. -/
def lastColumn (before : Text) (part : Json) : Nat := utf8Length (before ++ part.render)

/-- At the last byte of a part, the scan finds the path of the part. -/
theorem jsonPathAtOffset_inside {value part : Json} {path : List Step} {before after : Text}
    (inside : Json.Inside value path before part after) :
    jsonPathAtOffset (ofText value.render) (utf16IndexForByteOffset (ofText value.render) (lastColumn before part - 1)) =
      path.map stepSegment := by
  obtain ⟨front, c, text, ascii⟩ := render_last part
  have byte : c.utf8Size = 1 := by
    unfold Char.utf8Size
    have small : c.val.toNat < 0x80 := ascii
    exact if_pos (UInt32.le_iff_toNat_le.mpr (Nat.le_of_lt_succ small))
  have column : lastColumn before part - 1 = utf8Length (before ++ front) := by
    rw [lastColumn, text, ← List.append_assoc, utf8Length_append _ [c]]
    show _ + (c.utf8Size + 0) - 1 = _
    rw [byte]
    omega
  have split : value.render = (before ++ front) ++ (c :: after) := by
    rw [inside.text, text]
    simp
  have units : (ofText part.render).length = (ofText front).length + 1 := by
    rw [text, ofText_append, List.length_append, ofText_cons, ofChar_ascii ascii]
    rfl
  have offset : utf16IndexForByteOffset (ofText value.render) (lastColumn before part - 1) =
      (ofText before).length + (ofText front).length := by
    rw [column, split, utf16IndexForByteOffset_ofText, ofText_append, List.length_append]
  have found := @scan_inside _ _ _ _ _ inside ((ofText before).length + (ofText front).length) 0 [] [] nofun (by omega)
  rw [List.append_nil] at found
  rw [offset]
  exact found

/-! ### Reading the path back -/

theorem property_name (entries : List (Text × Json)) (name : Text) :
    property (ofText name) (.obj entries) = entries.lookup name := by
  show (entries.find? fun entry => ofText entry.1 == ofText name).map Prod.snd = _
  induction entries with
  | nil => rfl
  | cons entry rest ih =>
    obtain ⟨other, value⟩ := entry
    rw [List.find?_cons, List.lookup_cons]
    by_cases same : other = name
    · subst same
      simp
    · have apart : (ofText other == ofText name) = false := beq_eq_false_iff_ne.mpr fun units => same (ofText_injective units)
      rw [apart, beq_eq_false_iff_ne.mpr (Ne.symm same)]
      exact ih

theorem property_index {items : List Json} {i : Nat} (within : i < items.length) :
    property (ofText (Text.ofNat i)) (.arr items) = items[i]? := by
  have number : ofText (Text.ofNat i) ≠ ofText "length" := by
    intro same
    have letter : 'l' ∈ Text.ofNat i := by
      rw [ofText_injective same]
      decide
    exact absurd (Nat.isDigit_of_mem_toDigits (by decide) (by decide) letter) (by decide)
  have found : (List.range items.length).find? (fun j => ofText (Text.ofNat j) == ofText (Text.ofNat i)) = some i := by
    refine List.find?_range_eq_some.mpr ⟨beq_self_eq_true _, List.mem_range.mpr within, fun j before => ?_⟩
    have apart : ofText (Text.ofNat j) ≠ ofText (Text.ofNat i) := fun same =>
      absurd (Text.ofNat_injective (ofText_injective same)) (by omega)
    simp [apart]
  unfold property
  dsimp only
  rw [if_neg number, found, Option.bind_some]

theorem head_ofText (name : Text) : (ofText name).head? = some '['.toNat ↔ name.head? = some '[' := by
  cases name with
  | nil => exact ⟨nofun, nofun⟩
  | cons c rest =>
    rw [ofText_cons, List.head?_cons]
    by_cases ascii : c.toNat < 0x80
    · rw [ofChar_ascii ascii]
      constructor
      · intro same
        rw [Char.toNat_inj.mp (Option.some.inj same)]
      · intro same
        rw [Option.some.inj same]
        rfl
    · obtain ⟨first, others, units, -⟩ := codePoint_ofChar c []
      have other := ascii_le_of_mem (Nat.not_lt.mp ascii) first (by rw [units]; exact List.mem_cons_self)
      rw [units]
      constructor
      · intro same
        rw [Option.some.inj same] at other
        exact absurd other (by decide)
      · intro same
        rw [Option.some.inj same] at ascii
        exact absurd (by decide) ascii

section
variable {numberKey : Units → Units}

/-- Each key of an object that begins with a bracket is read as a number, and that number has its value. -/
def ReadsBrackets (numberKey : Units → Units) (entries : List (Text × Json)) : Prop :=
  ∀ entry ∈ entries, entry.1.head? = some '[' →
    property (numberKey ((ofText entry.1).drop 1).dropLast) (.obj entries) = some entry.2

theorem segmentKey_index {i : Nat} (number : numberKey (ofText (Text.ofNat i)) = ofText (Text.ofNat i)) :
    segmentKey numberKey (indexSegment i) = ofText (Text.ofNat i) := by
  unfold segmentKey indexSegment
  rw [List.head?_cons, if_pos rfl, List.drop_succ_cons, List.drop_zero, List.dropLast_concat, number]

theorem segmentKey_name {name : Text} (plain : name.head? ≠ some '[') : segmentKey numberKey (ofText name) = ofText name :=
  if_neg fun bracket => plain ((head_ofText name).mp bracket)

theorem segmentKey_bracket {name : Text} (bracket : name.head? = some '[') :
    segmentKey numberKey (ofText name) = numberKey ((ofText name).drop 1).dropLast :=
  if_pos ((head_ofText name).mpr bracket)

theorem valueAtPath_concat (root : Json) (segments : List Units) (segment : Units) :
    valueAtPath numberKey root (segments ++ [segment]) =
      (valueAtPath numberKey root segments).bind (property (segmentKey numberKey segment)) := by
  unfold valueAtPath
  rw [List.foldl_append]
  rfl

theorem valueAtPath_cons {root inner : Json} {segment : Units}
    (found : property (segmentKey numberKey segment) root = some inner) (segments : List Units) :
    valueAtPath numberKey root (segment :: segments) = valueAtPath numberKey inner segments := by
  unfold valueAtPath
  rw [List.foldl_cons, Option.bind_some, found]

/-- Where every object is read right, so is every path. -/
theorem valueAtPath_inside (numbers : ∀ i < 2 ^ 32, numberKey (ofText (Text.ofNat i)) = ofText (Text.ofNat i))
    {value part : Json} {path : List Step} {before after : Text} (inside : Json.Inside value path before part after)
    (distinct : value.Distinct)
    (arrays : ∀ path before items after, Json.Inside value path before (.arr items) after → items.length < 2 ^ 32)
    (reads : ∀ path before entries after, Json.Inside value path before (.obj entries) after → ReadsBrackets numberKey entries) :
    valueAtPath numberKey value (path.map stepSegment) = some part := by
  induction inside with
  | here value => rfl
  | @item front back item part path before after _ ih =>
    have length := arrays _ _ _ _ (.here _)
    rw [List.length_append, List.length_cons] at length
    have there : (front ++ item :: back)[front.length]? = some item := by
      rw [List.getElem?_append_right (Nat.le_refl _), Nat.sub_self, List.getElem?_cons_zero]
    have found : property (segmentKey numberKey (indexSegment front.length)) (.arr (front ++ item :: back)) = some item := by
      rw [segmentKey_index (numbers _ (by omega)), property_index (by simp), there]
    have inner := Json.distinct_of_item distinct (List.mem_append_right front List.mem_cons_self)
    rw [List.map_cons, stepSegment, valueAtPath_cons found]
    exact ih inner (fun _ _ _ _ deeper => arrays _ _ _ _ (.item deeper)) fun _ _ _ _ deeper => reads _ _ _ _ (.item deeper)
  | @entry front back name value part path before after _ ih =>
    have member : (name, value) ∈ front ++ (name, value) :: back := List.mem_append_right _ List.mem_cons_self
    have found : property (segmentKey numberKey (ofText name)) (.obj (front ++ (name, value) :: back)) = some value := by
      by_cases bracket : name.head? = some '['
      · rw [segmentKey_bracket bracket]
        exact reads _ _ _ _ (.here _) _ member bracket
      · rw [segmentKey_name bracket, property_name, Assoc.lookup_of_mem distinct.1 member]
    rw [List.map_cons, stepSegment, valueAtPath_cons found]
    exact ih (Json.distinct_of_entry distinct.2 member) (fun _ _ _ _ deeper => arrays _ _ _ _ (.entry deeper))
      fun _ _ _ _ deeper => reads _ _ _ _ (.entry deeper)

end

/-- At the last byte of each part of a value stands a path at which that part is read, if and only if each key
that begins with a bracket is the same as a number. -/
theorem located_iff (numberKey : Units → Units)
    (numbers : ∀ i < 2 ^ 32, numberKey (ofText (Text.ofNat i)) = ofText (Text.ofNat i)) (value : Json) (distinct : value.Distinct)
    (arrays : ∀ path before items after, Json.Inside value path before (.arr items) after → items.length < 2 ^ 32) :
    (∀ path before part after, Json.Inside value path before part after →
      valueAtPath numberKey value (jsonPathAtOffset (ofText value.render)
        (utf16IndexForByteOffset (ofText value.render) (lastColumn before part - 1))) = some part) ↔
      ∀ path before entries after, Json.Inside value path before (.obj entries) after → ReadsBrackets numberKey entries := by
  constructor
  · intro located path before entries after inside entry member bracket
    obtain ⟨_, _, deeper⟩ := inside.entry_of_mem member
    have whole := located _ _ _ _ inside
    have read := located _ _ _ _ deeper
    rw [jsonPathAtOffset_inside inside] at whole
    rw [jsonPathAtOffset_inside deeper, List.map_append, List.map_singleton, valueAtPath_concat, whole, Option.bind_some,
      stepSegment, segmentKey_bracket bracket] at read
    exact read
  · intro reads path before part after inside
    rw [jsonPathAtOffset_inside inside]
    exact valueAtPath_inside numbers inside distinct arrays reads

/-- `String(Number(text))` of decimal digits, which no other text is here. -/
def digitsKey (units : Units) : Units :=
  if units.all fun u => '0'.toNat ≤ u && u ≤ '9'.toNat then units else ofText "NaN"

theorem digitsKey_ofNat (i : Nat) : digitsKey (ofText (Text.ofNat i)) = ofText (Text.ofNat i) := by
  unfold digitsKey
  rw [if_pos]
  rw [List.all_eq_true]
  intro u member
  obtain ⟨c, inside, unit⟩ := List.mem_flatMap.mp member
  have digit : c.isDigit = true := Nat.isDigit_of_mem_toDigits (by decide) (by decide) inside
  have ascii : c.toNat < 0x80 := isNumberChar_ascii (by rw [isNumberChar, digit, Bool.true_or])
  rw [ofChar_ascii ascii] at unit
  rw [List.mem_singleton.mp unit]
  simp only [Char.isDigit, Bool.and_eq_true, decide_eq_true_eq] at digit ⊢
  exact ⟨UInt32.le_iff_toNat_le.mp digit.1, UInt32.le_iff_toNat_le.mp digit.2⟩

/-- A value with a key that a bracket begins and one that has one inside. -/
def bracketRoutes : Json := .obj [("é\"[0]", .arr [.null, .str "🚚"]), ("[0]", .str "b"), ("0", .str "b")]

theorem bracketRoutes_located :
    (∀ path before part after, Json.Inside bracketRoutes path before part after →
      valueAtPath digitsKey bracketRoutes (jsonPathAtOffset (ofText bracketRoutes.render)
        (utf16IndexForByteOffset (ofText bracketRoutes.render) (lastColumn before part - 1))) = some part) ↔
      ∀ path before entries after, Json.Inside bracketRoutes path before (.obj entries) after →
        ReadsBrackets digitsKey entries :=
  located_iff digitsKey (fun i _ => digitsKey_ofNat i) bracketRoutes (by decide)
    fun _ _ _ _ inside => inside.items_lt.trans (by decide)

/-- A key that begins with a bracket is taken for an index of an array. -/
theorem bracket_key_lost :
    Json.Inside (.obj [("[a]", .null)]) [.key "[a]"] "\x7b\"[a]\":" .null "\x7d" ∧
    valueAtPath digitsKey (.obj [("[a]", .null)]) (jsonPathAtOffset (ofText "\x7b\"[a]\":null\x7d")
      (utf16IndexForByteOffset (ofText "\x7b\"[a]\":null\x7d") (lastColumn "\x7b\"[a]\":" .null - 1))) = none := by
  have inside : Json.Inside (.obj [("[a]", .null)]) [.key "[a]"] "\x7b\"[a]\":" .null "\x7d" :=
    @Json.Inside.entry [] [] _ _ _ _ _ _ (.here .null)
  refine ⟨inside, ?_⟩
  have found := jsonPathAtOffset_inside inside
  have text : (Json.obj [("[a]", .null)]).render = "\x7b\"[a]\":null\x7d" := by decide
  rw [text] at found
  rw [found]
  decide

end MqBridge.Ui
