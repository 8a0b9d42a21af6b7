import MqBridgeApp.Lib.Json

/-!
# JSON values in JavaScript

What a script makes of a parsed value: whether it counts as true, the string it is converted to, and
objects read and written by property.
-/

namespace MqBridge

def JsonNumber.isZero (n : JsonNumber) : Bool :=
  (n.text.takeWhile fun c => c != 'e' && c != 'E').all fun c => c ∈ ['-', '0', '.']

namespace Json

def truthy : Json → Bool
  | .null => false
  | .bool b => b
  | .num n => !n.isZero
  | .str s => !s.isEmpty
  | .arr _ | .obj _ => true

mutual
/-- `String(value)` -/
def toText : Json → Text
  | .null => "null"
  | .bool true => "true"
  | .bool false => "false"
  | .num n => n.text
  | .str s => s
  | .arr items => joined items
  | .obj _ => "[object Object]"
/-- The items of an array with commas between them, where null is empty. -/
def joined : List Json → Text
  | [] => []
  | [item] => itemText item
  | item :: rest => itemText item ++ ',' :: joined rest
def itemText : Json → Text
  | .null => []
  | .arr items => joined items
  | .bool true => "true"
  | .bool false => "false"
  | .num n => n.text
  | .str s => s
  | .obj _ => "[object Object]"
end

/-- `String(value || fallback)` -/
def textOr (fallback : Text) : Option Json → Text
  | some value => if value.truthy then value.toText else fallback
  | none => fallback

@[simp] theorem textOr_str (s : Text) : textOr [] (some (.str s)) = s := by
  cases s <;> rfl

/-- `value ?? undefined` -/
def present : Option Json → Option Json
  | some .null => none
  | value => value

/-- The items of an array, and none of anything else. -/
def items : Option Json → List Json
  | some (.arr items) => items
  | _ => []

/-- The properties of an object, and none of anything else. -/
def asObject : Option Json → List (Text × Json)
  | some (.obj entries) => entries
  | _ => []

end Json

/-- What `\s` matches and `trim` removes. -/
def isJsSpace (c : Char) : Bool := (Text.isWhitespace c && c.toNat != 0x85) || c.toNat == 0xFEFF

def jsTrim (value : Text) : Text := (value.dropWhile isJsSpace).rdropWhile isJsSpace

theorem jsTrim_eq_self {value : Text} (first : ∀ c ∈ value.head?, isJsSpace c = false)
    (last : ∀ c ∈ value.getLast?, isJsSpace c = false) : jsTrim value = value := by
  cases value with
  | nil => rfl
  | cons c rest =>
    have plain : ¬ isJsSpace ((c :: rest).getLast (by simp)) = true := by
      rw [last _ (List.getLast?_eq_some_getLast (by simp))]
      exact Bool.false_ne_true
    rw [jsTrim, List.dropWhile_cons_of_neg (by rw [first c rfl]; exact Bool.false_ne_true),
      List.rdropWhile_eq_self_iff.mpr fun _ => plain]

theorem head_jsTrim {value : Text} {c : Char} (first : c ∈ (jsTrim value).head?) : isJsSpace c = false := by
  obtain ⟨back, split⟩ := List.rdropWhile_prefix isJsSpace (value.dropWhile isJsSpace)
  have front : (value.dropWhile isJsSpace).head? = some c := by
    rw [← split, List.head?_append]
    change ((jsTrim value).head?.or _) = _
    rw [Option.mem_def.mp first]
    rfl
  have plain := List.head?_dropWhile_not isJsSpace value
  rw [front] at plain
  simpa using plain

theorem getLast_jsTrim {value : Text} {c : Char} (last : c ∈ (jsTrim value).getLast?) : isJsSpace c = false := by
  have nonempty : jsTrim value ≠ [] := by
    intro empty
    rw [empty] at last
    cases last
  have plain := List.rdropWhile_last_not isJsSpace (value.dropWhile isJsSpace) nonempty
  have same : (jsTrim value).getLast nonempty = c := by
    rw [Option.mem_def, List.getLast?_eq_some_getLast nonempty] at last
    exact Option.some.inj last
  change ¬ isJsSpace ((jsTrim value).getLast nonempty) = true at plain
  rw [same] at plain
  simpa using plain

theorem jsTrim_idempotent (value : Text) : jsTrim (jsTrim value) = jsTrim value :=
  jsTrim_eq_self (fun _ => head_jsTrim) fun _ => getLast_jsTrim

theorem jsTrim_eq_nil {value : Text} : jsTrim value = [] ↔ ∀ c ∈ value, isJsSpace c = true := by
  unfold jsTrim
  rw [List.rdropWhile_eq_nil_iff]
  constructor
  · intro blank
    cases start : value.dropWhile isJsSpace with
    | nil => exact List.dropWhile_eq_nil_iff.mp start
    | cons c rest =>
      have first := List.head?_dropWhile_not isJsSpace value
      rw [start] at first
      have plain : isJsSpace c = false := first
      rw [blank c (start ▸ List.mem_cons_self)] at plain
      cases plain
  · intro blank c member
    exact blank c ((List.dropWhile_suffix _).subset member)

theorem jsTrim_append_ne {base more : Text} (full : jsTrim base ≠ []) : jsTrim (base ++ more) ≠ [] := fun blank =>
  full (jsTrim_eq_nil.mpr fun c member => jsTrim_eq_nil.mp blank c (List.mem_append_left more member))

theorem ne_nil_of_jsTrim {value : Text} (full : jsTrim value ≠ []) : value ≠ [] := by
  rintro rfl
  exact full rfl

theorem jsTrim_of_plain {value : Text} (plain : ∀ c ∈ value, isJsSpace c = false) : jsTrim value = value :=
  jsTrim_eq_self (fun c first => plain c (List.mem_of_head? first)) fun c last => plain c (List.mem_of_getLast? last)

theorem isJsSpace_visible {c : Char} (above : 0x20 < c.toNat) (below : c.toNat < 0x7F) : isJsSpace c = false := by
  have mark : c.toNat ≠ 0xFEFF := by omega
  unfold isJsSpace
  rw [Text.isWhitespace_visible above below, beq_eq_false_iff_ne.mpr mark]
  rfl

theorem isJsSpace_digit {c : Char} (digit : c.isDigit = true) : isJsSpace c = false := by
  rw [Text.isDigit_iff] at digit
  exact isJsSpace_visible (by omega) (by omega)

/-- A JavaScript object. A property that holds `undefined` is left out, as `JSON.stringify` leaves it
out. -/
abbrev Record := List (Text × Json)

/-- `Object.entries(value)` of an object. An array has its places. -/
def objectEntries : Json → Record
  | .obj entries => entries
  | .arr items => items.mapIdx fun index item => (Text.ofNat index, item)
  | _ => []

namespace Record

abbrev prop (record : Record) (key : Text) : Option Json := record.lookup key

def assign (record : Record) (key : Text) (value : Json) : Record := Assoc.insert record (key, value)

/-- `record[key] = value`, where the value may be `undefined`. -/
def put (record : Record) (key : Text) : Option Json → Record
  | some value => record.assign key value
  | none => Assoc.erase record key

/-- `{ ...record, ...other }` -/
def spread (record other : Record) : Record :=
  record.filter (fun property => (other.lookup property.1).isNone) ++ other

def Same (a b : Record) : Prop := ∀ key, a.lookup key = b.lookup key

@[simp] theorem lookup_assign (record : Record) (key other : Text) (value : Json) :
    (record.assign key value).lookup other = if other == key then some value else record.lookup other :=
  Assoc.lookup_insert record (key, value) other

@[simp] theorem lookup_put (record : Record) (key other : Text) (value : Option Json) :
    (record.put key value).lookup other = if other == key then value else record.lookup other := by
  cases value with
  | some value => exact lookup_assign record key other value
  | none => exact Assoc.lookup_erase record key other

@[simp] theorem lookup_spread (record other : Record) (key : Text) :
    (record.spread other).lookup key = (other.lookup key).or (record.lookup key) := by
  rw [spread, Assoc.lookup_append, Assoc.lookup_filter record (fun name => (other.lookup name).isNone)]
  cases own : other.lookup key <;> simp

end Record

end MqBridge
