import MqBridgeApp.Lib.Json

/-!
# The text of a JSON value

`render` is the compact text of a value. It is a prefix code, so a text is the text of one value
only.
-/

namespace MqBridge.Json

def hexDigit (n : Nat) : Char := if n < 10 then Char.ofNat (48 + n) else Char.ofNat (87 + n)

def hexValue (c : Char) : Nat := if c.toNat < 58 then c.toNat - 48 else c.toNat - 87

def escapeChar (c : Char) : Text :=
  if c = '"' then ['\\', '"']
  else if c = '\\' then ['\\', '\\']
  else if c = '\n' then ['\\', 'n']
  else if c = '\r' then ['\\', 'r']
  else if c = '\t' then ['\\', 't']
  else if c = '\x08' then ['\\', 'b']
  else if c = '\x0c' then ['\\', 'f']
  else if c.toNat < 32 then ['\\', 'u', '0', '0', hexDigit (c.toNat / 16), hexDigit (c.toNat % 16)]
  else [c]

def escaped : Text → Text
  | [] => ['"']
  | c :: rest => escapeChar c ++ escaped rest

def renderString (s : Text) : Text := '"' :: escaped s

mutual
def render : Json → Text
  | .null => "null"
  | .bool true => "true"
  | .bool false => "false"
  | .num n => n.text
  | .str s => renderString s
  | .arr items => '[' :: renderItems true items
  | .obj entries => '{' :: renderEntries true entries
/-- The rest of an array, where `first` says that no comma is due. -/
def renderItems (first : Bool) : List Json → Text
  | [] => [']']
  | item :: rest => (if first then [] else [',']) ++ render item ++ renderItems false rest
def renderEntries (first : Bool) : List (Text × Json) → Text
  | [] => ['}']
  | (key, value) :: rest =>
    (if first then [] else [',']) ++ renderString key ++ ':' :: render value ++
      renderEntries false rest
end

/-- Reads the character that `escapeChar` wrote. -/
def unescape : Text → Option (Char × Text)
  | '\\' :: 'u' :: '0' :: '0' :: a :: b :: rest =>
    some (Char.ofNat (hexValue a * 16 + hexValue b), rest)
  | '\\' :: 'n' :: rest => some ('\n', rest)
  | '\\' :: 'r' :: rest => some ('\r', rest)
  | '\\' :: 't' :: rest => some ('\t', rest)
  | '\\' :: 'b' :: rest => some ('\x08', rest)
  | '\\' :: 'f' :: rest => some ('\x0c', rest)
  | '\\' :: c :: rest => some (c, rest)
  | '"' :: _ => none
  | c :: rest => some (c, rest)
  | [] => none

theorem hexValue_hexDigit : ∀ n < 16, hexValue (hexDigit n) = n := by decide

theorem unescape_escapeChar (c : Char) (rest : Text) : unescape (escapeChar c ++ rest) = some (c, rest) := by
  unfold escapeChar
  by_cases quote : c = '"'
  · subst quote
    rfl
  by_cases slash : c = '\\'
  · subst slash
    rfl
  by_cases newline : c = '\n'
  · subst newline
    rfl
  by_cases carriage : c = '\r'
  · subst carriage
    rfl
  by_cases tab : c = '\t'
  · subst tab
    rfl
  by_cases backspace : c = '\x08'
  · subst backspace
    rfl
  by_cases feed : c = '\x0c'
  · subst feed
    rfl
  by_cases control : c.toNat < 32
  · have value : hexValue (hexDigit (c.toNat / 16)) * 16 + hexValue (hexDigit (c.toNat % 16)) = c.toNat := by
      rw [hexValue_hexDigit _ (by omega), hexValue_hexDigit _ (by omega)]
      omega
    simp [*, unescape]
  · simp only [quote, slash, newline, carriage, tab, backspace, feed, control, if_false,
      List.cons_append, List.nil_append]
    unfold unescape
    split <;> simp_all

theorem escaped_append_inj {s s' rest rest' : Text} (same : escaped s ++ rest = escaped s' ++ rest') :
    s = s' ∧ rest = rest' := by
  induction s generalizing s' with
  | nil =>
    cases s' with
    | nil => simpa [escaped] using same
    | cons c cs =>
      have read := congrArg unescape same
      rw [escaped, escaped, List.append_assoc, unescape_escapeChar] at read
      simp [unescape] at read
  | cons c cs ih =>
    cases s' with
    | nil =>
      have read := congrArg unescape same
      rw [escaped, escaped, List.append_assoc, unescape_escapeChar] at read
      simp [unescape] at read
    | cons c' cs' =>
      have read := congrArg unescape same
      rw [escaped, escaped, List.append_assoc, List.append_assoc, unescape_escapeChar,
        unescape_escapeChar, Option.some.injEq, Prod.mk.injEq] at read
      obtain ⟨rfl, tails⟩ := read
      obtain ⟨rfl, ends⟩ := ih tails
      exact ⟨rfl, ends⟩

theorem renderString_append_inj {s s' rest rest' : Text}
    (same : renderString s ++ rest = renderString s' ++ rest') : s = s' ∧ rest = rest' :=
  escaped_append_inj (List.cons.inj same).2

/-- A text that does not continue a number. -/
def Stops (rest : Text) : Prop := rest.takeWhile isNumberChar = []

theorem stops_of_not {c : Char} {rest : Text} (other : isNumberChar c = false) : Stops (c :: rest) := by
  simp [Stops, other]

theorem number_append_inj {n n' : JsonNumber} {rest rest' : Text} (stop : Stops rest) (stop' : Stops rest')
    (same : n.text ++ rest = n'.text ++ rest') : n = n' ∧ rest = rest' := by
  have read := congrArg (List.takeWhile isNumberChar) same
  rw [List.takeWhile_append_of_pos n.numeric, List.takeWhile_append_of_pos n'.numeric, stop, stop',
    List.append_nil, List.append_nil] at read
  have numbers : n = n' := by
    cases n
    cases n'
    simpa using read
  exact ⟨numbers, List.append_cancel_left (numbers ▸ same)⟩

/-- What kind of value a text starts, by its first character. -/
def kindOf (c : Char) : Nat :=
  if c = 'n' then 0 else if c = 't' then 1 else if c = 'f' then 2 else if c = '"' then 4
  else if c = '[' then 5 else if c = '{' then 6 else if isNumberChar c then 3 else 7

def kind : Json → Nat
  | .null => 0
  | .bool true => 1
  | .bool false => 2
  | .num _ => 3
  | .str _ => 4
  | .arr _ => 5
  | .obj _ => 6

theorem kindOf_number {c : Char} (numeric : isNumberChar c = true) : kindOf c = 3 := by
  have other : ∀ d : Char, isNumberChar d = false → c ≠ d := fun d no same => by simp [same, no] at numeric
  simp [kindOf, numeric, other 'n' (by decide), other 't' (by decide), other 'f' (by decide),
    other '"' (by decide), other '[' (by decide), other '{' (by decide)]

theorem render_head (j : Json) : ∃ c rest, render j = c :: rest ∧ kindOf c = kind j := by
  cases j with
  | null => exact ⟨'n', "ull", rfl, rfl⟩
  | bool b =>
    cases b
    · exact ⟨'f', "alse", rfl, rfl⟩
    · exact ⟨'t', "rue", rfl, rfl⟩
  | num n =>
    cases h : n.text with
    | nil => exact absurd h n.nonempty
    | cons c rest => exact ⟨c, rest, by rw [render, h], kindOf_number (n.numeric c (by simp [h]))⟩
  | str s => exact ⟨'"', _, rfl, rfl⟩
  | arr items => exact ⟨'[', _, by rw [render], rfl⟩
  | obj entries => exact ⟨'{', _, by rw [render], rfl⟩

theorem render_ne_cons {j : Json} {c : Char} {rest rest' : Text} (mark : kindOf c = 7) :
    render j ++ rest ≠ c :: rest' := by
  obtain ⟨d, ds, text, start⟩ := render_head j
  intro same
  rw [text] at same
  obtain ⟨rfl, -⟩ := List.cons.inj same
  rw [mark] at start
  cases j with
  | bool b => cases b <;> simp [kind] at start
  | _ => simp [kind] at start

theorem kind_eq_of_render {a b : Json} {rest rest' : Text} (same : render a ++ rest = render b ++ rest') :
    kind a = kind b := by
  obtain ⟨c, cs, left, start⟩ := render_head a
  obtain ⟨d, ds, right, start'⟩ := render_head b
  rw [left, right] at same
  rw [← start, ← start', (List.cons.inj same).1]

theorem renderItems_stops {first : Bool} {items : List Json} {rest : Text} (later : first = false) :
    Stops (renderItems first items ++ rest) := by
  subst later
  cases items <;> exact stops_of_not (by decide)

theorem renderEntries_stops {first : Bool} {entries : List (Text × Json)} {rest : Text}
    (later : first = false) : Stops (renderEntries first entries ++ rest) := by
  subst later
  cases entries <;> exact stops_of_not (by decide)

mutual
theorem render_append_inj : ∀ {a b : Json} {rest rest' : Text}, Stops rest → Stops rest' →
    render a ++ rest = render b ++ rest' → a = b ∧ rest = rest'
  | .null, b, _, _, _, _, same => by
    have kinds := kind_eq_of_render same
    rcases b with _ | (_ | _) | _ | _ | _ | _ <;> simp [kind] at kinds
    exact ⟨rfl, List.append_cancel_left same⟩
  | .bool true, b, _, _, _, _, same => by
    have kinds := kind_eq_of_render same
    rcases b with _ | (_ | _) | _ | _ | _ | _ <;> simp [kind] at kinds
    exact ⟨rfl, List.append_cancel_left same⟩
  | .bool false, b, _, _, _, _, same => by
    have kinds := kind_eq_of_render same
    rcases b with _ | (_ | _) | _ | _ | _ | _ <;> simp [kind] at kinds
    exact ⟨rfl, List.append_cancel_left same⟩
  | .num n, b, _, _, stop, stop', same => by
    have kinds := kind_eq_of_render same
    rcases b with _ | (_ | _) | n' | _ | _ | _ <;> simp [kind] at kinds
    obtain ⟨rfl, ends⟩ := number_append_inj stop stop' same
    exact ⟨rfl, ends⟩
  | .str s, b, _, _, _, _, same => by
    have kinds := kind_eq_of_render same
    rcases b with _ | (_ | _) | _ | s' | _ | _ <;> simp [kind] at kinds
    obtain ⟨rfl, ends⟩ := renderString_append_inj same
    exact ⟨rfl, ends⟩
  | .arr as, b, _, _, _, _, same => by
    have kinds := kind_eq_of_render same
    rcases b with _ | (_ | _) | _ | _ | bs | _ <;> simp [kind] at kinds
    obtain ⟨rfl, ends⟩ := renderItems_append_inj (List.cons.inj same).2
    exact ⟨rfl, ends⟩
  | .obj as, b, _, _, _, _, same => by
    have kinds := kind_eq_of_render same
    rcases b with _ | (_ | _) | _ | _ | _ | bs <;> simp [kind] at kinds
    obtain ⟨rfl, ends⟩ := renderEntries_append_inj (List.cons.inj same).2
    exact ⟨rfl, ends⟩
theorem renderItems_append_inj : ∀ {as bs : List Json} {first : Bool} {rest rest' : Text},
    renderItems first as ++ rest = renderItems first bs ++ rest' → as = bs ∧ rest = rest'
  | [], [], _, _, _, same => ⟨rfl, (List.cons.inj same).2⟩
  | [], b :: bs, first, _, _, same => by
    cases first
    · simp [renderItems] at same
    · simp only [renderItems, if_true, List.nil_append, List.append_assoc] at same
      exact absurd same.symm (render_ne_cons rfl)
  | a :: as, [], first, _, _, same => by
    cases first
    · simp [renderItems] at same
    · simp only [renderItems, if_true, List.nil_append, List.append_assoc] at same
      exact absurd same (render_ne_cons rfl)
  | a :: as, b :: bs, first, _, _, same => by
    simp only [renderItems, List.append_assoc, List.append_cancel_left_eq] at same
    obtain ⟨rfl, later⟩ := render_append_inj (renderItems_stops rfl) (renderItems_stops rfl) same
    obtain ⟨rfl, ends⟩ := renderItems_append_inj later
    exact ⟨rfl, ends⟩
theorem renderEntries_append_inj : ∀ {as bs : List (Text × Json)} {first : Bool} {rest rest' : Text},
    renderEntries first as ++ rest = renderEntries first bs ++ rest' → as = bs ∧ rest = rest'
  | [], [], _, _, _, same => ⟨rfl, (List.cons.inj same).2⟩
  | [], (_, _) :: _, first, _, _, same => by
    cases first <;> simp [renderEntries, renderString] at same
  | (_, _) :: _, [], first, _, _, same => by
    cases first <;> simp [renderEntries, renderString] at same
  | (k, a) :: as, (l, b) :: bs, first, _, _, same => by
    simp only [renderEntries, List.append_assoc, List.append_cancel_left_eq] at same
    obtain ⟨rfl, value⟩ := renderString_append_inj same
    obtain ⟨rfl, later⟩ := render_append_inj (renderEntries_stops rfl) (renderEntries_stops rfl)
      (List.cons.inj value).2
    obtain ⟨rfl, ends⟩ := renderEntries_append_inj later
    exact ⟨rfl, ends⟩
end

theorem render_injective {a b : Json} (same : render a = render b) : a = b :=
  (@render_append_inj a b [] [] rfl rfl (by rw [same])).1

end MqBridge.Json
