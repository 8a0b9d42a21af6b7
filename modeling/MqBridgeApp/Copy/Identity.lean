import MqBridgeApp.Copy.Credentials
import MqBridgeApp.Endpoint.Model
import MqBridgeApp.Lib.JsonText

/-!
# The checkpoint identity

The identity of a resumable copy is a digest of the text of its definition, once credentials are
blanked and absent fields are dropped. Two definitions share it when their fingerprints are the same
value, with the same order of entries.
-/

namespace MqBridge.Copy
open Text

structure Url where
  password : Option Text
  /-- Its text once the password is taken out. -/
  withoutPassword : Text

structure Hashing where
  parseUrl : Text → Option Url
  /-- The first half of the SHA-256 digest, in hexadecimal. -/
  digest : Text → Text

section
variable (parseUrl : Text → Option Url)

/-- Takes the password out of a text that is a URL with one. -/
def withoutUrlPassword (text : Text) : Text :=
  match parseUrl text with
  | some url => if url.password.isSome then url.withoutPassword else text
  | none => text

def redactText (key parent : Option Text) (text : Text) : Text :=
  if isCredential key parent then "[redacted]" else withoutUrlPassword parseUrl text

mutual
/-- Replaces credential values. Names are matched narrowly, and anything unrecognised stays. -/
def redactCredentials (key parent : Option Text) : Json → Json
  | .obj entries => .obj (redactEntries key entries)
  | .arr items => .arr (redactItems key parent items)
  | .str text => .str (redactText parseUrl key parent text)
  | value => value
def redactEntries (key : Option Text) : List (Text × Json) → List (Text × Json)
  | [] => []
  | (childKey, child) :: rest => (childKey, redactCredentials (some childKey) key child) :: redactEntries key rest
def redactItems (key parent : Option Text) : List Json → List Json
  | [] => []
  | item :: rest => redactCredentials key parent item :: redactItems key parent rest
end

end

/-- Whether the entries of an object at `depth` lose the null ones. An object of nulls only may be an
endpoint, whose null variant is all that names it. -/
def dropsNulls (depth : Nat) (entries : List (Text × Json)) : Bool :=
  decide (2 ≤ depth) && entries.any fun entry => !entry.2.isNull

mutual
/-- Drops absent config fields, so that the identity survives a release that adds an optional one. -/
def stripAbsentFields (depth : Nat) : Json → Json
  | .obj entries => .obj (stripEntries (dropsNulls depth entries) (depth + 1) entries)
  | .arr items => .arr (stripItems depth items)
  | value => value
def stripEntries (drop : Bool) (depth : Nat) : List (Text × Json) → List (Text × Json)
  | [] => []
  | (key, value) :: rest =>
    if drop && value.isNull then stripEntries drop depth rest
    else (key, stripAbsentFields depth value) :: stripEntries drop depth rest
def stripItems (depth : Nat) : List Json → List Json
  | [] => []
  | item :: rest => stripAbsentFields depth item :: stripItems depth rest
end

def copyDefinition (input output : Endpoint) (filter : Option Text) : Data :=
  .record [("source", input.toData), ("destination", output.toData), ("filter", .option .str filter)]

def checkpointIdentity (hashing : Hashing) (input output : Endpoint) (filter : Option Text) : Text :=
  "copy-" ++ hashing.digest
    (stripAbsentFields 0 (redactCredentials hashing.parseUrl none none (copyDefinition input output filter).toValue)).render

section
variable (parseUrl : Text → Option Url)

/-- What the identity sees of a part of the definition. -/
def fingerprint (key parent : Option Text) (depth : Nat) (data : Data) : Json :=
  stripAbsentFields depth (redactCredentials parseUrl key parent data.toValue)

def seenEntries (drop : Bool) (key : Option Text) (depth : Nat) (entries : List (Text × Data)) :
    List (Text × Json) :=
  (entries.filter fun entry => !(drop && entry.2.isNull)).map fun entry =>
    (entry.1, fingerprint parseUrl (some entry.1) key depth entry.2)

theorem redactEntries_eq_map (key : Option Text) (entries : List (Text × Json)) :
    redactEntries parseUrl key entries =
      entries.map fun entry => (entry.1, redactCredentials parseUrl (some entry.1) key entry.2) := by
  induction entries with
  | nil => rfl
  | cons entry rest ih => rw [redactEntries, ih, List.map_cons]

theorem redactItems_eq_map (key parent : Option Text) (items : List Json) :
    redactItems parseUrl key parent items = items.map (redactCredentials parseUrl key parent) := by
  induction items with
  | nil => rfl
  | cons item rest ih => rw [redactItems, ih, List.map_cons]

theorem stripItems_eq_map (depth : Nat) (items : List Json) :
    stripItems depth items = items.map (stripAbsentFields depth) := by
  induction items with
  | nil => rfl
  | cons item rest ih => rw [stripItems, ih, List.map_cons]

theorem stripEntries_eq_map (drop : Bool) (depth : Nat) (entries : List (Text × Json)) :
    stripEntries drop depth entries = (entries.filter fun entry => !(drop && entry.2.isNull)).map
      fun entry => (entry.1, stripAbsentFields depth entry.2) := by
  induction entries with
  | nil => rfl
  | cons entry rest ih =>
    obtain ⟨key, value⟩ := entry
    unfold stripEntries
    split
    · next absent => rw [ih, List.filter_cons_of_neg (by simp [absent])]
    · next present =>
      have stays : (drop && value.isNull) = false := Bool.eq_false_iff.mpr present
      rw [ih, List.filter_cons_of_pos (by rw [stays]; rfl), List.map_cons]

@[simp] theorem isNull_redactCredentials (key parent : Option Text) (value : Json) :
    (redactCredentials parseUrl key parent value).isNull = value.isNull := by
  cases value <;> rfl

theorem dropsNulls_redact (key : Option Text) (depth : Nat) (entries : List (Text × Json)) :
    dropsNulls depth (redactEntries parseUrl key entries) = dropsNulls depth entries := by
  simp only [dropsNulls, redactEntries_eq_map, List.any_map, Function.comp_def, isNull_redactCredentials]

theorem fingerprint_entries (key parent : Option Text) (depth : Nat) (entries : List (Text × Data)) :
    stripAbsentFields depth (redactCredentials parseUrl key parent (.obj (Data.toEntries entries))) =
      .obj (seenEntries parseUrl (dropsNulls depth (Data.toEntries entries)) key (depth + 1) entries) := by
  rw [redactCredentials, stripAbsentFields, dropsNulls_redact, stripEntries_eq_map, redactEntries_eq_map,
    Data.toEntries_eq_map, List.map_map, List.filter_map, List.map_map, seenEntries]
  simp only [Function.comp_def, isNull_redactCredentials, Data.isNull_toValue, fingerprint]

theorem fingerprint_record (key parent : Option Text) (depth : Nat) (fields : List (Text × Data)) :
    fingerprint parseUrl key parent depth (.record fields) =
      .obj (seenEntries parseUrl (dropsNulls depth (Data.toEntries fields)) key (depth + 1) fields) :=
  fingerprint_entries parseUrl key parent depth fields

theorem fingerprint_map (key parent : Option Text) (depth : Nat) (entries : List (Text × Data)) :
    fingerprint parseUrl key parent depth (.map entries) =
      .obj (seenEntries parseUrl (dropsNulls depth (Data.toEntries entries)) key (depth + 1) entries) :=
  fingerprint_entries parseUrl key parent depth entries

theorem seenEntries_cons (drop : Bool) (key : Option Text) (depth : Nat) (name : Text) (value : Data)
    (rest : List (Text × Data)) : seenEntries parseUrl drop key depth ((name, value) :: rest) =
      if drop && value.isNull then seenEntries parseUrl drop key depth rest
      else (name, fingerprint parseUrl (some name) key depth value) :: seenEntries parseUrl drop key depth rest := by
  unfold seenEntries
  cases absent : drop && value.isNull
  · rw [List.filter_cons_of_pos (by simp [absent])]
    rfl
  · rw [List.filter_cons_of_neg (by simp [absent])]
    rfl

theorem fingerprint_seq (key parent : Option Text) (depth : Nat) (items : List Data) :
    fingerprint parseUrl key parent depth (.seq items) = .arr (items.map (fingerprint parseUrl key parent depth)) := by
  rw [fingerprint, Data.toValue, redactCredentials, stripAbsentFields, redactItems_eq_map, stripItems_eq_map,
    Data.toValues_eq_map, List.map_map, List.map_map]
  rfl

theorem fingerprint_str (key parent : Option Text) (depth : Nat) (text : Text) :
    fingerprint parseUrl key parent depth (.str text) = .str (redactText parseUrl key parent text) := rfl

theorem dropsNulls_congr {depth : Nat} {entries entries' : List (Text × Data)}
    (nulls : (entries.map fun entry => entry.2.isNull) = entries'.map fun entry => entry.2.isNull) :
    dropsNulls depth (Data.toEntries entries) = dropsNulls depth (Data.toEntries entries') := by
  have any : ∀ entries : List (Text × Data),
      ((Data.toEntries entries).any fun entry => !entry.2.isNull) =
        (entries.map fun entry => entry.2.isNull).any (! ·) := by
    intro entries
    simp only [Data.toEntries_eq_map, List.any_map, Function.comp_def, Data.isNull_toValue]
  rw [dropsNulls, dropsNulls, any, any, nulls]

end

/-- Under an injective digest, copies share their identity when the fingerprints of both endpoints are
the same. The definition is at depth 0, so its entries all stay. -/
theorem checkpointIdentity_eq_iff {hashing : Hashing} (injective : Function.Injective hashing.digest)
    (input output input' output' : Endpoint) (filter : Option Text) :
    checkpointIdentity hashing input output filter = checkpointIdentity hashing input' output' filter ↔
      fingerprint hashing.parseUrl (some "source") none 1 input.toData =
          fingerprint hashing.parseUrl (some "source") none 1 input'.toData ∧
        fingerprint hashing.parseUrl (some "destination") none 1 output.toData =
          fingerprint hashing.parseUrl (some "destination") none 1 output'.toData := by
  have definition : ∀ input output : Endpoint, checkpointIdentity hashing input output filter =
      "copy-" ++ hashing.digest (Json.obj
        [("source", fingerprint hashing.parseUrl (some "source") none 1 input.toData),
          ("destination", fingerprint hashing.parseUrl (some "destination") none 1 output.toData),
          ("filter", fingerprint hashing.parseUrl (some "filter") none 1 (.option .str filter))]).render := by
    intro input output
    have whole := fingerprint_record hashing.parseUrl none none 0
      [("source", input.toData), ("destination", output.toData), ("filter", .option .str filter)]
    simp only [dropsNulls, show decide (2 ≤ 0) = false from rfl, Bool.false_and, seenEntries_cons] at whole
    exact congrArg (fun value : Json => ("copy-" : Text) ++ hashing.digest value.render) whole
  have texts : ∀ a b : Json, a.render = b.render ↔ a = b := fun a b => ⟨Json.render_injective, congrArg _⟩
  rw [definition, definition, List.append_cancel_left_eq, injective.eq_iff, texts]
  simp only [Json.obj.injEq, List.cons.injEq, Prod.mk.injEq, true_and, and_true]

def inAuthority (c : Char) : Bool := c ∉ ['/', '?', '#']

def parseSimpleUrl (text : Text) : Option Url :=
  match splitAtText "://" text with
  | none => none
  | some (scheme, rest) =>
    let authority := rest.takeWhile inAuthority
    match rsplitOnce '@' authority with
    | none => if ',' ∈ authority then none else some { password := none, withoutPassword := text }
    | some (userinfo, hosts) =>
      if ',' ∈ hosts then none
      else
        match splitOnce ':' userinfo with
        | none => some { password := none, withoutPassword := text }
        | some (user, password) =>
          some
            { password := some password
              withoutPassword := scheme ++ "://" ++ user ++ '@' :: hosts ++ rest.dropWhile inAuthority }

def plainHashing : Hashing where
  parseUrl := parseSimpleUrl
  digest := id

end MqBridge.Copy
