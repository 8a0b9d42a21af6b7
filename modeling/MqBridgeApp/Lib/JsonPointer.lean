import MqBridgeApp.Lib.JavaScript
import MqBridgeApp.Lib.Blanking

/-!
# JSON pointers

A reference of a document to a part of itself, as RFC 6901 reads it: a sequence of keys and indices in
which `~1` stands for a slash and `~0` for a tilde. What it leads to may be a reference again.
-/

namespace MqBridge.Pointer
open Text

/-- A key or an index without its escapes, if they are well formed. -/
def unescapeToken : Text → Option Text
  | '~' :: '0' :: rest => (unescapeToken rest).map ('~' :: ·)
  | '~' :: '1' :: rest => (unescapeToken rest).map ('/' :: ·)
  | c :: rest => if c = '~' then none else (unescapeToken rest).map (c :: ·)
  | [] => some []

/-- The keys and indices of a reference into the document that it stands in. -/
def tokens (ref : Text) : Option (List Text) :=
  if ref = "#" then some [] else (stripPrefix "#/" ref).bind fun pointer => (pointer.splitOn '/').mapM unescapeToken

/-- The item of an array at an index without leading zeros. -/
def itemAt (token : Text) (items : List Json) : Option Json :=
  ((List.range items.length).find? fun i => ofNat i == token).bind fun i => items[i]?

def child (token : Text) : Json → Option Json
  | .obj entries => entries.lookup token
  | .arr items => itemAt token items
  | _ => none

def evaluate (tokens : List Text) (doc : Json) : Option Json :=
  tokens.foldl (fun current token => current.bind (child token)) (some doc)

/-- What a reference of a document names. -/
def pointee (doc : Json) (ref : Text) : Option Json := (tokens ref).bind fun tokens => evaluate tokens doc

/-- The reference that a value is, if it is one. -/
def referenceOf (value : Json) : Option Text :=
  match value.get? "$ref" with
  | some (.str ref) => some ref
  | _ => none

/-- What a reference leads to in the end. A reference that leads back to itself leads nowhere. -/
inductive Target (doc : Json) : Text → Json → Prop
  | here {ref : Text} {value : Json} (named : pointee doc ref = some value) (last : referenceOf value = none) :
      Target doc ref value
  | further {ref next : Text} {value final : Json} (named : pointee doc ref = some value)
      (reference : referenceOf value = some next) (target : Target doc next final) : Target doc ref final

theorem Target.unique {doc : Json} {ref : Text} {value value' : Json} (target : Target doc ref value)
    (target' : Target doc ref value') : value = value' := by
  induction target with
  | here named last =>
    cases target' with
    | here named' _ => exact Option.some.inj (named.symm.trans named')
    | further named' reference _ =>
      obtain rfl := Option.some.inj (named.symm.trans named')
      rw [last] at reference
      cases reference
  | further named reference _ ih =>
    cases target' with
    | here named' last =>
      obtain rfl := Option.some.inj (named.symm.trans named')
      rw [last] at reference
      cases reference
    | further named' reference' deeper =>
      obtain rfl := Option.some.inj (named.symm.trans named')
      obtain rfl := Option.some.inj (reference.symm.trans reference')
      exact ih deeper

open Classical in
noncomputable def target (doc : Json) (ref : Text) : Option Json :=
  if leads : ∃ value, Target doc ref value then some leads.choose else none

theorem target_eq_some {doc : Json} {ref : Text} {value : Json} : target doc ref = some value ↔ Target doc ref value := by
  unfold target
  split
  · next leads =>
    exact ⟨fun same => Option.some.inj same ▸ leads.choose_spec, fun there => congrArg some (leads.choose_spec.unique there)⟩
  · next nowhere => exact ⟨nofun, fun there => absurd ⟨value, there⟩ nowhere⟩

/-- A reference to what is no reference leads there. -/
theorem target_eq_pointee {doc : Json} {ref : Text}
    (last : ∀ value, pointee doc ref = some value → referenceOf value = none) : target doc ref = pointee doc ref := by
  cases named : pointee doc ref with
  | some value => exact target_eq_some.mpr (.here named (last value named))
  | none =>
    unfold target
    rw [dif_neg]
    rintro ⟨value, there⟩
    cases there with
    | here named' _ =>
      rw [named] at named'
      cases named'
    | further named' _ _ =>
      rw [named] at named'
      cases named'

theorem unescapeToken_plain {token : Text} (plain : '~' ∉ token) : unescapeToken token = some token := by
  induction token with
  | nil => rfl
  | cons c rest ih =>
    rw [List.mem_cons, not_or] at plain
    have other : c ≠ '~' := fun same => plain.1 same.symm
    unfold unescapeToken
    split
    · exact absurd (by simp_all) other
    · exact absurd (by simp_all) other
    · next same =>
      obtain ⟨rfl, rfl⟩ := List.cons.inj same
      rw [if_neg other, ih plain.2]
      rfl
    · next same => cases same

theorem mapM_unescapeToken_plain {parts : List Text} (plain : ∀ part ∈ parts, '~' ∉ part) :
    parts.mapM unescapeToken = some parts := by
  induction parts with
  | nil => rfl
  | cons part rest ih =>
    rw [List.mapM_cons, unescapeToken_plain (plain part List.mem_cons_self),
      ih fun other member => plain other (List.mem_cons_of_mem _ member)]
    rfl

theorem tokens_plain {ref : Text} (plain : '~' ∉ ref) (part : ref ≠ "#") :
    tokens ref = (stripPrefix "#/" ref).map fun pointer => pointer.splitOn '/' := by
  unfold tokens
  rw [if_neg part]
  cases pointer : stripPrefix "#/" ref with
  | none => rfl
  | some pointer' =>
    rw [Option.bind_some, Option.map_some]
    refine mapM_unescapeToken_plain fun part member tilde => plain ?_
    have inside := (Blanking.mem_of_mem_splitOn member _ tilde).1
    unfold stripPrefix at pointer
    split at pointer
    · obtain rfl := Option.some.inj pointer
      exact List.mem_of_mem_drop inside
    · cases pointer

end MqBridge.Pointer
