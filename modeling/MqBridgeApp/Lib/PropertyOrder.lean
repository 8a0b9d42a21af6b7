import Mathlib.Algebra.Group.Nat.Defs
import MqBridgeApp.Lib.Properties
import MqBridgeApp.Lib.Utf16

/-!
# The order of properties

An object lists the properties that are places of an array first, by their numbers, and the others as they
were set. Texts are sorted by their units.
-/

namespace MqBridge
open Text

/-- The number that a key is written for, if it is the place of an item of an array. -/
def arrayIndex (key : Text) : Option Nat :=
  let n := key.foldl (fun n c => 10 * n + (c.toNat - '0'.toNat)) 0
  if ofNat n = key ∧ n < 2 ^ 32 - 1 then some n else none

/-- What a key is listed by: the places of an array before the other keys, which are sorted by their units. -/
def propertyRank (key : Text) : List Nat :=
  match arrayIndex key with
  | some n => [0, n]
  | none => 1 :: Utf16.ofText key

/-- The order of two keys of an object whose properties were set in the order of `sort`. -/
def propertyLe (a b : Text) : Bool := codesLe (propertyRank a) (propertyRank b)

theorem propertyLe_trans {a b c : Text} (first : propertyLe a b = true) (second : propertyLe b c = true) :
    propertyLe a c = true := codesLe_trans first second

theorem propertyLe_total (a b : Text) : (propertyLe a b || propertyLe b a) = true := codesLe_total _ _

example : propertyLe "10" "a" = true ∧ propertyLe "9" "10" = true ∧ propertyLe "B" "a" = true ∧ propertyLe "01" "1" = false := by
  decide

end MqBridge
