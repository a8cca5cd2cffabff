import ScriptSandbox.Number.Layout
import ScriptSandbox.Table

/-!
JSON values. An integer that fits a 64-bit word is kept as it is; every other number is a `Number`.
The fields of an object are a `Table`, in insertion order.
-/

namespace ScriptSandbox

inductive Json where
  | null
  | bool (value : Bool)
  | integer (value : Int)
  | float (value : Number)
  | string (value : String)
  | array (items : List Json)
  | object (fields : List (String × Json))

namespace Json

/-- The JSON form of a number: an integer below 2^53 in magnitude is written as one, and a number
that is not finite has no form but `null`. -/
def ofNumber (number : Number) : Json :=
  if number.isFinite then
    if number.isWhole && number.wholePart.natAbs < twoTo 53 then .integer number.wholePart
    else .float number
  else .null

/-- Floats in JSON: positional from `1e-5` up to `1e16`, with `.0` on whole ones. -/
def floatLayout : Number.Layout where
  tie := .even
  plainFrom := -5
  plainBelow := 16
  pointZero := true
  signedZero := true

def floatText : Number → List Char
  | .finite negative rank => floatLayout.finite negative rank
  | _ => ['n', 'u', 'l', 'l']

def integerText (value : Int) : List Char :=
  if value < 0 then '-' :: Nat.toDigits 10 value.natAbs else Nat.toDigits 10 value.natAbs

end Json

end ScriptSandbox
