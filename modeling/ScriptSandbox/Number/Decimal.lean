import ScriptSandbox.Number.Basic

/-!
Decimals and the numbers nearest to them, in both directions: a decimal is rounded once to the
nearest number, and a number is given back as the decimal with the fewest digits that rounds to it.
-/

namespace ScriptSandbox

/-- The value `digits * 10 ^ exponent`. -/
structure Decimal where
  digits : Nat
  exponent : Int
deriving DecidableEq

namespace Decimal

open Number

/-- The rank nearest to a decimal. Exponents that put the value far outside the finite range are
settled without forming the power: from `10 ^ 401` on every positive value is infinite, and a value
below half a unit is zero. -/
def rank (decimal : Decimal) : Nat :=
  if decimal.digits = 0 then 0
  else
    match decimal.exponent with
    | .ofNat places =>
        if 400 < places then rankCount
        else nearestRank (decimal.digits * tenTo places * unitsPerOne) 1
    | .negSucc places =>
        if decimal.digits.log2 + 1076 < 3 * (places + 1) then 0
        else nearestRank (decimal.digits * unitsPerOne) (tenTo (places + 1))

def toNumber (negative : Bool) (decimal : Decimal) : Number :=
  Number.ofRank negative decimal.rank

/-- Which of two equally close decimals is taken. -/
inductive Tie where
  | larger
  | even
deriving DecidableEq

/-- The exponent of the first digit of a positive ratio: the `e` with `10 ^ e ≤ ratio < 10 ^ (e + 1)`. -/
def leadingExponent (numerator denominator : Nat) : Int :=
  if denominator ≤ numerator then
    ((Nat.toDigits 10 (numerator / denominator)).length : Int) - 1
  else
    -((Nat.toDigits 10 ((denominator - 1) / numerator)).length : Int)

/-- A magnitude as a ratio of units of `10 ^ exponent`. -/
def scaledMagnitude (rank : Nat) (exponent : Int) : Nat × Nat :=
  match exponent with
  | .ofNat places => (magnitude rank, unitsPerOne * tenTo places)
  | .negSucc places => (magnitude rank * tenTo (places + 1), unitsPerOne)

/-- The decimal closest to a magnitude among its two neighbours on the grid of `10 ^ exponent` that
round to it. -/
def onGrid? (tie : Tie) (target : Nat) (exponent : Int) : Option Decimal :=
  let (numerator, denominator) := scaledMagnitude target exponent
  let below : Decimal := ⟨numerator / denominator, exponent⟩
  let above : Decimal := ⟨numerator / denominator + 1, exponent⟩
  let twiceRest := 2 * (numerator % denominator)
  if below.rank = target then
    if above.rank = target then
      if twiceRest < denominator then some below
      else if denominator < twiceRest then some above
      else
        match tie with
        | .larger => some above
        | .even => if below.digits % 2 = 0 then some below else some above
    else some below
  else if above.rank = target then some above
  else none

def exact (rank : Nat) : Decimal :=
  ⟨magnitude rank * Nat.pow 5 1074, -1074⟩

/-- The decimal with the fewest digits that rounds to a magnitude, and of those the closest. Grids
from one digit to seventeen are tried in turn. -/
def shortest (tie : Tie) (target : Nat) : Decimal :=
  let leading := leadingExponent (magnitude target) unitsPerOne
  ((List.range 17).findSome? fun (extra : Nat) => onGrid? tie target (leading - extra)).getD (exact target)

end Decimal

end ScriptSandbox
