import ScriptSandbox.Number.Decimal

/-!
The text of a number: its shortest digits, laid out with a point where the first digit's place
allows it and with an exponent elsewhere.
-/

namespace ScriptSandbox.Number

/-- The decisions of one way to write numbers. -/
structure Layout where
  /-- Which of two equally close shortest decimals is written. -/
  tie : Decimal.Tie
  /-- The least exponent of the first digit that is written without an exponent part. -/
  plainFrom : Int
  /-- From this exponent of the first digit on, an exponent part is written again. -/
  plainBelow : Int
  /-- Whether a whole number written without an exponent part ends in `.0`. -/
  pointZero : Bool
  /-- Whether the sign of a negative zero is written. -/
  signedZero : Bool

namespace Layout

def wholeTail (layout : Layout) : List Char :=
  if layout.pointZero then ['.', '0'] else []

/-- Digits with the point after the first `place` of them. -/
def plain (layout : Layout) (digits : List Char) (place : Int) : List Char :=
  match place with
  | .negSucc zeros => '0' :: '.' :: (List.replicate (zeros + 1) '0' ++ digits)
  | .ofNat 0 => '0' :: '.' :: digits
  | .ofNat whole =>
      if digits.length ≤ whole then
        digits ++ List.replicate (whole - digits.length) '0' ++ layout.wholeTail
      else
        digits.take whole ++ '.' :: digits.drop whole

/-- An exponent part; its sign is always written. -/
def exponentPart (exponent : Int) : List Char :=
  'e' :: (if exponent < 0 then '-' else '+') :: Nat.toDigits 10 exponent.natAbs

def scientific (digits : List Char) (exponent : Int) : List Char :=
  match digits with
  | [] => []
  | [single] => single :: exponentPart exponent
  | first :: more => first :: '.' :: (more ++ exponentPart exponent)

/-- The digits of a decimal without zeros at the end. -/
def significantDigits (decimal : Decimal) : List Char :=
  ((Nat.toDigits 10 decimal.digits).reverse.dropWhile (· == '0')).reverse

def positive (layout : Layout) (decimal : Decimal) : List Char :=
  let digits := significantDigits decimal
  let place : Int := (Nat.toDigits 10 decimal.digits).length + decimal.exponent
  let leading := place - 1
  if layout.plainFrom ≤ leading ∧ leading < layout.plainBelow then layout.plain digits place
  else scientific digits leading

def finite (layout : Layout) (negative : Bool) (rank : Nat) : List Char :=
  if rank = 0 then
    (if negative && layout.signedZero then ['-'] else []) ++ '0' :: layout.wholeTail
  else
    (if negative then ['-'] else []) ++ layout.positive (Decimal.shortest layout.tie rank)

end Layout

/-- Numbers in texts: positional from `1e-6` up to `1e21`, and no sign on zero. -/
def display : Layout where
  tie := .larger
  plainFrom := -6
  plainBelow := 21
  pointZero := false
  signedZero := false

/-- The text a number turns into when it is logged or joined to a text. -/
def toText : Number → String
  | .nan => "NaN"
  | .infinite negative => if negative then "-Infinity" else "Infinity"
  | .finite negative rank => String.ofList (display.finite negative rank)

end ScriptSandbox.Number
