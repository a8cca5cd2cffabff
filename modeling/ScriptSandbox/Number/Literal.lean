import ScriptSandbox.Number.Arithmetic
import ScriptSandbox.Number.Decimal
import ScriptSandbox.Text.Blank

/-!
Numbers read from text. A decimal literal is
`[+-]? (digits+ (. digits*)? | . digits+) ([eE] [+-]? digits+)?` in ASCII digits. One reader wants
the whole text to be a number, the other takes the longest literal at its start.
-/

namespace ScriptSandbox.Number

open ScriptSandbox.Text

/-- A sign at the start of a text: whether it is a minus, and what follows. -/
def takeSign : List Char → Bool × List Char
  | '+' :: rest => (false, rest)
  | '-' :: rest => (true, rest)
  | text => (false, text)

/-- The digits at the start of a text, and what follows. -/
def takeDigits (text : List Char) : List Char × List Char :=
  text.span Char.isDigit

/-- The value of digits, put together from the values of their halves so many times over. -/
def halvesValue : Nat → List Char → Nat
  | 0, digits => Nat.ofDigitChars 10 digits 0
  | depth + 1, digits =>
      let upper := digits.take (digits.length / 2)
      let lower := digits.drop (digits.length / 2)
      halvesValue depth upper * tenTo lower.length + halvesValue depth lower

theorem of_digit_chars_joined (upper lower : List Char) :
    Nat.ofDigitChars 10 (upper ++ lower) 0 =
      Nat.ofDigitChars 10 upper 0 * tenTo lower.length + Nat.ofDigitChars 10 lower 0 := by
  rw [Nat.ofDigitChars_append,
    @Nat.ofDigitChars_eq_ofDigitChars_zero lower (Nat.ofDigitChars 10 upper 0), Nat.mul_comm]
  rfl

theorem halves_value_eq (depth : Nat) (digits : List Char) :
    halvesValue depth digits = Nat.ofDigitChars 10 digits 0 := by
  induction depth generalizing digits with
  | zero => rfl
  | succ depth ih => rw [halvesValue, ih, ih, ← of_digit_chars_joined, List.take_append_drop]

/-- The value of digits. Long runs are halved until the parts are short. -/
def digitsValue (digits : List Char) : Nat :=
  halvesValue (digits.length / 64).log2 digits

theorem digits_value_eq (digits : List Char) :
    digitsValue digits = Nat.ofDigitChars 10 digits 0 :=
  halves_value_eq _ digits

/-- From this value on an exponent takes in no further digit. -/
def exponentCeiling : Nat := 65536

/-- The value of the digits of an exponent. Those that come once the ceiling is reached are
dropped. -/
def exponentValue (digits : List Char) : Nat :=
  digits.foldl
    (fun value digit =>
      if value < exponentCeiling then 10 * value + (digit.toNat - '0'.toNat) else value)
    0

/-- The digits before and after the point. A point counts when a digit stands next to it. -/
def takeMantissa (text : List Char) : (List Char × List Char) × List Char :=
  let (whole, afterWhole) := takeDigits text
  match afterWhole with
  | '.' :: afterPoint =>
      let (fraction, rest) := takeDigits afterPoint
      if whole.isEmpty && fraction.isEmpty then ((whole, []), afterWhole)
      else ((whole, fraction), rest)
  | _ => ((whole, []), afterWhole)

/-- An exponent part: its value, and what follows. It counts only with a digit. -/
def takeExponent (text : List Char) : Int × List Char :=
  match text with
  | mark :: afterMark =>
      if mark = 'e' ∨ mark = 'E' then
        let (negative, afterSign) := takeSign afterMark
        let (digits, rest) := takeDigits afterSign
        if digits.isEmpty then (0, text)
        else (if negative then -(exponentValue digits : Int) else exponentValue digits, rest)
      else (0, text)
  | [] => (0, text)

/-- The longest decimal literal at the start of a text: its value, and what follows. -/
def takeLiteral? (text : List Char) : Option (Number × List Char) :=
  let (negative, unsigned) := takeSign text
  let ((whole, fraction), afterMantissa) := takeMantissa unsigned
  if whole.isEmpty && fraction.isEmpty then none
  else
    let (exponent, rest) := takeExponent afterMantissa
    let decimal : Decimal := ⟨digitsValue (whole ++ fraction), exponent - fraction.length⟩
    some (decimal.toNumber negative, rest)

def digitValue? (radix : Nat) (c : Char) : Option Nat :=
  let code := c.toNat
  let value? :=
    if 0x30 ≤ code ∧ code ≤ 0x39 then some (code - 0x30)
    else if 0x41 ≤ code ∧ code ≤ 0x46 then some (code - 0x41 + 10)
    else if 0x61 ≤ code ∧ code ≤ 0x66 then some (code - 0x61 + 10)
    else none
  value?.filter (· < radix)

/-- Digits of a radix gathered from left to right, rounding after every digit. -/
def gatherRadix (radix : Nat) : Number → List Char → Number
  | gathered, [] => gathered
  | gathered, c :: rest =>
      match digitValue? radix c with
      | some value => gatherRadix radix (gathered * ofNat radix + ofNat value) rest
      | none => .nan

def readRadix (radix : Nat) (digits : List Char) : Number :=
  if digits.isEmpty then .nan else gatherRadix radix zero digits

/-- The radix a text announces with its first two characters, and its digits. -/
def takeRadix? : List Char → Option (Nat × List Char)
  | '0' :: mark :: digits =>
      if mark = 'x' ∨ mark = 'X' then some (16, digits)
      else if mark = 'o' ∨ mark = 'O' then some (8, digits)
      else if mark = 'b' ∨ mark = 'B' then some (2, digits)
      else none
  | _ => none

def infinityWord : List Char := ['I', 'n', 'f', 'i', 'n', 'i', 't', 'y']

/-- Infinity with at most one sign at the start of a text. -/
def takeInfinity? (text : List Char) : Option (Number × List Char) :=
  let (negative, unsigned) := takeSign text
  if infinityWord.isPrefixOf unsigned then some (.infinite negative, unsigned.drop infinityWord.length)
  else none

/-- The number a whole text stands for, blanks at its ends apart; a blank text is zero, and a text
that is no number is NaN. -/
def ofText (text : String) : Number :=
  let trimmed := trim text.toList
  if trimmed.isEmpty then zero
  else
    match takeInfinity? trimmed with
    | some (value, []) => value
    | _ =>
        match takeRadix? trimmed with
        | some (radix, digits) => readRadix radix digits
        | none =>
            match takeLiteral? trimmed with
            | some (value, []) => value
            | _ => .nan

/-- The number of the longest literal at the start of a text, blanks before it apart. -/
def ofTextStart (text : String) : Number :=
  let trimmed := trimStart text.toList
  match takeInfinity? trimmed with
  | some (value, _) => value
  | none =>
      match takeLiteral? trimmed with
      | some (value, _) => value
      | none => .nan

end ScriptSandbox.Number
