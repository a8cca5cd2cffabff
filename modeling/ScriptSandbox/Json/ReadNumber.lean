import ScriptSandbox.Json.Basic
import ScriptSandbox.Json.Misread
import ScriptSandbox.Number.Arithmetic
import ScriptSandbox.Number.Literal

/-!
Numbers in JSON text. The digits are gathered into a 64-bit word as long as they fit it, and the
word is then scaled by a power of ten in one rounded step, or in several when the power is below
`1e-308`. So the result is not always the number nearest to the text.
-/

namespace ScriptSandbox.Json

def wordLimit : Nat := twoTo 64 - 1

/-- Gathers digits into a word until one does not fit: the word, how many digits it took and how
many were left over. -/
def gather (word taken : Nat) : List Char → Nat × Nat × Nat
  | [] => (word, taken, 0)
  | digit :: rest =>
      let next := word * 10 + (digit.toNat - '0'.toNat)
      if wordLimit < next then (word, taken, rest.length + 1) else gather next (taken + 1) rest

def powerOfTen (places : Nat) : Number :=
  (⟨1, places⟩ : Decimal).toNumber false

/-- Divides by a power of ten, in steps of `1e308` while the power is beyond that. -/
def divideByPower (value : Number) (places : Nat) : Number :=
  if places ≤ 308 then value / powerOfTen places
  else if value.isZero then value
  else divideByPower (value / powerOfTen 308) (places - 308)
termination_by places

/-- A gathered word times a power of ten; `none` beyond the finite numbers. -/
def scale? (word : Nat) : Int → Option Number
  | .negSucc places => some (divideByPower (Number.ofNat word) (places + 1))
  | .ofNat places =>
      if places ≤ 308 then
        let product := Number.ofNat word * powerOfTen places
        if product.isFinite then some product else none
      else if word = 0 then some .zero
      else none

def signed (negative : Bool) (number : Number) : Number :=
  if negative then -number else number

def readScaled (negative : Bool) (word : Nat) (exponent : Int) (rest : List Char) : Read Json :=
  match scale? word exponent with
  | some number => .ok (.float (signed negative number), rest)
  | none => stop .numberOutOfRange rest

def exponentLimit : Nat := twoTo 31 - 1

/-- The digits of an exponent: their value, or `none` from the digit that takes it past the limit,
and what follows. -/
def readExponentDigits (value : Nat) : List Char → Option Nat × List Char
  | [] => (some value, [])
  | c :: rest =>
      if c.isDigit then
        let next := value * 10 + (c.toNat - '0'.toNat)
        if exponentLimit < next then (none, rest) else readExponentDigits next rest
      else (some value, c :: rest)

/-- The rest of a number after its exponent mark. -/
def readExponent (negative : Bool) (word : Nat) (exponent : Int) (text : List Char) : Read Json :=
  let (negativeExponent, digits) := Number.takeSign text
  match digits with
  | [] => stop .missingValue []
  | first :: _ =>
      if first.isDigit then
        match readExponentDigits 0 digits with
        | (some value, rest) =>
            readScaled negative word
              (if negativeExponent then exponent - value else exponent + value) rest
        | (none, rest) =>
            if word ≠ 0 ∧ negativeExponent = false then stop .numberOutOfRange rest
            else .ok (.float (signed negative .zero), rest.dropWhile Char.isDigit)
      else stopPast .invalidNumber digits

def isExponentMark (c : Char) : Bool :=
  c == 'e' || c == 'E'

/-- The rest of a number that is known not to be an integer. -/
def readAfterDigits (negative : Bool) (word : Nat) (exponent : Int) (rest : List Char) :
    Read Json :=
  match rest with
  | mark :: afterMark =>
      if isExponentMark mark then readExponent negative word exponent afterMark
      else readScaled negative word exponent rest
  | [] => readScaled negative word exponent rest

/-- The rest of a number after its point. -/
def readFraction (negative : Bool) (word dropped : Nat) (text : List Char) : Read Json :=
  let (digits, rest) := Number.takeDigits text
  if digits.isEmpty then
    if rest.isEmpty then stop .missingValue rest else stopPast .invalidNumber rest
  else
    let (fullWord, taken, _) := gather word 0 digits
    readAfterDigits negative fullWord ((dropped : Int) - taken) rest

/-- A number without point and exponent whose digits all fitted the word. -/
def ofWord (negative : Bool) (word : Nat) : Json :=
  if negative then
    if word = 0 ∨ twoTo 63 < word then .float (-Number.ofNat word) else .integer (-(word : Int))
  else .integer word

/-- A number after its sign. Only a lone zero may start with zero. -/
def readUnsigned (negative : Bool) (text : List Char) : Read Json :=
  let (digits, rest) := Number.takeDigits text
  match digits with
  | [] => if text.isEmpty then stop .missingValue text else stopPast .invalidNumber text
  | '0' :: _ :: _ => stopPast .invalidNumber (text.drop 1)
  | _ =>
      let (word, _, dropped) := gather 0 0 digits
      match rest with
      | '.' :: afterPoint => readFraction negative word dropped afterPoint
      | _ =>
          if dropped = 0 ∧ (rest.head?.any isExponentMark) = false then
            .ok (ofWord negative word, rest)
          else readAfterDigits negative word dropped rest

end ScriptSandbox.Json
