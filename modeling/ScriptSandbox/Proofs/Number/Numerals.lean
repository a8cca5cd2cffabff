import Mathlib.Data.List.TakeWhile
import ScriptSandbox.Proofs.Number.Decimals
import ScriptSandbox.Proofs.Number.Radix
import ScriptSandbox.Proofs.Statement.Words

/-!
The grammar of numbers in texts. A text is a number when it is blank, infinity, digits behind the
mark of a radix, or a decimal numeral; the reader of decimal numerals takes those and nothing else.
What it takes is rounded once. Of an exponent it takes only the digits up to the ceiling, which no
numeral of fewer than some sixty thousand digits can show.
-/

namespace ScriptSandbox.Number

open ScriptSandbox.Text

/-- The sign in front of a number. -/
inductive Sign where
  | bare
  | plus
  | minus
deriving DecidableEq

def Sign.text : Sign → List Char
  | .bare => []
  | .plus => ['+']
  | .minus => ['-']

def Sign.negative : Sign → Bool
  | .minus => true
  | _ => false

/-- An exponent part: `[eE] [+-]? digits+`. -/
structure Exponent where
  mark : Char
  sign : Sign
  digits : List Char
  marked : mark = 'e' ∨ mark = 'E'
  present : digits ≠ []
  ascii : ∀ c ∈ digits, c.isDigit = true

theorem lower_marked : 'e' = 'e' ∨ 'e' = 'E' :=
  .inl rfl

namespace Exponent

def text (exponent : Exponent) : List Char :=
  exponent.mark :: (exponent.sign.text ++ exponent.digits)

def signed (exponent : Exponent) (size : Nat) : Int :=
  if exponent.sign.negative then -(size : Int) else size

/-- What the digits come to. -/
def exact (exponent : Exponent) : Nat :=
  Nat.ofDigitChars 10 exponent.digits 0

/-- What the reader takes of them. -/
def taken (exponent : Exponent) : Nat :=
  exponentValue exponent.digits

end Exponent

/-- A decimal numeral without a sign: `(digits+ (. digits*)? | . digits+) exponent?`. -/
structure Numeral where
  whole : List Char
  fraction : Option (List Char)
  exponent : Option Exponent
  present : whole ++ fraction.getD [] ≠ []
  ascii : ∀ c ∈ whole ++ fraction.getD [], c.isDigit = true

def pointText (fraction : Option (List Char)) : List Char :=
  fraction.elim [] ('.' :: ·)

def exponentText (exponent : Option Exponent) : List Char :=
  exponent.elim [] Exponent.text

namespace Numeral

def text (numeral : Numeral) : List Char :=
  numeral.whole ++ (pointText numeral.fraction ++ exponentText numeral.exponent)

/-- The decimal of a numeral, by the size that counts for its exponent. -/
def decimal (numeral : Numeral) (size : Exponent → Nat) : Decimal :=
  ⟨Nat.ofDigitChars 10 (numeral.whole ++ numeral.fraction.getD []) 0,
    (numeral.exponent.elim 0 fun exponent => exponent.signed (size exponent)) -
      (numeral.fraction.getD []).length⟩

/-- The decimal that is written. -/
def exact (numeral : Numeral) : Decimal :=
  numeral.decimal Exponent.exact

/-- The decimal that is read. -/
def taken (numeral : Numeral) : Decimal :=
  numeral.decimal Exponent.taken

end Numeral

theorem take_sign_cases (text : List Char) :
    ∃ sign : Sign, text = sign.text ++ (takeSign text).2 ∧ (takeSign text).1 = sign.negative := by
  unfold takeSign
  split
  · exact ⟨.plus, rfl, rfl⟩
  · exact ⟨.minus, rfl, rfl⟩
  · exact ⟨.bare, rfl, rfl⟩

theorem take_sign_text (sign : Sign) {rest : List Char}
    (unsigned : ∀ c ∈ rest.head?, c ≠ '+' ∧ c ≠ '-') :
    takeSign (sign.text ++ rest) = (sign.negative, rest) := by
  cases sign with
  | plus | minus => rfl
  | bare =>
      unfold takeSign
      split
      · next same => exact absurd rfl (unsigned '+' (by rw [show rest = _ from same]; rfl)).1
      · next same => exact absurd rfl (unsigned '-' (by rw [show rest = _ from same]; rfl)).2
      · rfl

theorem take_digits_cases (text : List Char) :
    text = (takeDigits text).1 ++ (takeDigits text).2 ∧
      ∀ c ∈ (takeDigits text).1, c.isDigit = true := by
  rw [takeDigits, List.span_eq_takeWhile_dropWhile]
  exact ⟨List.takeWhile_append_dropWhile.symm, fun c member => List.mem_takeWhile_imp member⟩

theorem take_digits_text {digits rest : List Char} (ascii : ∀ c ∈ digits, c.isDigit = true)
    (ends : ∀ c ∈ rest.head?, c.isDigit = false) :
    takeDigits (digits ++ rest) = (digits, rest) := by
  rw [takeDigits, List.span_eq_takeWhile_dropWhile, List.takeWhile_append_of_pos ascii,
    List.dropWhile_append_of_pos ascii]
  cases rest with
  | nil => rw [List.takeWhile_nil, List.append_nil, List.dropWhile_nil]
  | cons c rest =>
      have other : c.isDigit = false := ends c rfl
      rw [List.takeWhile_cons_of_neg (by simp [other]),
        List.dropWhile_cons_of_neg (by simp [other]), List.append_nil]

theorem take_mantissa_cases {text whole fraction rest : List Char}
    (taken : takeMantissa text = ((whole, fraction), rest)) :
    (∀ c ∈ whole ++ fraction, c.isDigit = true) ∧
      ∃ fraction? : Option (List Char), fraction?.getD [] = fraction ∧
        text = whole ++ (pointText fraction? ++ rest) := by
  obtain ⟨wholeText, wholeAscii⟩ := take_digits_cases text
  unfold takeMantissa at taken
  generalize takeDigits text = first at taken wholeText wholeAscii
  obtain ⟨digits, afterWhole⟩ := first
  dsimp only at taken wholeText wholeAscii
  have bareAscii : ∀ c ∈ digits ++ [], c.isDigit = true := by
    rwa [List.append_nil]
  split at taken
  · next afterPoint =>
      obtain ⟨fractionText, fractionAscii⟩ := take_digits_cases afterPoint
      generalize takeDigits afterPoint = second at taken fractionText fractionAscii
      obtain ⟨more, afterFraction⟩ := second
      dsimp only at taken fractionText fractionAscii
      split at taken
      · -- A point without a digit on either side is left to what follows.
        cases taken
        exact ⟨bareAscii, none, rfl, wholeText⟩
      · cases taken
        refine ⟨List.forall_mem_append.mpr ⟨wholeAscii, fractionAscii⟩, some fraction, rfl, ?_⟩
        rw [wholeText, fractionText]
        rfl
  · cases taken
    exact ⟨bareAscii, none, rfl, wholeText⟩

theorem take_mantissa_text {whole rest : List Char} {fraction : Option (List Char)}
    (ascii : ∀ c ∈ whole ++ fraction.getD [], c.isDigit = true)
    (present : whole ++ fraction.getD [] ≠ [])
    (ends : ∀ c ∈ rest.head?, c.isDigit = false ∧ c ≠ '.') :
    takeMantissa (whole ++ (pointText fraction ++ rest)) = ((whole, fraction.getD []), rest) := by
  obtain ⟨wholeAscii, fractionAscii⟩ := List.forall_mem_append.mp ascii
  cases fraction with
  | none =>
      have first := take_digits_text wholeAscii fun c member => (ends c member).1
      unfold takeMantissa
      rw [pointText, Option.elim_none, List.nil_append, first]
      dsimp only
      split
      · exact absurd rfl (ends '.' rfl).2
      · rfl
  | some fraction =>
      have stop : ∀ c ∈ ('.' :: (fraction ++ rest)).head?, c.isDigit = false := by
        rintro c ⟨⟩
        decide
      have first := take_digits_text wholeAscii stop
      have second : takeDigits (fraction ++ rest) = (fraction, rest) :=
        take_digits_text fractionAscii fun c member => (ends c member).1
      have holds : ¬(whole.isEmpty && fraction.isEmpty) = true := by
        rw [Bool.and_eq_true, List.isEmpty_iff, List.isEmpty_iff]
        rintro ⟨rfl, rfl⟩
        exact present rfl
      simp only [takeMantissa, pointText, Option.elim_some, List.cons_append, first, second,
        if_neg holds, Option.getD_some]

theorem take_exponent_cases (text : List Char) :
    ∃ exponent : Option Exponent, text = exponentText exponent ++ (takeExponent text).2 ∧
      (takeExponent text).1 =
        exponent.elim 0 fun exponent => exponent.signed exponent.taken := by
  have bare : ∃ exponent : Option Exponent, text = exponentText exponent ++ text ∧
      (0 : Int) = exponent.elim 0 fun exponent => exponent.signed exponent.taken :=
    ⟨none, rfl, rfl⟩
  unfold takeExponent
  split
  · next mark afterMark =>
      obtain ⟨sign, signText, negative⟩ := take_sign_cases afterMark
      obtain ⟨digitsText, ascii⟩ := take_digits_cases (takeSign afterMark).2
      split
      · next marked =>
          dsimp only
          split
          · exact bare
          · next present =>
              have holds := mt List.isEmpty_iff.mpr present
              refine ⟨some ⟨mark, sign, _, marked, holds, ascii⟩, ?_, ?_⟩
              · dsimp only [exponentText, Option.elim_some, Exponent.text]
                rw [List.cons_append, List.append_assoc, ← digitsText, ← signText]
              · rw [negative]
                rfl
      · exact bare
  · exact bare

theorem digit_unsigned {c : Char} (digit : c.isDigit = true) : c ≠ '+' ∧ c ≠ '-' := by
  constructor
  · rintro rfl
    cases digit
  · rintro rfl
    cases digit

theorem take_exponent_text (exponent : Option Exponent) :
    takeExponent (exponentText exponent) =
      (exponent.elim 0 fun exponent => exponent.signed exponent.taken, []) := by
  cases exponent with
  | none => rfl
  | some exponent =>
      have unsigned : ∀ c ∈ exponent.digits.head?, c ≠ '+' ∧ c ≠ '-' := fun c first =>
        digit_unsigned (exponent.ascii c (List.mem_of_mem_head? first))
      have signed := take_sign_text exponent.sign unsigned
      have digits : takeDigits (exponent.digits ++ []) = (exponent.digits, []) :=
        take_digits_text exponent.ascii fun c member => nomatch member
      rw [List.append_nil] at digits
      simp only [exponentText, Option.elim_some, Exponent.text, takeExponent,
        if_pos exponent.marked, signed, digits, List.isEmpty_iff, if_neg exponent.present]
      rfl

theorem exponent_text_starts (exponent : Option Exponent) :
    ∀ c ∈ (exponentText exponent).head?, c.isDigit = false ∧ c ≠ '.' := by
  intro c first
  cases exponent with
  | none => cases first
  | some exponent =>
      cases first
      rcases exponent.marked with same | same <;> rw [same] <;> decide

theorem Numeral.text_unsigned (numeral : Numeral) :
    ∀ c ∈ numeral.text.head?, c ≠ '+' ∧ c ≠ '-' := by
  obtain ⟨whole, fraction, exponent, present, ascii⟩ := numeral
  intro c first
  cases whole with
  | cons digit more =>
      cases first
      exact digit_unsigned (ascii _ List.mem_cons_self)
  | nil =>
      cases fraction with
      | none => exact absurd rfl present
      | some fraction =>
          cases first
          decide

/-- What the reader of literals takes is a numeral behind a sign. -/
theorem take_literal_cases {text rest : List Char} {number : Number}
    (read : takeLiteral? text = some (number, rest)) : ∃ (sign : Sign) (numeral : Numeral),
      text = sign.text ++ numeral.text ++ rest ∧ number = numeral.taken.toNumber sign.negative := by
  obtain ⟨sign, signText, negative⟩ := take_sign_cases text
  unfold takeLiteral? at read
  dsimp only at read
  cases mantissa : takeMantissa (takeSign text).2 with
  | mk parts behind =>
      obtain ⟨whole, fraction⟩ := parts
      obtain ⟨ascii, fraction, rfl, mantissaText⟩ := take_mantissa_cases mantissa
      obtain ⟨exponent, exponentPart, size⟩ := take_exponent_cases behind
      rw [mantissa] at read
      dsimp only at read
      split at read
      · cases read
      · next present =>
          have holds : whole ++ fraction.getD [] ≠ [] := by
            rintro none
            rw [List.append_eq_nil_iff] at none
            exact present (by rw [none.1, none.2]; rfl)
          simp only [Option.some.injEq, Prod.mk.injEq] at read
          obtain ⟨rfl, rfl⟩ := read
          refine ⟨sign, ⟨whole, fraction, exponent, holds, ascii⟩, ?_, ?_⟩
          · simp only [Numeral.text, List.append_assoc]
            rw [← exponentPart, ← mantissaText, ← signText]
          · rw [size, digits_value_eq, negative]
            rfl

/-- The reader of literals takes a whole text exactly when it is a numeral behind a sign. -/
theorem take_literal_iff {text : List Char} {number : Number} :
    takeLiteral? text = some (number, []) ↔ ∃ (sign : Sign) (numeral : Numeral),
      text = sign.text ++ numeral.text ∧ number = numeral.taken.toNumber sign.negative := by
  constructor
  · intro read
    obtain ⟨sign, numeral, shown, value⟩ := take_literal_cases read
    rw [List.append_nil] at shown
    exact ⟨sign, numeral, shown, value⟩
  · rintro ⟨sign, numeral, rfl, rfl⟩
    have signed := take_sign_text sign numeral.text_unsigned
    have mantissa := take_mantissa_text numeral.ascii numeral.present
      (exponent_text_starts numeral.exponent)
    have exponent := take_exponent_text numeral.exponent
    have present : ¬(numeral.whole.isEmpty && (numeral.fraction.getD []).isEmpty) = true := by
      rw [Bool.and_eq_true, List.isEmpty_iff, List.isEmpty_iff, ← List.append_eq_nil_iff]
      exact numeral.present
    unfold takeLiteral?
    rw [signed]
    dsimp only
    rw [Numeral.text, mantissa]
    dsimp only
    rw [if_neg present, exponent, digits_value_eq]
    rfl

/-- What stands in a signed numeral besides digits. -/
def numeralMarks : List Char := ['+', '-', '.', 'e', 'E']

theorem numeral_character {sign : Sign} {numeral : Numeral} {c : Char}
    (member : c ∈ sign.text ++ numeral.text) : c.isDigit = true ∨ c ∈ numeralMarks := by
  obtain ⟨whole, fraction, exponent, present, ascii⟩ := numeral
  have signed (sign : Sign) (inside : c ∈ sign.text) : c ∈ numeralMarks := by
    cases sign with
    | bare => cases inside
    | plus | minus =>
        cases List.mem_singleton.mp inside
        decide
  simp only [Numeral.text, List.mem_append] at member
  rcases member with inSign | inWhole | inFraction | inExponent
  · exact .inr (signed sign inSign)
  · exact .inl (ascii c (List.mem_append_left _ inWhole))
  · cases fraction with
    | none => cases inFraction
    | some fraction =>
        rcases List.mem_cons.mp inFraction with rfl | digit
        · exact .inr (by decide)
        · exact .inl (ascii c (List.mem_append_right _ digit))
  · cases exponent with
    | none => cases inExponent
    | some exponent =>
        rcases List.mem_cons.mp inExponent with rfl | more
        · rcases exponent.marked with same | same <;> rw [same] <;> exact .inr (by decide)
        · rcases List.mem_append.mp more with inSign | digit
          · exact .inr (signed exponent.sign inSign)
          · exact .inl (exponent.ascii c digit)

theorem digit_not_blank {c : Char} (digit : c.isDigit = true) : isBlank c = false := by
  obtain ⟨low, high⟩ := Char.isDigit_iff_toNat.mp digit
  have least : 0x30 ≤ c.toNat := low
  have most : c.toNat ≤ 0x39 := high
  simp [isBlank]
  omega

theorem numeral_trimmed (sign : Sign) (numeral : Numeral) :
    Trimmed (sign.text ++ numeral.text) := by
  have marks : numeralMarks.all (fun c => !isBlank c) = true := by decide
  apply trimmed_of_free
  intro c member
  rcases numeral_character member with digit | mark
  · exact digit_not_blank digit
  · simpa using List.all_eq_true.mp marks c mark

theorem take_infinity_start_iff {text rest : List Char} {number : Number} :
    takeInfinity? text = some (number, rest) ↔
      ∃ sign : Sign, text = sign.text ++ infinityWord ++ rest ∧
        number = .infinite sign.negative := by
  constructor
  · intro read
    obtain ⟨sign, signText, negative⟩ := take_sign_cases text
    unfold takeInfinity? at read
    dsimp only at read
    split at read
    · next starts =>
        obtain ⟨behind, same⟩ := List.isPrefixOf_iff_prefix.mp starts
        rw [← same, List.drop_left] at read
        cases read
        refine ⟨sign, ?_, by rw [negative]⟩
        rw [List.append_assoc, same, ← signText]
    · cases read
  · rintro ⟨sign, rfl, rfl⟩
    cases sign <;> rfl

theorem take_infinity_iff {text : List Char} {number : Number} :
    takeInfinity? text = some (number, []) ↔
      ∃ sign : Sign, text = sign.text ++ infinityWord ∧ number = .infinite sign.negative := by
  simp only [take_infinity_start_iff, List.append_nil]

theorem take_infinity_numeral (sign : Sign) (numeral : Numeral) :
    takeInfinity? (sign.text ++ numeral.text) = none := by
  rw [takeInfinity?, take_sign_text sign numeral.text_unsigned]
  dsimp only
  rw [if_neg]
  intro starts
  have letter : 'I' ∈ infinityWord := List.mem_cons_self
  have inside := (List.isPrefixOf_iff_prefix.mp starts).subset letter
  exact absurd (numeral_character (List.mem_append_right sign.text inside)) (by decide)

theorem of_rank_ne_nan (negative : Bool) (rank : Nat) : ofRank negative rank ≠ .nan := by
  unfold ofRank
  split <;> exact Number.noConfusion

section

variable {text : String} {sign : Sign}

theorem of_text_infinity (trimmed : trim text.toList = sign.text ++ infinityWord) :
    ofText text = .infinite sign.negative := by
  have taken := take_infinity_iff.mpr ⟨sign, trimmed, rfl⟩
  have some : trim text.toList ≠ [] := by
    rw [trimmed]
    exact List.append_ne_nil_of_right_ne_nil _ (by decide)
  simp only [ofText, List.isEmpty_iff, if_neg some, taken]

theorem of_text_numeral {numeral : Numeral}
    (trimmed : trim text.toList = sign.text ++ numeral.text) :
    ofText text = numeral.taken.toNumber sign.negative := by
  have taken := take_literal_iff.mpr ⟨sign, numeral, trimmed, rfl⟩
  have some : trim text.toList ≠ [] := by
    intro none
    rw [none] at taken
    cases taken
  have finite : takeInfinity? (trim text.toList) = none := by
    rw [trimmed, take_infinity_numeral]
  have decimal : takeRadix? (trim text.toList) = none := by
    rw [Option.eq_none_iff_forall_ne_some]
    rintro ⟨radix, digits⟩ announced
    obtain ⟨mark, listed, same⟩ := take_radix_iff.mp announced
    have foreign : ∀ pair ∈ radixMarks, ¬(pair.1.isDigit = true ∨ pair.1 ∈ numeralMarks) := by
      decide
    have letter : mark ∈ sign.text ++ numeral.text := by
      rw [← trimmed, same]
      exact List.mem_cons_of_mem _ List.mem_cons_self
    exact foreign _ listed (numeral_character letter)
  simp only [ofText, List.isEmpty_iff, if_neg some, finite, decimal, taken]

end

/-- The grammar of numbers, outer blanks apart. -/
def IsNumeric (text : List Char) : Prop :=
  text = [] ∨
  (∃ sign : Sign, text = sign.text ++ infinityWord) ∨
  (∃ mark radix digits, (mark, radix) ∈ radixMarks ∧ AreDigits radix digits ∧
    text = '0' :: mark :: digits) ∨
  ∃ (sign : Sign) (numeral : Numeral), text = sign.text ++ numeral.text

theorem numeric_of_number {text : String} (number : ofText text ≠ .nan) :
    IsNumeric (trim text.toList) := by
  unfold ofText at number
  dsimp only at number
  split at number
  · next blank => exact .inl (List.isEmpty_iff.mp blank)
  · split at number
    · next infinite =>
        obtain ⟨sign, shown, -⟩ := take_infinity_iff.mp infinite
        exact .inr (.inl ⟨sign, shown⟩)
    · split at number
      · next radix digits announced =>
          obtain ⟨mark, listed, shown⟩ := take_radix_iff.mp announced
          have valid : AreDigits radix digits := by
            by_contra invalid
            exact number (read_radix_invalid invalid)
          exact .inr (.inr (.inl ⟨mark, radix, digits, listed, valid, shown⟩))
      · split at number
        · next literal =>
            obtain ⟨sign, numeral, shown, -⟩ := take_literal_iff.mp literal
            exact .inr (.inr (.inr ⟨sign, numeral, shown⟩))
        · exact absurd rfl number

theorem exponent_value_concat (digits : List Char) (digit : Char) :
    exponentValue (digits ++ [digit]) =
      if exponentValue digits < exponentCeiling then
        10 * exponentValue digits + (digit.toNat - '0'.toNat)
      else exponentValue digits :=
  List.foldl_concat _ _ _ _

/-- Either all digits of an exponent are taken, or those that are taken reach the ceiling and at
least one more digit follows. -/
theorem exponent_value_cases (digits : List Char) :
    exponentValue digits = Nat.ofDigitChars 10 digits 0 ∨
      exponentCeiling ≤ exponentValue digits ∧
        10 * exponentCeiling ≤ Nat.ofDigitChars 10 digits 0 := by
  induction digits using List.reverseRecOn with
  | nil => exact .inl rfl
  | append_singleton digits digit ih =>
      rw [exponent_value_concat, Nat.ofDigitChars_append, Nat.ofDigitChars_cons,
        Nat.ofDigitChars_nil]
      split
      · next below =>
          have same := ih.resolve_right fun reached => Nat.not_le.mpr below reached.1
          exact .inl (by rw [same])
      · next reached =>
          refine .inr ⟨Nat.le_of_not_lt reached, ?_⟩
          rcases ih with same | ⟨-, larger⟩
          · omega
          · omega

/-- The exponent keeps below ten times the ceiling, or neither the whole part nor the fraction has
so many digits that they could make up for the digits of the exponent that are left out. -/
def Numeral.InReach (numeral : Numeral) : Prop :=
  (∀ exponent ∈ numeral.exponent, exponent.exact < 10 * exponentCeiling) ∨
    numeral.whole.length + 400 ≤ exponentCeiling ∧
      (numeral.fraction.getD []).length + 400 ≤ exponentCeiling

theorem of_digit_chars_lt {digits : List Char} (ascii : ∀ c ∈ digits, c.isDigit = true) :
    Nat.ofDigitChars 10 digits 0 < tenTo digits.length := by
  induction digits using List.reverseRecOn with
  | nil => exact Nat.one_pos
  | append_singleton digits digit ih =>
      have upper := (Char.isDigit_iff_toNat.mp (ascii digit (by simp))).2
      have nine : '9'.toNat = '0'.toNat + 9 := rfl
      have least := ih fun c member => ascii c (List.mem_append_left _ member)
      have power : tenTo (digits.length + 1) = tenTo digits.length * 10 := Nat.pow_succ _ _
      rw [Nat.ofDigitChars_append, Nat.ofDigitChars_cons, Nat.ofDigitChars_nil,
        List.length_append, List.length_singleton, power]
      omega

/-- With few digits, every exponent from the ceiling on leads out of the finite range, to infinity
or to zero. -/
theorem Numeral.rounds_far {numeral : Numeral} {exponent : Exponent} (size : Exponent → Nat)
    (shown : numeral.exponent = some exponent) (large : exponentCeiling ≤ size exponent)
    (fewWhole : numeral.whole.length + 400 ≤ exponentCeiling)
    (fewFraction : (numeral.fraction.getD []).length + 400 ≤ exponentCeiling) (negative : Bool) :
    Rounds negative (numeral.decimal size).value
      (if (numeral.decimal size).digits = 0 ∨ exponent.sign.negative = true then ofRank negative 0
      else .infinite negative) := by
  have place : (numeral.decimal size).exponent =
      exponent.signed (size exponent) - (numeral.fraction.getD []).length := by
    rw [decimal, shown]
    rfl
  split
  · next small =>
      refine ⟨0, ?_, rfl⟩
      rcases small with none | minus
      · exact Decimal.nearest_of_no_digits none
      · apply Decimal.nearest_tiny (of_digit_chars_lt numeral.ascii)
        rw [place, Exponent.signed, if_pos minus, List.length_append]
        omega
  · next large =>
      rw [not_or] at large
      have least : tenTo 0 ≤ (numeral.decimal size).digits := Nat.one_le_iff_ne_zero.mpr large.1
      apply Decimal.rounds_huge negative least
      rw [place, Exponent.signed, if_neg large.2]
      omega

theorem Numeral.rounds_exact {numeral : Numeral} (reach : numeral.InReach) (negative : Bool) :
    Rounds negative numeral.exact.value (numeral.taken.toNumber negative) := by
  have read := numeral.taken.rounds negative
  cases shown : numeral.exponent with
  | none =>
      have same : numeral.exact = numeral.taken := by
        rw [exact, taken, decimal, decimal, shown]
        rfl
      rwa [same]
  | some exponent =>
      rcases exponent_value_cases exponent.digits with whole | ⟨reached, left⟩
      · have same : numeral.exact = numeral.taken := by
          rw [exact, taken, decimal, decimal, shown, Option.elim_some, Option.elim_some,
            Exponent.exact, Exponent.taken, whole]
        rwa [same]
      · obtain ⟨fewWhole, fewFraction⟩ : _ ∧ _ := reach.resolve_left fun below =>
          Nat.not_le.mpr (below exponent shown) left
        have farTaken := rounds_far Exponent.taken shown reached fewWhole fewFraction negative
        have ceiling : exponentCeiling ≤ exponent.exact := by
          rw [Exponent.exact]
          omega
        have farExact := rounds_far Exponent.exact shown ceiling fewWhole fewFraction negative
        rw [read.unique farTaken]
        exact farExact

/-- A text is a number exactly when it has the grammar of one. A numeral gives the number nearest to
the decimal that is read, which is the number nearest to the decimal that is written as long as its
exponent is in reach. -/
theorem of_text_grammar (text : String) :
    (ofText text ≠ .nan ↔ IsNumeric (trim text.toList)) ∧
    ∀ (sign : Sign) (numeral : Numeral), trim text.toList = sign.text ++ numeral.text →
      Rounds sign.negative numeral.taken.value (ofText text) ∧
        (numeral.InReach → Rounds sign.negative numeral.exact.value (ofText text)) := by
  refine ⟨⟨numeric_of_number, ?_⟩, ?_⟩
  · rintro (blank | ⟨sign, infinite⟩ | ⟨mark, radix, digits, announced, valid, trimmed⟩ |
      ⟨sign, numeral, trimmed⟩)
    · rw [ofText, blank]
      exact Number.noConfusion
    · rw [of_text_infinity infinite]
      exact Number.noConfusion
    · obtain ⟨bits, few, rfl⟩ := radix_two_to announced
      rw [of_text_announced announced trimmed, read_radix_eq few valid]
      exact of_rank_ne_nan _ _
    · rw [of_text_numeral trimmed]
      exact of_rank_ne_nan _ _
  · intro sign numeral trimmed
    rw [of_text_numeral trimmed]
    exact ⟨numeral.taken.rounds sign.negative,
      fun reach => numeral.rounds_exact reach sign.negative⟩

theorem of_text_grammar_thousands :
    ofText " -1.5e3 " ≠ .nan ∧ Rounds true (⟨15, 2⟩ : Decimal).value (ofText " -1.5e3 ") := by
  let exponent : Exponent :=
    ⟨'e', .bare, ['3'], lower_marked, by decide, List.all_eq_true.mp (by decide)⟩
  let numeral : Numeral :=
    ⟨['1'], some ['5'], some exponent, by decide, List.all_eq_true.mp (by decide)⟩
  have trimmed : trim " -1.5e3 ".toList = Sign.minus.text ++ numeral.text := by decide +kernel
  have reach : numeral.InReach := .inr ⟨by decide, by decide⟩
  obtain ⟨numeric, value⟩ := of_text_grammar " -1.5e3 "
  exact ⟨numeric.mpr (.inr (.inr (.inr ⟨.minus, numeral, trimmed⟩))),
    (value .minus numeral trimmed).2 reach⟩

/-- A numeral whose exponent loses its last digit: `0.0…01e655360`, with as many zeros behind the
point as the ceiling says. -/
def lossyNumeral : Numeral where
  whole := ['0']
  fraction := some (List.replicate exponentCeiling '0' ++ ['1'])
  exponent := some ⟨'e', .bare, ['6', '5', '5', '3', '6', '0'], lower_marked, by decide,
    List.all_eq_true.mp (by decide)⟩
  present := List.cons_ne_nil _ _
  ascii := by
    intro c member
    simp only [Option.getD_some, List.mem_append, List.mem_replicate, List.mem_singleton] at member
    rcases member with rfl | ⟨-, rfl⟩ | rfl <;> decide

/-- The number that is written is beyond the finite range, the one that is read is a tenth. -/
theorem of_text_grammar_lossy :
    trim (String.ofList lossyNumeral.text).toList = Sign.bare.text ++ lossyNumeral.text ∧
      ofText (String.ofList lossyNumeral.text) = ofBits 0x3fb999999999999a ∧
      ¬Rounds false lossyNumeral.exact.value (ofText (String.ofList lossyNumeral.text)) := by
  have trimmed : trim (String.ofList lossyNumeral.text).toList =
      Sign.bare.text ++ lossyNumeral.text := by
    rw [String.toList_ofList]
    exact trim_of_trimmed (numeral_trimmed .bare lossyNumeral)
  have digits :
      Nat.ofDigitChars 10 (lossyNumeral.whole ++ lossyNumeral.fraction.getD []) 0 = 1 := by
    have first : Nat.ofDigitChars 10 ['0'] 0 = 0 := rfl
    rw [lossyNumeral, Option.getD_some, Nat.ofDigitChars_append, Nat.ofDigitChars_append,
      Nat.ofDigitChars_replicate_zero, first, Nat.mul_zero]
    rfl
  have places : (lossyNumeral.fraction.getD []).length = 65537 := by
    rw [lossyNumeral, Option.getD_some, List.length_append, List.length_replicate]
    rfl
  have taken : lossyNumeral.taken = ⟨1, -1⟩ := by
    rw [Numeral.taken, Numeral.decimal, digits, places]
    rfl
  have exact : lossyNumeral.exact = ⟨1, 589823⟩ := by
    rw [Numeral.exact, Numeral.decimal, digits, places]
    rfl
  have tenth : ofText (String.ofList lossyNumeral.text) = ofBits 0x3fb999999999999a := by
    rw [of_text_numeral trimmed, taken]
    decide +kernel
  refine ⟨trimmed, tenth, fun rounds => ?_⟩
  have huge : Rounds false lossyNumeral.exact.value (.infinite false) := by
    rw [exact]
    exact Decimal.rounds_huge false (show tenTo 0 ≤ 1 by decide) (by decide)
  rw [tenth] at rounds
  exact absurd (rounds.unique huge) (by decide +kernel)

end ScriptSandbox.Number
