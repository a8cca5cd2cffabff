import ScriptSandbox.Proofs.Number.RoundTrip
import ScriptSandbox.Proofs.Statement.Heads

/-!
Numbers at the start of a text. The reader takes infinity, or else the longest literal that the text
starts with: each of its parts takes at least what any literal in front of the same text takes. What
both readers take they read alike.
-/

namespace ScriptSandbox.Number

open ScriptSandbox.Text

/-- A decimal literal: a numeral behind a sign. -/
structure Literal where
  sign : Sign
  numeral : Numeral

namespace Literal

def text (literal : Literal) : List Char :=
  literal.sign.text ++ literal.numeral.text

/-- The number a literal is read as. -/
def read (literal : Literal) : Number :=
  literal.numeral.taken.toNumber literal.sign.negative

theorem exists_digit (literal : Literal) : ∃ c ∈ literal.numeral.text, c.isDigit = true := by
  obtain ⟨sign, whole, fraction, exponent, present, ascii⟩ := literal
  obtain ⟨c, member⟩ := List.exists_mem_of_ne_nil _ present
  refine ⟨c, ?_, ascii c member⟩
  rw [Numeral.text]
  rcases List.mem_append.mp member with inWhole | inFraction
  · exact List.mem_append_left _ inWhole
  · cases fraction with
    | none => cases inFraction
    | some fraction =>
        apply List.mem_append_right
        apply List.mem_append_left
        exact List.mem_cons_of_mem _ inFraction

end Literal

section

variable {digits : List Char} (ascii : ∀ c ∈ digits, c.isDigit = true)
include ascii

theorem take_digits_before (rest : List Char) :
    takeDigits (digits ++ rest) = (digits ++ (takeDigits rest).1, (takeDigits rest).2) := by
  simp only [takeDigits, List.span_eq_takeWhile_dropWhile, List.takeWhile_append_of_pos ascii,
    List.dropWhile_append_of_pos ascii]

end

theorem take_digits_left (text : List Char) : (takeDigits text).2.length ≤ text.length := by
  rw [takeDigits, List.span_eq_takeWhile_dropWhile]
  exact (List.dropWhile_sublist Char.isDigit).length_le

theorem take_exponent_left (text : List Char) : (takeExponent text).2.length ≤ text.length := by
  obtain ⟨exponent, split, -⟩ := take_exponent_cases text
  have size := congrArg List.length split
  rw [List.length_append] at size
  omega

/-- An exponent in front of a text is taken, and perhaps more digits. -/
theorem take_exponent_before (exponent : Exponent) (rest : List Char) :
    (takeExponent (exponent.text ++ rest)).2.length ≤ rest.length := by
  have unsigned : ∀ c ∈ (exponent.digits ++ rest).head?, c ≠ '+' ∧ c ≠ '-' := by
    intro c first
    rw [List.head?_append_of_ne_nil _ exponent.present] at first
    exact digit_unsigned (exponent.ascii c (List.mem_of_mem_head? first))
  have signed := take_sign_text exponent.sign unsigned
  have digits := take_digits_before exponent.ascii rest
  have present : ¬(exponent.digits ++ (takeDigits rest).1).isEmpty = true := by
    rw [List.isEmpty_iff, List.append_eq_nil_iff]
    exact fun none => exponent.present none.1
  simp only [Exponent.text, List.cons_append, List.append_assoc, takeExponent,
    if_pos exponent.marked, signed, digits, if_neg present]
  exact take_digits_left rest

/-- Digits in front of a text are taken, and perhaps more digits and a point. -/
theorem take_mantissa_before {whole : List Char} {fraction : Option (List Char)}
    (ascii : ∀ c ∈ whole ++ fraction.getD [], c.isDigit = true)
    (present : whole ++ fraction.getD [] ≠ []) (rest : List Char) :
    ∃ parts left, takeMantissa (whole ++ (pointText fraction ++ rest)) = (parts, left) ∧
      ¬(parts.1.isEmpty && parts.2.isEmpty) = true ∧ left.length ≤ rest.length := by
  obtain ⟨wholeAscii, fractionAscii⟩ := List.forall_mem_append.mp ascii
  have taken := take_digits_left rest
  cases fraction with
  | none =>
      rw [Option.getD_none, List.append_nil] at present
      have first := take_digits_before wholeAscii rest
      have some : (whole ++ (takeDigits rest).1).isEmpty = false := by
        rw [List.isEmpty_eq_false_iff]
        exact List.append_ne_nil_of_left_ne_nil present _
      rw [pointText, Option.elim_none, List.nil_append, takeMantissa, first]
      dsimp only
      split
      · next afterPoint point =>
          have more := take_digits_left afterPoint
          rw [point, List.length_cons] at taken
          rw [some, Bool.false_and, if_neg Bool.false_ne_true]
          refine ⟨_, _, rfl, ?_, by omega⟩
          rw [some, Bool.false_and]
          exact Bool.false_ne_true
      · refine ⟨_, _, rfl, ?_, taken⟩
        rw [some, Bool.false_and]
        exact Bool.false_ne_true
  | some fraction =>
      have stop : ∀ c ∈ ('.' :: (fraction ++ rest)).head?, c.isDigit = false := by
        rintro c ⟨⟩
        decide
      have first := take_digits_text wholeAscii stop
      have second := take_digits_before fractionAscii rest
      have some : ¬(whole.isEmpty && (fraction ++ (takeDigits rest).1).isEmpty) = true := by
        rw [Bool.and_eq_true, List.isEmpty_iff, List.isEmpty_iff, List.append_eq_nil_iff]
        rintro ⟨rfl, rfl, -⟩
        exact present rfl
      refine ⟨(whole, fraction ++ (takeDigits rest).1), (takeDigits rest).2, ?_, some, taken⟩
      simp only [takeMantissa, pointText, Option.elim_some, List.cons_append, first]
      simp only [Option.getD_some] at second
      simp only [second, if_neg some]

/-- A literal in front of a text is taken, and perhaps more. -/
theorem take_literal_before (literal : Literal) (rest : List Char) :
    ∃ number left, takeLiteral? (literal.text ++ rest) = some (number, left) ∧
      left.length ≤ rest.length := by
  obtain ⟨sign, whole, fraction, exponent, present, ascii⟩ := literal
  have unsigned : ∀ c ∈ (whole ++ (pointText fraction ++ (exponentText exponent ++ rest))).head?,
      c ≠ '+' ∧ c ≠ '-' := by
    intro c first
    obtain ⟨digit, inside, -⟩ := Literal.exists_digit ⟨sign, whole, fraction, exponent, present, ascii⟩
    have nonempty : whole ++ (pointText fraction ++ exponentText exponent) ≠ [] :=
      List.ne_nil_of_mem inside
    apply Numeral.text_unsigned ⟨whole, fraction, exponent, present, ascii⟩ c
    rw [← List.append_assoc, ← List.append_assoc, List.append_assoc whole,
      List.head?_append_of_ne_nil _ nonempty] at first
    exact first
  have signed := take_sign_text sign unsigned
  have mantissa : ∃ parts left,
      takeMantissa (whole ++ (pointText fraction ++ (exponentText exponent ++ rest))) =
        (parts, left) ∧
      ¬(parts.1.isEmpty && parts.2.isEmpty) = true ∧
      (takeExponent left).2.length ≤ rest.length := by
    cases exponent with
    | none =>
        obtain ⟨parts, left, taken, some, fewer⟩ := take_mantissa_before ascii present rest
        exact ⟨parts, left, taken, some, (take_exponent_left left).trans fewer⟩
    | some exponent =>
        have ends : ∀ c ∈ (exponent.text ++ rest).head?, c.isDigit = false ∧ c ≠ '.' := fun c first =>
          exponent_text_starts (some exponent) c first
        refine ⟨_, _, take_mantissa_text ascii present ends, ?_, take_exponent_before exponent rest⟩
        rw [Bool.and_eq_true, List.isEmpty_iff, List.isEmpty_iff, ← List.append_eq_nil_iff]
        exact present
  obtain ⟨parts, left, taken, some, fewer⟩ := mantissa
  rw [Literal.text, Numeral.text, List.append_assoc, List.append_assoc, List.append_assoc,
    takeLiteral?, signed]
  dsimp only
  rw [taken]
  obtain ⟨wholeTaken, fractionTaken⟩ := parts
  dsimp only
  rw [if_neg some]
  exact ⟨_, _, rfl, fewer⟩

/-- Of all literals that a text starts with, this one is longest. -/
structure Longest (text : List Char) (literal : Literal) : Prop where
  starts : literal.text <+: text
  longest : ∀ other : Literal, other.text <+: text → other.text.length ≤ literal.text.length

section

variable {text : List Char}

theorem longest_of_taken {rest : List Char} {number : Number}
    (taken : takeLiteral? text = some (number, rest)) :
    ∃ literal, Longest text literal ∧ text = literal.text ++ rest ∧ number = literal.read := by
  obtain ⟨sign, numeral, shown, value⟩ := take_literal_cases taken
  refine ⟨⟨sign, numeral⟩, ⟨⟨rest, shown.symm⟩, ?_⟩, shown, value⟩
  rintro other ⟨behind, split⟩
  obtain ⟨otherNumber, left, again, fewer⟩ := take_literal_before other behind
  rw [split, taken] at again
  cases again
  have size := congrArg List.length shown
  have otherSize := congrArg List.length split
  rw [List.length_append] at size otherSize
  show other.text.length ≤ (sign.text ++ numeral.text).length
  omega

theorem exists_longest {literal : Literal} (starts : literal.text <+: text) :
    ∃ longest, Longest text longest := by
  obtain ⟨rest, rfl⟩ := starts
  obtain ⟨number, left, taken, -⟩ := take_literal_before literal rest
  obtain ⟨longest, holds, -⟩ := longest_of_taken taken
  exact ⟨longest, holds⟩

theorem take_literal_none (none : ∀ literal : Literal, ¬literal.text <+: text) :
    takeLiteral? text = Option.none := by
  rw [Option.eq_none_iff_forall_ne_some]
  rintro ⟨number, rest⟩ taken
  obtain ⟨literal, longest, -⟩ := longest_of_taken taken
  exact none literal longest.starts

theorem Literal.read_eq_of_text {first second : Literal} (same : first.text = second.text) :
    first.read = second.read := by
  have left := take_literal_iff.mpr ⟨first.sign, first.numeral, rfl, rfl⟩
  have right := take_literal_iff.mpr ⟨second.sign, second.numeral, rfl, rfl⟩
  rw [← Literal.text] at left right
  rw [same, right] at left
  simp only [Option.some.injEq, Prod.mk.injEq, and_true] at left
  exact left.symm

/-- The reader takes the longest literal. -/
theorem Longest.taken {literal : Literal} (longest : Longest text literal) :
    takeLiteral? text = some (literal.read, text.drop literal.text.length) := by
  obtain ⟨behind, split⟩ := longest.starts
  obtain ⟨number, left, taken, -⟩ := take_literal_before literal behind
  rw [split] at taken
  obtain ⟨other, otherLongest, shown, value⟩ := longest_of_taken taken
  have size := Nat.le_antisymm (otherLongest.longest literal longest.starts)
    (longest.longest other otherLongest.starts)
  have same : literal.text = other.text := by
    rw [List.prefix_iff_eq_take.mp longest.starts, List.prefix_iff_eq_take.mp otherLongest.starts,
      size]
  rw [taken, value, Literal.read_eq_of_text same, same]
  congr
  rw [shown, List.drop_left]

theorem take_infinity_none (none : ∀ sign : Sign, ¬sign.text ++ infinityWord <+: text) :
    takeInfinity? text = Option.none := by
  rw [Option.eq_none_iff_forall_ne_some]
  rintro ⟨number, rest⟩ taken
  obtain ⟨sign, shown, -⟩ := take_infinity_start_iff.mp taken
  exact none sign ⟨rest, shown.symm⟩

end

/-- A text that ends in no blank and stands at the start of another one stands there before its last
blanks. -/
theorem prefix_trim_end_of_last {front text : List Char} (starts : front <+: text)
    (solid : ∀ c ∈ front.getLast?, isBlank c = false) : front <+: trimEnd text := by
  rcases List.eq_nil_or_concat front with rfl | ⟨init, last, rfl⟩
  · exact List.nil_prefix
  · obtain ⟨rest, rfl⟩ := starts
    have kept : isBlank last = false := solid last (by simp)
    rw [List.concat_eq_append, List.append_assoc, List.singleton_append, trim_end_append kept]
    exact ⟨trimEnd rest, by simp⟩

section

variable {text : String}

theorem of_text_start_infinity {sign : Sign}
    (starts : sign.text ++ infinityWord <+: trimStart text.toList) :
    ofTextStart text = .infinite sign.negative := by
  obtain ⟨rest, shown⟩ := starts
  have taken := take_infinity_start_iff.mpr ⟨sign, shown.symm, rfl⟩
  simp only [ofTextStart, taken]

/-- Infinity and a literal do not start the same text. -/
theorem no_infinity_of_literal {text : List Char} {literal : Literal} (starts : literal.text <+: text)
    (sign : Sign) : ¬sign.text ++ infinityWord <+: text := by
  intro infinite
  rcases List.prefix_or_prefix_of_prefix infinite starts with inside | around
  · have letter : 'I' ∈ sign.text ++ infinityWord := List.mem_append_right _ List.mem_cons_self
    exact absurd (numeral_character (inside.subset letter)) (by decide)
  · obtain ⟨digit, member, isDigit⟩ := literal.exists_digit
    have none : ((sign.text ++ infinityWord).all fun c => !c.isDigit) = true := by
      cases sign <;> decide
    have other := List.all_eq_true.mp none digit (around.subset (List.mem_append_right _ member))
    rw [isDigit] at other
    cases other

theorem of_text_start_longest_value {literal : Literal}
    (longest : Longest (trimStart text.toList) literal) : ofTextStart text = literal.read := by
  have finite := take_infinity_none (no_infinity_of_literal longest.starts)
  simp only [ofTextStart, finite, longest.taken]

theorem of_text_start_none
    (infinite : ∀ sign : Sign, ¬sign.text ++ infinityWord <+: trimStart text.toList)
    (decimal : ∀ literal : Literal, ¬literal.text <+: trimStart text.toList) :
    ofTextStart text = .nan := by
  simp only [ofTextStart, take_infinity_none infinite, take_literal_none decimal]

/-- What the whole text stands for also stands at its start, radix literals and blank texts apart. -/
theorem of_text_start_eq_of_text (number : ofText text ≠ .nan) (some : trim text.toList ≠ [])
    (decimal : ∀ mark radix digits, (mark, radix) ∈ radixMarks → AreDigits radix digits →
      trim text.toList ≠ '0' :: mark :: digits) : ofTextStart text = ofText text := by
  have starts : trim text.toList <+: trimStart text.toList := prefix_trim_end _
  rcases numeric_of_number number with blank | ⟨sign, infinite⟩ |
    ⟨mark, radix, digits, announced, valid, trimmed⟩ | ⟨sign, numeral, trimmed⟩
  · exact absurd blank some
  · rw [infinite] at starts
    rw [of_text_start_infinity starts, of_text_infinity infinite]
  · exact absurd trimmed (decimal mark radix digits announced valid)
  · have longest : Longest (trimStart text.toList) ⟨sign, numeral⟩ := by
      rw [trimmed] at starts
      refine ⟨starts, fun other others => ?_⟩
      have inside := prefix_trim_end_of_last others (numeral_trimmed other.sign other.numeral).2
      have fits := inside.length_le
      rw [← trim, trimmed] at fits
      exact fits
    rw [of_text_start_longest_value longest, of_text_numeral trimmed]
    rfl

theorem Literal.of_text (literal : Literal) : ofText (String.ofList literal.text) = literal.read := by
  apply of_text_numeral
  rw [String.toList_ofList]
  exact trim_of_trimmed (numeral_trimmed literal.sign literal.numeral)

end

/-- The characters of a literal have one byte each. -/
theorem Literal.bytes (literal : Literal) :
    (String.ofList literal.text).utf8ByteSize = literal.text.length := by
  have narrow : ∀ c ∈ literal.text, c.utf8Size = 1 := by
    have marks : numeralMarks.all (fun c => c.utf8Size == 1) = true := by decide
    intro c member
    rcases numeral_character member with digit | mark
    · have most : c.toNat ≤ 0x39 := (Char.isDigit_iff_toNat.mp digit).2
      exact Char.utf8Size_eq_one_iff.mpr (UInt32.le_iff_toNat_le.mpr (most.trans (by decide)))
    · exact beq_iff_eq.mp (List.all_eq_true.mp marks c mark)
  generalize literal.text = text at narrow
  induction text with
  | nil => rfl
  | cons c rest ih =>
      obtain ⟨first, others⟩ := List.forall_mem_cons.mp narrow
      rw [String.ofList_cons, String.utf8ByteSize_append, String.utf8ByteSize_singleton, first,
        ih others, List.length_cons, Nat.add_comm]

/-- A text that starts with infinity reads as it, and any other one as its longest literal, or as NaN
when it starts with none. The literal is cut off between two characters; like any whole literal it is
rounded once, to the number nearest to what is written as long as its exponent is in reach. A text
that is a number as a whole reads as that number, unless it is blank or a radix announces its
digits. -/
theorem of_text_start_longest (text : String) :
    (∀ sign : Sign, sign.text ++ infinityWord <+: trimStart text.toList →
      ofTextStart text = .infinite sign.negative) ∧
    (∀ literal : Literal, literal.text <+: trimStart text.toList →
      ∃ longest, Longest (trimStart text.toList) longest) ∧
    (∀ literal, Longest (trimStart text.toList) literal →
      ofTextStart text = ofText (String.ofList literal.text) ∧
      Rounds literal.sign.negative literal.numeral.taken.value (ofTextStart text) ∧
      (literal.numeral.InReach →
        Rounds literal.sign.negative literal.numeral.exact.value (ofTextStart text)) ∧
      takeLiteral? (trimStart text.toList) =
        some (ofTextStart text, (trimStart text.toList).drop literal.text.length) ∧
      String.Pos.Raw.IsValid (String.ofList (trimStart text.toList)) ⟨literal.text.length⟩) ∧
    ((∀ sign : Sign, ¬sign.text ++ infinityWord <+: trimStart text.toList) →
      (∀ literal : Literal, ¬literal.text <+: trimStart text.toList) → ofTextStart text = .nan) ∧
    (ofText text ≠ .nan → trim text.toList ≠ [] →
      (∀ mark radix digits, (mark, radix) ∈ radixMarks → AreDigits radix digits →
        trim text.toList ≠ '0' :: mark :: digits) →
      ofTextStart text = ofText text) := by
  refine ⟨fun sign => of_text_start_infinity, fun literal => exists_longest, ?_, of_text_start_none,
    of_text_start_eq_of_text⟩
  intro literal longest
  have value := of_text_start_longest_value longest
  refine ⟨value.trans literal.of_text.symm, ?_, ?_, ?_, ?_⟩
  · rw [value]
    exact literal.numeral.taken.rounds literal.sign.negative
  · intro reach
    rw [value]
    exact literal.numeral.rounds_exact reach literal.sign.negative
  · rw [value]
    exact longest.taken
  · rw [String.Pos.Raw.isValid_ofList]
    refine ⟨literal.text.length, ?_⟩
    rw [← List.prefix_iff_eq_take.mp longest.starts, literal.bytes]

/-- Behind blanks, in front of an exponent part that has no digit. -/
theorem of_text_start_longest_cut : ∃ literal : Literal,
    literal.text = ['-', '2', '.', '5'] ∧ Longest (trimStart "  -2.5e+x".toList) literal ∧
      Rounds true (⟨25, -1⟩ : Decimal).value (ofTextStart "  -2.5e+x") := by
  let literal : Literal :=
    ⟨.minus, ['2'], some ['5'], none, by decide, List.all_eq_true.mp (by decide)⟩
  have start : trimStart "  -2.5e+x".toList = literal.text ++ ['e', '+', 'x'] := by decide +kernel
  have taken : takeLiteral? (trimStart "  -2.5e+x".toList) = some (literal.read, ['e', '+', 'x']) := by
    decide +kernel
  have longest : Longest (trimStart "  -2.5e+x".toList) literal := by
    obtain ⟨other, longest, shown, -⟩ := longest_of_taken taken
    have same : literal.text = other.text := List.append_cancel_right (start.symm.trans shown)
    refine ⟨⟨_, start.symm⟩, ?_⟩
    rw [same]
    exact longest.longest
  have reach : literal.numeral.InReach := .inl (by simp [literal])
  obtain ⟨-, -, read, -⟩ := of_text_start_longest "  -2.5e+x"
  obtain ⟨-, -, value, -⟩ := read literal longest
  exact ⟨literal, rfl, longest, value reach⟩

theorem far_digits_present : ['6', '5', '5', '3', '6', '0'] ≠ [] :=
  List.cons_ne_nil _ _

theorem far_digits_ascii : ∀ c ∈ ['6', '5', '5', '3', '6', '0'], c.isDigit = true :=
  List.all_eq_true.mp (by decide)

/-- A numeral whose exponent loses its last digit: `10…0e-655360`, with as many zeros as the ceiling
says. -/
def vanishingNumeral : Numeral where
  whole := ['1'] ++ List.replicate exponentCeiling '0'
  fraction := none
  exponent := some ⟨'e', .minus, _, lower_marked, far_digits_present, far_digits_ascii⟩
  present := List.cons_ne_nil _ _
  ascii := by
    rw [Option.getD_none, List.append_nil]
    exact List.forall_mem_append.mpr ⟨List.all_eq_true.mp (by decide), zeros_ascii _⟩

theorem Numeral.nearest_vanishing {numeral : Numeral}
    (far : (numeral.whole ++ numeral.fraction.getD []).length + numeral.exact.exponent ≤ -400) :
    IsNearest numeral.exact.value 0 :=
  Decimal.nearest_tiny (of_digit_chars_lt numeral.ascii) far

/-- The number that is written rounds to zero, the one that is read is one. -/
theorem of_text_start_vanishing :
    Longest (trimStart (String.ofList vanishingNumeral.text).toList) ⟨.bare, vanishingNumeral⟩ ∧
      ofTextStart (String.ofList vanishingNumeral.text) = one ∧
      ¬Rounds false vanishingNumeral.exact.value
        (ofTextStart (String.ofList vanishingNumeral.text)) := by
  have starts : trimStart (String.ofList vanishingNumeral.text).toList = vanishingNumeral.text := by
    rw [String.toList_ofList]
    exact trim_start_of_head (numeral_trimmed .bare vanishingNumeral).1
  have longest : Longest (trimStart (String.ofList vanishingNumeral.text).toList)
      ⟨.bare, vanishingNumeral⟩ := by
    rw [starts]
    exact ⟨List.prefix_rfl, fun other inside => inside.length_le⟩
  have digits : Nat.ofDigitChars 10 (vanishingNumeral.whole ++ vanishingNumeral.fraction.getD []) 0 =
      1 * tenTo exponentCeiling := by
    have first : Nat.ofDigitChars 10 ['1'] 0 = 1 := rfl
    rw [vanishingNumeral, Option.getD_none, List.append_nil, of_digit_chars_shifted, first]
  have places : (vanishingNumeral.exponent.elim 0 fun exponent => exponent.signed exponent.taken) -
      (vanishingNumeral.fraction.getD []).length = (0 : Int) - exponentCeiling := by
    rw [vanishingNumeral]
    rfl
  have taken : vanishingNumeral.taken = ⟨1 * tenTo exponentCeiling, 0 - exponentCeiling⟩ := by
    rw [Numeral.taken, Numeral.decimal, digits, places]
  have single : (1 : ℚ) = Decimal.value ⟨1, 0⟩ := by
    rw [Decimal.value, zpow_zero, Nat.cast_one, mul_one]
  have value : ofTextStart (String.ofList vanishingNumeral.text) = one := by
    have rounds := vanishingNumeral.taken.rounds false
    rw [taken, Decimal.value_scaled, ← single, ← taken] at rounds
    rw [of_text_start_longest_value longest]
    exact rounds.unique (of_nat_rounds 1)
  refine ⟨longest, value, fun rounds => ?_⟩
  have tiny : IsNearest vanishingNumeral.exact.value 0 := by
    apply Numeral.nearest_vanishing
    have size : (vanishingNumeral.whole ++ vanishingNumeral.fraction.getD []).length = 65537 := by
      rw [vanishingNumeral, Option.getD_none, List.append_nil, List.length_append,
        List.length_replicate]
      rfl
    have exponent : vanishingNumeral.exact.exponent = -655360 := by
      rw [vanishingNumeral]
      rfl
    rw [exponent, size]
    decide
  rw [value] at rounds
  exact absurd (rounds.unique ⟨0, tiny, rfl⟩) (by decide +kernel)

end ScriptSandbox.Number
