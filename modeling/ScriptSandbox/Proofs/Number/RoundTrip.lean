import ScriptSandbox.Number.Layout
import ScriptSandbox.Proofs.Number.Numerals
import ScriptSandbox.Proofs.Value.Equality

/-!
The text of a number reads back. The shortest decimal of a magnitude rounds to it; every layout
writes it as a numeral of the same value, and no layout needs an exponent that is out of reach.
-/

namespace ScriptSandbox

namespace Decimal

open Number

theorem on_grid_rank {tie : Tie} {target : Nat} {exponent : Int} {decimal : Decimal}
    (found : onGrid? tie target exponent = some decimal) : decimal.rank = target := by
  unfold onGrid? at found
  dsimp only at found
  split at found
  · next below =>
      split at found
      · next above =>
          split at found
          · cases found
            exact below
          · split at found
            · cases found
              exact above
            · split at found
              · cases found
                exact above
              · split at found
                · cases found
                  exact below
                · cases found
                  exact above
      · cases found
        exact below
  · split at found
    · next above =>
        cases found
        exact above
    · cases found

theorem exact_value (rank : Nat) : (exact rank).value = rankValue rank := by
  have power : Nat.pow 5 1074 * unitsPerOne = tenTo 1074 := by decide +kernel
  have scaled := unit_ratio_scaled (magnitude rank) 1 (ten_to_pos 1074)
  have shown : (exact rank).value =
      unitRatio (magnitude rank * Nat.pow 5 1074 * unitsPerOne) (tenTo 1074) :=
    value_negative (magnitude rank * Nat.pow 5 1074) 1073
  rw [Nat.one_mul] at scaled
  rw [shown, Nat.mul_assoc, power, scaled, unitRatio, Nat.cast_one, div_one, rankValue]

/-- The shortest decimal of a magnitude rounds to it. -/
theorem shortest_rounds (tie : Tie) (negative : Bool) (target : Nat) :
    Rounds negative (shortest tie target).value (ofRank negative target) := by
  rw [shortest]
  cases found : (List.range 17).findSome? fun (extra : Nat) =>
      onGrid? tie target (leadingExponent (magnitude target) unitsPerOne - extra) with
  | none =>
      rw [Option.getD_none, exact_value]
      exact ⟨target, nearest_self target, rfl⟩
  | some decimal =>
      obtain ⟨extra, -, grid⟩ := List.exists_of_findSome?_eq_some found
      have rounds := decimal.rounds negative
      rw [toNumber, on_grid_rank grid] at rounds
      exact rounds

/-- The place of the point behind the first digit. -/
def place (decimal : Decimal) : Int :=
  (Nat.toDigits 10 decimal.digits).length + decimal.exponent

theorem value_scaled (digits places : Nat) (exponent : Int) :
    value ⟨digits * tenTo places, exponent - places⟩ = value ⟨digits, exponent⟩ := by
  have power : ((tenTo places : Nat) : ℚ) = 10 ^ (places : ℤ) := by
    rw [tenTo, zpow_natCast]
    exact_mod_cast rfl
  rw [value, value, Nat.cast_mul, power, mul_assoc, ← zpow_add₀ (by norm_num), add_sub_cancel]

theorem first_digit_reached {value : Nat} (positive : value ≠ 0) :
    tenTo ((Nat.toDigits 10 value).length - 1) ≤ value := by
  by_cases single : (Nat.toDigits 10 value).length - 1 = 0
  · rw [single]
    exact Nat.one_le_iff_ne_zero.mpr positive
  · have least := Nat.length_toDigits_le_iff (n := value) (show 1 < 10 by decide)
      (Nat.pos_of_ne_zero single)
    have count : 0 < (Nat.toDigits 10 value).length := Nat.length_toDigits_pos
    exact Nat.le_of_not_lt (mt least.mpr (by omega))

/-- A decimal that rounds to a positive finite number has its first digit near the point. -/
theorem place_bounds {decimal : Decimal} {negative : Bool} {rank : Nat} (some : rank ≠ 0)
    (bounded : rank < rankCount) (rounds : Rounds negative decimal.value (ofRank negative rank)) :
    decimal.digits ≠ 0 ∧ -400 < decimal.place ∧ decimal.place ≤ 400 := by
  have finite : ofRank negative rank = .finite negative ⟨rank, bounded⟩ := dif_pos bounded
  have positive : ¬IsNearest decimal.value 0 := by
    intro nearest
    have same := rounds.unique ⟨0, nearest, rfl⟩
    rw [finite, ofRank, dif_pos rank_count_pos] at same
    cases same
    exact some rfl
  have count : 0 < (Nat.toDigits 10 decimal.digits).length := Nat.length_toDigits_pos
  have digits : decimal.digits ≠ 0 := fun none => positive (nearest_of_no_digits none)
  refine ⟨digits, ?_, ?_⟩
  · by_contra low
    have short : decimal.digits < tenTo (Nat.toDigits 10 decimal.digits).length :=
      (Nat.length_toDigits_le_iff (by decide) count).mp (Nat.le_refl _)
    exact positive (nearest_tiny short (Int.not_lt.mp low))
  · by_contra high
    have huge := rounds_huge negative (first_digit_reached digits) (by rw [place] at high; omega)
    have same := rounds.unique huge
    rw [finite] at same
    cases same

end Decimal

namespace Number

open Text

theorem to_digits_ascii (value : Nat) : ∀ c ∈ Nat.toDigits 10 value, c.isDigit = true := fun _ =>
  Nat.isDigit_of_mem_toDigits (by decide) (by decide)

theorem zeros_ascii (zeros : Nat) : ∀ c ∈ List.replicate zeros '0', c.isDigit = true := by
  intro c member
  rw [List.eq_of_mem_replicate member]
  rfl

theorem of_digit_chars_zeros (zeros : Nat) (digits : List Char) :
    Nat.ofDigitChars 10 (List.replicate zeros '0' ++ digits) 0 = Nat.ofDigitChars 10 digits 0 := by
  rw [Nat.ofDigitChars_append, Nat.ofDigitChars_replicate_zero, Nat.mul_zero]

theorem of_digit_chars_shifted (digits : List Char) (zeros : Nat) :
    Nat.ofDigitChars 10 (digits ++ List.replicate zeros '0') 0 =
      Nat.ofDigitChars 10 digits 0 * tenTo zeros := by
  rw [Nat.ofDigitChars_append, Nat.ofDigitChars_replicate_zero, Nat.mul_comm]
  rfl

def Sign.ofNegative : Bool → Sign
  | true => .minus
  | false => .bare

theorem Sign.of_negative_text (negative : Bool) :
    (Sign.ofNegative negative).text = if negative then ['-'] else [] := by
  cases negative <;> rfl

theorem Sign.of_negative_negative (negative : Bool) :
    (Sign.ofNegative negative).negative = negative := by
  cases negative <;> rfl

namespace Layout

def writtenExponent (exponent : Int) : Exponent where
  mark := 'e'
  sign := if exponent < 0 then .minus else .plus
  digits := Nat.toDigits 10 exponent.natAbs
  marked := lower_marked
  present := Nat.toDigits_ne_nil
  ascii := to_digits_ascii _

theorem written_exponent_text (exponent : Int) :
    (writtenExponent exponent).text = exponentPart exponent := by
  unfold Exponent.text writtenExponent exponentPart
  split <;> rfl

theorem written_exponent_exact (exponent : Int) :
    (writtenExponent exponent).exact = exponent.natAbs :=
  Nat.ofDigitChars_ten_toDigits

theorem written_exponent_signed (exponent : Int) :
    (writtenExponent exponent).signed (writtenExponent exponent).exact = exponent := by
  rw [written_exponent_exact, Exponent.signed]
  unfold writtenExponent
  by_cases negative : exponent < 0
  · rw [if_pos negative, if_pos (show Sign.minus.negative = true from rfl)]
    omega
  · rw [if_neg negative, if_neg (show ¬Sign.plus.negative = true by decide)]
    omega

section

variable (decimal : Decimal)

/-- Behind the significant digits of a decimal there are only zeros. -/
theorem significant_digits_split : ∃ zeros, Nat.toDigits 10 decimal.digits =
    significantDigits decimal ++ List.replicate zeros '0' := by
  generalize shown : (Nat.toDigits 10 decimal.digits).reverse = text
  have zeros : ∀ c ∈ text.takeWhile (· == '0'), c = '0' := fun c member => by
    simpa using List.mem_takeWhile_imp member
  refine ⟨(text.takeWhile (· == '0')).length, ?_⟩
  calc Nat.toDigits 10 decimal.digits = text.reverse := by rw [← shown, List.reverse_reverse]
    _ = (text.takeWhile (· == '0') ++ text.dropWhile (· == '0')).reverse := by
        rw [List.takeWhile_append_dropWhile]
    _ = (text.dropWhile (· == '0')).reverse ++ (text.takeWhile (· == '0')).reverse :=
        List.reverse_append
    _ = _ := by
        rw [List.eq_replicate_of_mem zeros, List.reverse_replicate, List.length_replicate,
          significantDigits, shown]

theorem significant_digits_ascii : ∀ c ∈ significantDigits decimal, c.isDigit = true := by
  obtain ⟨zeros, split⟩ := significant_digits_split decimal
  intro c member
  apply to_digits_ascii decimal.digits
  rw [split]
  exact List.mem_append_left _ member

/-- The value of a decimal by its significant digits and the place of its point. -/
theorem significant_digits_value :
    Decimal.value ⟨Nat.ofDigitChars 10 (significantDigits decimal) 0,
      decimal.place - (significantDigits decimal).length⟩ = decimal.value := by
  obtain ⟨zeros, split⟩ := significant_digits_split decimal
  have digits : decimal.digits =
      Nat.ofDigitChars 10 (significantDigits decimal) 0 * tenTo zeros := by
    rw [← of_digit_chars_shifted, ← split, Nat.ofDigitChars_ten_toDigits]
  have exponent : decimal.exponent =
      decimal.place - (significantDigits decimal).length - zeros := by
    rw [Decimal.place, split, List.length_append, List.length_replicate]
    omega
  rw [← Decimal.value_scaled _ zeros, ← digits, ← exponent]

theorem significant_digits_some (positive : decimal.digits ≠ 0) :
    significantDigits decimal ≠ [] := by
  obtain ⟨zeros, split⟩ := significant_digits_split decimal
  intro none
  rw [none, List.nil_append] at split
  have worth := Nat.ofDigitChars_ten_toDigits (n := decimal.digits)
  rw [split, Nat.ofDigitChars_replicate_zero, Nat.mul_zero] at worth
  exact positive worth.symm

end

section

variable {digits : List Char} (ascii : ∀ c ∈ digits, c.isDigit = true)
include ascii

/-- The point stands before the digits, with zeros between if it is further ahead. -/
theorem fraction_numeral (zeros : Nat) : ∃ numeral : Numeral,
    '0' :: '.' :: (List.replicate zeros '0' ++ digits) = numeral.text ∧ numeral.exponent = none ∧
      numeral.exact.value =
        Decimal.value ⟨Nat.ofDigitChars 10 digits 0, -(zeros : Int) - digits.length⟩ := by
  have fractionAscii : ∀ c ∈ List.replicate (zeros + 1) '0' ++ digits, c.isDigit = true :=
    List.forall_mem_append.mpr ⟨zeros_ascii _, ascii⟩
  refine ⟨⟨['0'], some (List.replicate zeros '0' ++ digits), none, List.cons_ne_nil _ _,
    fractionAscii⟩, ?_, rfl, ?_⟩
  · simp [Numeral.text, pointText, exponentText]
  · have worth : Nat.ofDigitChars 10 (['0'] ++ (List.replicate zeros '0' ++ digits)) 0 =
        Nat.ofDigitChars 10 digits 0 :=
      of_digit_chars_zeros (zeros + 1) digits
    simp only [Numeral.exact, Numeral.decimal, Option.getD_some, worth, List.length_append,
      List.length_replicate, Option.elim_none]
    congr 2
    omega

variable (present : digits ≠ [])
include present

/-- The point stands behind all digits, with zeros between if it is further behind. -/
theorem whole_numeral (layout : Layout) (zeros : Nat) : ∃ numeral : Numeral,
    digits ++ List.replicate zeros '0' ++ layout.wholeTail = numeral.text ∧
      numeral.exponent = none ∧
      numeral.exact.value = Decimal.value ⟨Nat.ofDigitChars 10 digits 0, zeros⟩ := by
  have paddedAscii (count : Nat) : ∀ c ∈ digits ++ List.replicate count '0', c.isDigit = true :=
    List.forall_mem_append.mpr ⟨ascii, zeros_ascii count⟩
  have holds (rest : List Char) : digits ++ rest ≠ [] :=
    List.append_ne_nil_of_left_ne_nil present rest
  rw [wholeTail]
  split
  · have more : digits ++ List.replicate zeros '0' ++ ['0'] =
        digits ++ List.replicate (zeros + 1) '0' := by
      rw [List.append_assoc, List.replicate_succ']
    refine ⟨⟨digits ++ List.replicate zeros '0', some ['0'], none, ?_, ?_⟩, ?_, rfl, ?_⟩
    · rw [Option.getD_some, more]
      exact holds _
    · rw [Option.getD_some, more]
      exact paddedAscii _
    · simp [Numeral.text, pointText, exponentText]
    · have scaled := Decimal.value_scaled (Nat.ofDigitChars 10 digits 0) (zeros + 1) zeros
      rw [← scaled, ← of_digit_chars_shifted]
      simp only [Numeral.exact, Numeral.decimal, Option.getD_some, more, Option.elim_none,
        List.length_singleton]
      congr 2
      omega
  · refine ⟨⟨digits ++ List.replicate zeros '0', none, none, ?_, ?_⟩, ?_, rfl, ?_⟩
    · rw [Option.getD_none, List.append_nil]
      exact holds _
    · rw [Option.getD_none, List.append_nil]
      exact paddedAscii _
    · simp [Numeral.text, pointText, exponentText]
    · have scaled := Decimal.value_scaled (Nat.ofDigitChars 10 digits 0) zeros zeros
      rw [← scaled, ← of_digit_chars_shifted]
      simp only [Numeral.exact, Numeral.decimal, Option.getD_none, List.append_nil,
        Option.elim_none, List.length_nil]
      congr 2
      omega

/-- The point stands among the digits. -/
theorem pointed_numeral {whole : Nat} (inside : whole ≤ digits.length) : ∃ numeral : Numeral,
    digits.take whole ++ '.' :: digits.drop whole = numeral.text ∧ numeral.exponent = none ∧
      numeral.exact.value =
        Decimal.value ⟨Nat.ofDigitChars 10 digits 0, whole - digits.length⟩ := by
  refine ⟨⟨digits.take whole, some (digits.drop whole), none, ?_, ?_⟩, ?_, rfl, ?_⟩
  · rwa [Option.getD_some, List.take_append_drop]
  · rwa [Option.getD_some, List.take_append_drop]
  · simp [Numeral.text, pointText, exponentText]
  · simp only [Numeral.exact, Numeral.decimal, Option.getD_some, List.take_append_drop,
      List.length_drop, Option.elim_none]
    congr 2
    omega

theorem plain_numeral (layout : Layout) (place : Int) : ∃ numeral : Numeral,
    layout.plain digits place = numeral.text ∧ numeral.exponent = none ∧
      numeral.exact.value =
        Decimal.value ⟨Nat.ofDigitChars 10 digits 0, place - digits.length⟩ := by
  unfold plain
  split
  · next zeros => exact fraction_numeral ascii (zeros + 1)
  · exact fraction_numeral ascii 0
  · next whole _ =>
      split
      · next behind =>
          have same : (whole : Int) - digits.length = (whole - digits.length : Nat) := by omega
          rw [Int.ofNat_eq_natCast, same]
          exact whole_numeral ascii present layout (whole - digits.length)
      · next among => exact pointed_numeral ascii present (Nat.le_of_not_le among)

theorem scientific_numeral (exponent : Int) : ∃ numeral : Numeral,
    scientific digits exponent = numeral.text ∧
      (∀ part ∈ numeral.exponent, part.exact = exponent.natAbs) ∧
      numeral.exact.value =
        Decimal.value ⟨Nat.ofDigitChars 10 digits 0, exponent + 1 - digits.length⟩ := by
  have size : ∀ part ∈ some (writtenExponent exponent), part.exact = exponent.natAbs := by
    rintro part ⟨⟩
    exact written_exponent_exact exponent
  unfold scientific
  split
  · exact absurd rfl present
  · next single =>
      refine ⟨⟨[single], none, some (writtenExponent exponent), present, ascii⟩, ?_, size, ?_⟩
      · rw [← written_exponent_text]
        rfl
      · simp only [Numeral.exact, Numeral.decimal, Option.getD_none, List.append_nil,
          Option.elim_some, written_exponent_signed, List.length_nil, List.length_singleton]
        congr 2
        omega
  · next first more _ =>
      refine ⟨⟨[first], some more, some (writtenExponent exponent), present, ascii⟩, ?_, size, ?_⟩
      · rw [← written_exponent_text]
        rfl
      · simp only [Numeral.exact, Numeral.decimal, Option.getD_some, List.singleton_append,
          Option.elim_some, written_exponent_signed, List.length_cons]
        congr 2
        omega

end

/-- Every layout writes a decimal as a numeral of its value. Its exponent, if it has one, is the
place of the first digit. -/
theorem positive_numeral (layout : Layout) {decimal : Decimal} (positive : decimal.digits ≠ 0) :
    ∃ numeral : Numeral, layout.positive decimal = numeral.text ∧
      (∀ part ∈ numeral.exponent, part.exact = (decimal.place - 1).natAbs) ∧
      numeral.exact.value = decimal.value := by
  have ascii := significant_digits_ascii decimal
  have present := significant_digits_some decimal positive
  have value := significant_digits_value decimal
  rw [Layout.positive]
  split
  · obtain ⟨numeral, shown, none, same⟩ := plain_numeral ascii present layout decimal.place
    refine ⟨numeral, shown, ?_, same.trans value⟩
    intro part member
    rw [none] at member
    cases member
  · obtain ⟨numeral, shown, size, same⟩ := scientific_numeral ascii present (decimal.place - 1)
    rw [sub_add_cancel] at same
    exact ⟨numeral, shown, size, same.trans value⟩

theorem zero_numeral (layout : Layout) : ∃ numeral : Numeral,
    '0' :: layout.wholeTail = numeral.text ∧
      ∀ negative, numeral.taken.toNumber negative = .finite negative zeroRank := by
  have ascii : ∀ c ∈ ['0'], c.isDigit = true := zeros_ascii 1
  obtain ⟨numeral, shown, bare, value⟩ := whole_numeral ascii (List.cons_ne_nil _ _) layout 0
  refine ⟨numeral, shown, fun negative => ?_⟩
  have reach : numeral.InReach := .inl (by simp [bare])
  have rounds := numeral.rounds_exact reach negative
  rw [value] at rounds
  have least : Rounds negative (Decimal.value ⟨0, 0⟩) (ofRank negative 0) :=
    ⟨0, Decimal.nearest_of_no_digits rfl, rfl⟩
  exact (rounds.unique least).trans (dif_pos rank_count_pos)

/-- Every layout writes a finite number as a signed numeral that is read as that number. -/
theorem finite_numeral (layout : Layout) (negative : Bool) (rank : Fin rankCount) :
    ∃ (sign : Sign) (numeral : Numeral), layout.finite negative rank = sign.text ++ numeral.text ∧
      equals (numeral.taken.toNumber sign.negative) (.finite negative rank) = true := by
  rw [Layout.finite]
  split
  · next none =>
      obtain ⟨numeral, shown, read⟩ := zero_numeral layout
      refine ⟨.ofNegative (negative && layout.signedZero), numeral, ?_, ?_⟩
      · rw [Sign.of_negative_text, shown]
      · rw [read, equals_iff]
        have zero : (Number.finite negative rank).isZero = true := by simp [isZero, none]
        exact ⟨0, place_of_zero rfl, place_of_zero zero⟩
  · next some =>
      have rounds := Decimal.shortest_rounds layout.tie negative rank
      obtain ⟨digits, low, high⟩ := Decimal.place_bounds some rank.isLt rounds
      obtain ⟨numeral, shown, size, value⟩ := positive_numeral layout digits
      have reach : numeral.InReach := by
        refine .inl fun part member => ?_
        rw [size part member, exponentCeiling]
        omega
      have read := numeral.rounds_exact reach negative
      rw [value] at read
      refine ⟨.ofNegative negative, numeral, ?_, ?_⟩
      · rw [Sign.of_negative_text, shown]
      · rw [Sign.of_negative_negative, read.unique rounds, ofRank, dif_pos rank.isLt, equals_iff]
        exact ⟨_, rfl, rfl⟩

end Layout

theorem of_text_start_numeral {text : String} {sign : Sign} {numeral : Numeral}
    (shown : text.toList = sign.text ++ numeral.text) :
    ofTextStart text = numeral.taken.toNumber sign.negative := by
  have taken := take_literal_iff.mpr ⟨sign, numeral, shown, rfl⟩
  have starts := trim_start_of_head (numeral_trimmed sign numeral).1
  have finite := take_infinity_numeral sign numeral
  rw [← shown] at starts finite
  simp only [ofTextStart, starts, finite, taken]

/-- A reader that starts with this text takes it as a whole: as infinity, or else as a literal. -/
def TakenWhole (text : List Char) (number : Number) : Prop :=
  takeInfinity? text = some (number, []) ∨
    takeInfinity? text = none ∧ takeLiteral? text = some (number, [])

/-- Both readers take the text of a number as a whole and give back the number, the sign of zero
apart. -/
theorem to_text_reads_back {number : Number} (real : number ≠ .nan) :
    equals (ofText (toText number)) number = true ∧
      equals (ofTextStart (toText number)) number = true ∧
      trim (toText number).toList = (toText number).toList ∧
      TakenWhole (toText number).toList (ofTextStart (toText number)) := by
  cases number with
  | nan => exact absurd rfl real
  | infinite negative =>
      refine ⟨?_, ?_, ?_, .inl ?_⟩ <;> cases negative <;> decide +kernel
  | finite negative rank =>
      obtain ⟨sign, numeral, shown, read⟩ := display.finite_numeral negative rank
      have chars : (toText (.finite negative rank)).toList = sign.text ++ numeral.text := by
        rw [← shown]
        exact String.toList_ofList
      have trimmed : trim (toText (.finite negative rank)).toList =
          (toText (.finite negative rank)).toList := by
        rw [chars]
        exact trim_of_trimmed (numeral_trimmed sign numeral)
      have start := of_text_start_numeral chars
      refine ⟨?_, ?_, trimmed, .inr ⟨?_, ?_⟩⟩
      · rw [of_text_numeral (trimmed.trans chars)]
        exact read
      · rw [start]
        exact read
      · rw [chars, take_infinity_numeral]
      · rw [start]
        exact take_literal_iff.mpr ⟨sign, numeral, chars, rfl⟩

theorem to_text_reads_back_tenth :
    equals (ofText (toText (ofBits 0x3fb999999999999a))) (ofBits 0x3fb999999999999a) = true ∧
      TakenWhole (toText (ofBits 0x3fb999999999999a)).toList
        (ofTextStart (toText (ofBits 0x3fb999999999999a))) := by
  have real : ofBits 0x3fb999999999999a ≠ .nan := by decide +kernel
  obtain ⟨whole, -, -, start⟩ := to_text_reads_back real
  exact ⟨whole, start⟩

end Number

end ScriptSandbox
