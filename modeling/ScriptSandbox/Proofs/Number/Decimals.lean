import Mathlib.Algebra.Order.Field.Power
import ScriptSandbox.Number.Decimal
import ScriptSandbox.Proofs.Number.Nearest

/-!
Decimals and the numbers they round to. The rank of a decimal far outside the finite range is found
without forming a power of ten; it is the rank that rounding gives all the same.
-/

namespace ScriptSandbox

namespace Number

section

variable {value : ℚ}

theorem exists_nearest (least : 0 ≤ value) : ∃ rank, IsNearest value rank := by
  have parts : unitRatio (value.num.natAbs * unitsPerOne) value.den = value := by
    have whole : ((value.num.natAbs : ℕ) : ℚ) = value.num := by
      rw [← Int.cast_natCast, Int.natAbs_of_nonneg (Rat.num_nonneg.mpr least)]
    rw [unitRatio, Nat.cast_mul, div_right_comm, mul_div_cancel_right₀ _ units_rat_pos.ne', whole,
      Rat.num_div_den]
  have nearest := nearest_rank_is_nearest (value.num.natAbs * unitsPerOne) value.den_pos
  rw [parts] at nearest
  exact ⟨_, nearest⟩

theorem rank_value_zero : rankValue 0 = 0 := by
  rw [rankValue, magnitude_zero, Nat.cast_zero, zero_div]

theorem rank_value_one : rankValue 1 = 1 / unitsPerOne := by
  have first : magnitude 1 = 1 := magnitude_small (by decide)
  rw [rankValue, first, Nat.cast_one]

theorem rank_value_nonneg (rank : Nat) : 0 ≤ rankValue rank :=
  div_nonneg (Nat.cast_nonneg _) (Nat.cast_nonneg _)

/-- Past the last finite number comes 2^1024. -/
theorem rank_value_count : rankValue rankCount = (twoTo 1024 : Nat) := by
  have split : rankCount = 2046 * binadeSize + binadeSize := by
    rw [rankCount]
    omega
  have high : binadeSize < 2 * binadeSize := by
    have base : 0 < binadeSize := two_to_pos 52
    omega
  have units : binadeSize * twoTo 2046 = twoTo 1024 * unitsPerOne := by
    rw [binadeSize, unitsPerOne, ← two_to_add, ← two_to_add]
  rw [rankValue, split, magnitude_shifted (Nat.le_refl _) high, units, Nat.cast_mul,
    mul_div_cancel_right₀ _ units_rat_pos.ne']

theorem of_rank_beyond (negative : Bool) {rank : Nat} (past : rankCount ≤ rank) :
    ofRank negative rank = .infinite negative :=
  dif_neg (Nat.not_lt.mpr past)

theorem rounds_infinite (negative : Bool) (beyond : rankValue rankCount ≤ value) :
    Rounds negative value (.infinite negative) := by
  obtain ⟨rank, nearest⟩ := exists_nearest ((rank_value_nonneg _).trans beyond)
  have past := nearest.le_of_value_le beyond
  exact ⟨rank, nearest, (of_rank_beyond negative past).symm⟩

theorem nearest_zero (small : 2 * value < rankValue 1) : IsNearest value 0 := by
  rw [is_nearest_iff]
  refine ⟨.inl ?_, fun previous before => absurd before (Nat.succ_ne_zero previous)⟩
  rw [rank_value_zero, zero_add]
  exact small

theorem nearest_self (rank : Nat) : IsNearest (rankValue rank) rank := by
  rw [is_nearest_iff]
  have next := rank_value_strict (Nat.lt_succ_self rank)
  refine ⟨.inl (by linarith), ?_⟩
  rintro previous rfl
  have last := rank_value_strict (Nat.lt_succ_self previous)
  exact .inl (by linarith)

end

end Number

namespace Decimal

open Number

def value (decimal : Decimal) : ℚ :=
  decimal.digits * (10 : ℚ) ^ decimal.exponent

theorem ten_to_pos (exponent : Nat) : 0 < tenTo exponent :=
  Nat.pow_pos (by decide)

theorem value_natural (digits places : Nat) :
    value ⟨digits, .ofNat places⟩ = (digits * tenTo places : Nat) := by
  have power : ((tenTo places : Nat) : ℚ) = 10 ^ places := by
    rw [tenTo]
    exact_mod_cast rfl
  rw [value, Nat.cast_mul, power, Int.ofNat_eq_natCast, zpow_natCast]

theorem value_negative (digits places : Nat) :
    value ⟨digits, .negSucc places⟩ = unitRatio (digits * unitsPerOne) (tenTo (places + 1)) := by
  have power : ((tenTo (places + 1) : Nat) : ℚ) = 10 ^ (places + 1) := by
    rw [tenTo]
    exact_mod_cast rfl
  rw [value, unitRatio, Nat.cast_mul, div_right_comm, mul_div_cancel_right₀ _ units_rat_pos.ne',
    power, zpow_negSucc, ← div_eq_mul_inv]

section

variable {decimal : Decimal}

theorem rounds_huge (negative : Bool) {count : Nat} (long : tenTo count ≤ decimal.digits)
    (far : 400 ≤ count + decimal.exponent) :
    Rounds negative decimal.value (.infinite negative) := by
  apply rounds_infinite
  have more : (10 : ℚ) ^ count ≤ decimal.digits := by
    exact_mod_cast long
  have bound : twoTo 1024 ≤ 10 ^ 400 := by decide +kernel
  calc rankValue rankCount = (twoTo 1024 : Nat) := rank_value_count
    _ ≤ (10 : ℚ) ^ (400 : ℤ) := by exact_mod_cast bound
    _ ≤ 10 ^ (count + decimal.exponent) := zpow_le_zpow_right₀ (by norm_num) far
    _ = 10 ^ count * (10 : ℚ) ^ decimal.exponent := by
        rw [← zpow_natCast, ← zpow_add₀ (by norm_num)]
    _ ≤ decimal.value := mul_le_mul_of_nonneg_right more (by positivity)

theorem nearest_tiny {count : Nat} (short : decimal.digits < tenTo count)
    (far : count + decimal.exponent ≤ -400) : IsNearest decimal.value 0 := by
  apply nearest_zero
  have fewer : (decimal.digits : ℚ) ≤ 10 ^ count := by
    exact_mod_cast Nat.le_of_lt short
  have below : decimal.value ≤ 10 ^ (-400 : ℤ) := by
    calc decimal.value ≤ 10 ^ count * (10 : ℚ) ^ decimal.exponent :=
          mul_le_mul_of_nonneg_right fewer (by positivity)
      _ = 10 ^ (count + decimal.exponent) := by
          rw [← zpow_natCast, ← zpow_add₀ (by norm_num)]
      _ ≤ 10 ^ (-400 : ℤ) := zpow_le_zpow_right₀ (by norm_num) far
  have bound : 2 * unitsPerOne < 10 ^ 400 := by decide +kernel
  have unit : 2 * (10 : ℚ) ^ (-400 : ℤ) < rankValue 1 := by
    rw [rank_value_one, zpow_neg, ← div_eq_mul_inv, div_lt_div_iff₀ (by positivity) units_rat_pos,
      one_mul]
    exact_mod_cast bound
  linarith

theorem nearest_of_no_digits (none : decimal.digits = 0) : IsNearest decimal.value 0 := by
  apply nearest_zero
  rw [value, none, Nat.cast_zero, zero_mul, mul_zero, rank_value_one]
  exact one_div_pos.mpr units_rat_pos

end

theorem small_of_log2 {digits places : Nat} (low : digits.log2 + 1076 < 3 * places) :
    2 * (digits * unitsPerOne) < tenTo places := by
  calc 2 * (digits * unitsPerOne) < 2 * (twoTo (digits.log2 + 1) * unitsPerOne) := by
        have bound : digits < twoTo (digits.log2 + 1) := Nat.lt_log2_self
        exact Nat.mul_lt_mul_of_pos_left (Nat.mul_lt_mul_of_pos_right bound units_pos) Nat.two_pos
    _ = twoTo (digits.log2 + 1076) := by
        have double : twoTo 1075 = 2 * unitsPerOne := by decide +kernel
        rw [show digits.log2 + 1076 = digits.log2 + 1 + 1075 by omega, two_to_add _ 1075, double]
        ring
    _ ≤ twoTo (3 * places) := Nat.pow_le_pow_right Nat.two_pos low.le
    _ = 8 ^ places := Nat.pow_mul 2 3 places
    _ ≤ tenTo places := Nat.pow_le_pow_left (by decide) places

/-- A decimal turns into the number it rounds to. -/
theorem rounds (negative : Bool) (decimal : Decimal) :
    Rounds negative decimal.value (decimal.toNumber negative) := by
  obtain ⟨digits, exponent⟩ := decimal
  rw [toNumber, rank]
  dsimp only
  split
  · next none =>
      exact ⟨0, nearest_of_no_digits none, rfl⟩
  · next some =>
      split
      · next places =>
          split
          · next far =>
              rw [of_rank_beyond negative (Nat.le_refl _)]
              have large : tenTo 0 ≤ digits := Nat.one_le_iff_ne_zero.mpr some
              have past : (400 : Int) ≤ (0 : Nat) + Int.ofNat places := by
                rw [Int.ofNat_eq_natCast]
                omega
              exact rounds_huge negative large past
          · rw [value_natural, ← unit_ratio_units]
            exact of_unit_ratio_rounds negative _ Nat.one_pos
      · next places =>
          have divisor := ten_to_pos (places + 1)
          rw [value_negative]
          split
          · next low =>
              refine ⟨0, nearest_zero ?_, rfl⟩
              have small := small_of_log2 low
              have first : magnitude 1 = 1 := magnitude_small (by decide)
              rw [← zero_add (rankValue 1), ← rank_value_zero, twice_unit_ratio_lt divisor,
                magnitude_zero, first, zero_add, one_mul]
              exact small
          · exact of_unit_ratio_rounds negative _ divisor

end Decimal

end ScriptSandbox
