import Mathlib.Data.Nat.Log
import ScriptSandbox.Number.Arithmetic

/-!
Counting in numbers. Up to 2^53 every whole number is held exactly, so counting up from zero by one
goes through all of them.
-/

namespace ScriptSandbox.Number

theorem two_to_add (first second : Nat) : twoTo (first + second) = twoTo first * twoTo second :=
  Nat.pow_add 2 first second

theorem two_to_pos (exponent : Nat) : 0 < twoTo exponent :=
  Nat.pow_pos (by decide)

section

variable {whole shift : Nat} (low : binadeSize ≤ whole) (high : whole < 2 * binadeSize)
include low high

theorem log2_shifted : (whole * twoTo shift).log2 = 52 + shift := by
  have positive := two_to_pos shift
  have base := two_to_pos 52
  have some : whole * twoTo shift ≠ 0 := by
    have := Nat.mul_pos (Nat.lt_of_lt_of_le base low) positive
    omega
  rw [Nat.log2_eq_iff some]
  constructor
  · calc twoTo (52 + shift) = binadeSize * twoTo shift := two_to_add 52 shift
      _ ≤ whole * twoTo shift := Nat.mul_le_mul_right _ low
  · have doubled : twoTo (52 + shift + 1) = 2 * binadeSize * twoTo shift := by
      rw [Nat.add_right_comm, two_to_add, two_to_add, binadeSize, Nat.mul_comm 2]
      rfl
    calc whole * twoTo shift < 2 * binadeSize * twoTo shift :=
          Nat.mul_lt_mul_of_pos_right high positive
      _ = twoTo (52 + shift + 1) := doubled.symm

/-- A magnitude with one of the ranks of its exponent is found again. -/
theorem nearest_rank_shifted :
    nearestRank (whole * twoTo shift) 1 = shift * binadeSize + whole := by
  have positive := two_to_pos shift
  have exponent : (whole * twoTo shift / 1).log2 - 52 = shift := by
    rw [Nat.div_one, log2_shifted low high]
    omega
  rw [nearestRank, exponent, nearestWhole, Nat.one_mul, Nat.mul_mod_left,
    Nat.mul_div_cancel _ positive]
  simp only [Nat.mul_zero, positive, if_true]

theorem magnitude_shifted : magnitude (shift * binadeSize + whole) = whole * twoTo shift := by
  have base : 0 < binadeSize := two_to_pos 52
  have split : shift * binadeSize + whole = (whole - binadeSize) + binadeSize * (shift + 1) := by
    rw [Nat.mul_add, Nat.mul_comm shift]
    omega
  have less : whole - binadeSize < binadeSize := by omega
  have rest : (shift * binadeSize + whole) % binadeSize = whole - binadeSize := by
    rw [split, Nat.add_mul_mod_self_left, Nat.mod_eq_of_lt less]
  have exponent : (shift * binadeSize + whole) / binadeSize = shift + 1 := by
    rw [split, Nat.add_mul_div_left _ _ base, Nat.div_eq_of_lt less, Nat.zero_add]
  have large : ¬shift * binadeSize + whole < binadeSize := by omega
  rw [magnitude, if_neg large, rest, exponent, Nat.add_sub_cancel, Nat.add_sub_cancel' low]

end

/-- The rank nearest to a magnitude is the rank of that magnitude. -/
theorem nearest_rank_magnitude (rank : Nat) : nearestRank (magnitude rank) 1 = rank := by
  have base : 0 < binadeSize := two_to_pos 52
  by_cases small : rank < binadeSize
  · have exponent : rank.log2 - 52 = 0 := by
      by_cases none : rank = 0
      · rw [none]
        rfl
      · have less := (Nat.log2_lt none).mpr small
        omega
    rw [magnitude, if_pos small, nearestRank, Nat.div_one, exponent]
    simp [nearestWhole, twoTo, Nat.mod_one]
  · have rest := Nat.mod_lt rank base
    have parts := Nat.div_add_mod rank binadeSize
    have exponent : 0 < rank / binadeSize := Nat.div_pos (Nat.le_of_not_lt small) base
    rw [magnitude, if_neg small, nearest_rank_shifted (by omega) (by omega), Nat.sub_mul,
      Nat.one_mul, Nat.mul_comm]
    have filled : binadeSize * 1 ≤ binadeSize * (rank / binadeSize) := Nat.mul_le_mul_left _ exponent
    omega

theorem magnitude_zero : magnitude 0 = 0 :=
  if_pos (two_to_pos 52)

theorem eq_zero_of_magnitude {rank : Nat} (none : magnitude rank = 0) : rank = 0 := by
  have same := nearest_rank_magnitude rank
  rw [none, ← magnitude_zero, nearest_rank_magnitude] at same
  exact same.symm

/-- A whole number is found again from its whole part, but for the sign of zero. -/
theorem of_int_whole_part {negative : Bool} {rank : Fin rankCount}
    (whole : (finite negative rank).isWhole = true) :
    ofInt (finite negative rank).wholePart = if rank.val = 0 then zero else finite negative rank := by
  have units : magnitude rank / unitsPerOne * unitsPerOne = magnitude rank := by
    apply Nat.div_mul_cancel
    exact Nat.dvd_of_mod_eq_zero (by simpa [isWhole] using whole)
  have size : (finite negative rank).wholePart.natAbs = magnitude rank / unitsPerOne := by
    cases negative with
    | false => exact Int.natAbs_natCast _
    | true => exact (Int.natAbs_neg _).trans (Int.natAbs_natCast _)
  rw [ofInt, ofUnitRatio, size, units, nearest_rank_magnitude, ofRank, dif_pos rank.isLt]
  by_cases none : rank.val = 0
  · rw [none, magnitude_zero, Nat.zero_div, Int.natAbs_eq_zero] at size
    have first : rank = zeroRank := Fin.ext none
    rw [if_pos none, size, first]
    rfl
  · have some : magnitude rank / unitsPerOne ≠ 0 := by
      intro nothing
      rw [nothing, Nat.zero_mul] at units
      exact none (eq_zero_of_magnitude units.symm)
    have sign : decide ((finite negative rank).wholePart < 0) = negative := by
      rw [wholePart]
      generalize magnitude rank / unitsPerOne = count at some
      cases negative with
      | false => simp
      | true => simpa using Nat.pos_of_ne_zero some
    rw [if_neg none, sign]

/-- A positive whole number below 2^53 is a magnitude of its exponent. -/
theorem units_shifted {value : Nat} (positive : value ≠ 0) (small : value < twoTo 53) :
    ∃ whole shift, binadeSize ≤ whole ∧ whole < 2 * binadeSize ∧ shift < 1075 ∧
      value * unitsPerOne = whole * twoTo shift := by
  have exponent : value.log2 < 53 := (Nat.log2_lt positive).mpr small
  have bounds := (Nat.log2_eq_iff positive).mp (Eq.refl value.log2)
  have base : twoTo value.log2 * twoTo (52 - value.log2) = binadeSize := by
    have exponents : value.log2 + (52 - value.log2) = 52 := by omega
    rw [← two_to_add, exponents, binadeSize]
  refine ⟨value * twoTo (52 - value.log2), value.log2 + 1022, ?_, ?_, by omega, ?_⟩
  · rw [← base]
    exact Nat.mul_le_mul_right _ bounds.1
  · have doubled : 2 * binadeSize = twoTo (value.log2 + 1) * twoTo (52 - value.log2) := by
      rw [← base, two_to_add, Nat.mul_comm 2, Nat.mul_right_comm]
      rfl
    rw [doubled]
    exact Nat.mul_lt_mul_of_pos_right bounds.2 (two_to_pos _)
  · have exponents : 52 - value.log2 + (value.log2 + 1022) = 1074 := by omega
    rw [Nat.mul_assoc, ← two_to_add, exponents, unitsPerOne]

theorem of_nat_zero : ofNat 0 = zero := by
  rw [ofNat, Nat.zero_mul]
  rfl

/-- A whole number below 2^53 is held exactly. -/
theorem of_nat_exact {value : Nat} (small : value < twoTo 53) :
    ∃ rank, ofNat value = .finite false rank ∧ magnitude rank.val = value * unitsPerOne := by
  by_cases none : value = 0
  · refine ⟨zeroRank, ?_, ?_⟩
    · rw [none, of_nat_zero, zero]
    · rw [none, Nat.zero_mul]
      rfl
  · rcases units_shifted none small with ⟨whole, shift, low, high, bounded, same⟩
    have rank : nearestRank (whole * twoTo shift) 1 = shift * binadeSize + whole :=
      nearest_rank_shifted low high
    have finite : shift * binadeSize + whole < rankCount := by
      have few := Nat.mul_le_mul_right binadeSize (Nat.le_of_lt_succ bounded)
      rw [rankCount]
      omega
    refine ⟨⟨shift * binadeSize + whole, finite⟩, ?_, ?_⟩
    · rw [ofNat, ofUnitRatio, same, rank, ofRank, dif_pos finite]
    · rw [same, magnitude_shifted low high]

/-- Counting up by one reaches the next whole number. -/
theorem of_nat_add_one {value : Nat} (small : value < twoTo 53) :
    ofNat value + one = ofNat (value + 1) := by
  rcases of_nat_exact small with ⟨rank, shown, units⟩
  have single : 1 < twoTo 53 := by decide
  rcases of_nat_exact single with ⟨unit, shownOne, unitsOne⟩
  have units_of (rank : Nat) : signedUnits false rank = magnitude rank := rfl
  have total : signedUnits false rank.val + signedUnits false unit.val =
      ((value + 1) * unitsPerOne : Nat) := by
    rw [units_of, units_of, units, unitsOne, ← Int.natCast_add, ← Nat.add_mul]
  have positive : 0 < (value + 1) * unitsPerOne := Nat.mul_pos (Nat.succ_pos value) (two_to_pos 1074)
  have nonzero : ((value + 1) * unitsPerOne : Nat) ≠ (0 : Int) := by omega
  have counted : ¬(((value + 1) * unitsPerOne : Nat) : Int) < 0 := by omega
  show add (ofNat value) (ofNat 1) = ofNat (value + 1)
  rw [shown, shownOne, add, total, if_neg nonzero, Int.natAbs_natCast, decide_eq_false counted, ofNat]

end ScriptSandbox.Number
