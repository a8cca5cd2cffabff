import Mathlib.Data.Rat.Floor
import ScriptSandbox.Control
import ScriptSandbox.Proofs.Number.Decimals

/-!
Rounding to a whole number. A number is compared by its gap to the whole number below it. The gap
may be rounded itself, but never across one half: below one half it is a magnitude on its own, or it
lies on the grid that ends at one half.
-/

namespace ScriptSandbox

namespace Number

/-- The exact value of a finite number. -/
def value : Number → ℚ
  | .finite negative rank => signedUnits negative rank / unitsPerOne
  | _ => 0

/-- The number is finite, and its value is this whole number. -/
def Holds (number : Number) (whole : Int) : Prop :=
  ∃ negative rank, number = .finite negative rank ∧
    signedUnits negative rank = whole * unitsPerOne

theorem units_int_pos : (0 : Int) < unitsPerOne :=
  Int.natCast_pos.mpr units_pos

theorem Holds.value_eq {number : Number} {whole : Int} (holds : Holds number whole) :
    number.value = whole := by
  obtain ⟨negative, rank, rfl, units⟩ := holds
  rw [value, units, Int.cast_mul, Int.cast_natCast, mul_div_cancel_right₀ _ units_rat_pos.ne']

theorem Holds.whole_part {number : Number} {whole : Int} (holds : Holds number whole) :
    number.wholePart = whole := by
  obtain ⟨negative, rank, rfl, units⟩ := holds
  rw [wholePart, Int.natCast_ediv]
  have exact := Int.mul_ediv_cancel whole units_int_pos.ne'
  cases negative with
  | false =>
      rw [← exact, ← units]
      rfl
  | true =>
      have size : (magnitude rank : Int) = -whole * unitsPerOne := by
        rw [Int.neg_mul, ← units]
        exact (Int.neg_neg _).symm
      rw [size, Int.mul_ediv_cancel _ units_int_pos.ne']
      exact Int.neg_neg whole

theorem signed_units_false (rank : Nat) : signedUnits false rank = magnitude rank := rfl

theorem signed_units_true (rank : Nat) : signedUnits true rank = -(magnitude rank : Int) := rfl

theorem signed_units_whole (negative : Bool) {rank size : Nat}
    (units : magnitude rank = size * unitsPerOne) :
    signedUnits negative rank = (if negative then -(size : Int) else size) * unitsPerOne := by
  cases negative with
  | false => rw [signed_units_false, units, Nat.cast_mul, if_neg Bool.false_ne_true]
  | true => rw [signed_units_true, units, Nat.cast_mul, if_pos rfl, Int.neg_mul]

theorem Measures.holds {number : Number} {negative : Bool} {size : Nat}
    (measures : Measures number negative size) :
    Holds number (if negative then -(size : Int) else size) := by
  obtain ⟨rank, rfl, units⟩ := measures
  exact ⟨negative, rank, rfl, signed_units_whole negative units⟩

theorem signed_units_not (negative : Bool) (rank : Nat) :
    signedUnits (!negative) rank = -signedUnits negative rank := by
  cases negative with
  | false => rfl
  | true => exact (Int.neg_neg _).symm

theorem signed_units_abs (negative : Bool) (rank : Nat) :
    (signedUnits negative rank).natAbs = magnitude rank := by
  cases negative with
  | false => exact Int.natAbs_natCast _
  | true => exact (Int.natAbs_neg _).trans (Int.natAbs_natCast _)

/-- Counting up by one is exact up to 2^53, also from below zero. -/
theorem Holds.add_one {number : Number} {whole : Int} (holds : Holds number whole)
    (fits : (whole + 1).natAbs ≤ twoTo 53) : Holds (number + one) (whole + 1) := by
  obtain ⟨negative, rank, rfl, units⟩ := holds
  obtain ⟨unit, shownOne, unitsOne⟩ := of_nat_exact (show 1 < twoTo 53 by decide)
  have total : signedUnits negative rank + signedUnits false unit = (whole + 1) * unitsPerOne := by
    rw [units, signedUnits, if_neg Bool.false_ne_true, unitsOne, Nat.one_mul, Int.add_mul,
      Int.one_mul]
  have sum : Number.finite negative rank + one = add (.finite negative rank) (.finite false unit) :=
    congrArg (add _) shownOne
  rw [sum, add, total]
  by_cases none : whole + 1 = 0
  · rw [none, Int.zero_mul, if_pos rfl, Bool.and_false]
    exact (zero_measures false).holds
  · rw [if_neg (mul_ne_zero none units_int_pos.ne'), Int.natAbs_mul, Int.natAbs_natCast]
    have counted := (of_unit_ratio_counted (decide ((whole + 1) * unitsPerOne < 0)) fits).holds
    have sign : (whole + 1) * unitsPerOne < 0 ↔ whole + 1 < 0 :=
      ⟨fun below => neg_of_mul_neg_left below units_int_pos.le,
        fun below => Int.mul_neg_of_neg_of_pos below units_int_pos⟩
    have same : (if decide ((whole + 1) * unitsPerOne < 0) = true then
        -((whole + 1).natAbs : Int) else (whole + 1).natAbs) = whole + 1 := by
      simp only [decide_eq_true_iff, sign]
      split <;> omega
    rwa [same] at counted

/-- A number split at the greatest whole number not above it. -/
structure Floored (negative : Bool) (rank place : Fin rankCount) (whole : Int) (gap : Nat) :
    Prop where
  floor : floor (.finite negative rank) = .finite negative place
  placed : signedUnits negative place = whole * unitsPerOne
  split : signedUnits negative rank = whole * unitsPerOne + gap
  short : gap < unitsPerOne
  fits : gap ≠ 0 → (whole + 1).natAbs ≤ twoTo 53

theorem floored (negative : Bool) (rank : Fin rankCount) :
    ∃ place whole gap, Floored negative rank place whole gap := by
  have parts := Nat.div_add_mod' (magnitude rank) unitsPerOne
  have rest := Nat.mod_lt (magnitude rank) units_pos
  have few (some : magnitude rank % unitsPerOne ≠ 0) : magnitude rank / unitsPerOne < twoTo 53 := by
    by_contra large
    exact some (Nat.mod_eq_zero_of_dvd (units_dvd_magnitude (Nat.le_of_not_lt large)))
  have cut : floor (.finite negative rank) =
      if magnitude rank % unitsPerOne == 0 then .finite negative rank
      else if negative then ofUnitRatio true ((magnitude rank / unitsPerOne + 1) * unitsPerOne) 1
      else ofUnitRatio false (magnitude rank / unitsPerOne * unitsPerOne) 1 := rfl
  generalize magnitude rank / unitsPerOne = size at parts few cut
  generalize magnitude rank % unitsPerOne = left at parts rest few cut
  by_cases none : left = 0
  · have units : magnitude rank = size * unitsPerOne := by omega
    refine ⟨rank, _, 0, ?_, signed_units_whole negative units, ?_, units_pos, absurd rfl⟩
    · rw [cut, none]
      rfl
    · rw [signed_units_whole negative units, Int.natCast_zero, Int.add_zero]
  · have fraction : ¬(left == 0) = true := mt eq_of_beq none
    rw [if_neg fraction] at cut
    cases negative with
    | false =>
        rw [if_neg Bool.false_ne_true] at cut
        obtain ⟨place, found, units⟩ := of_unit_ratio_counted false (few none).le
        refine ⟨place, size, left, cut.trans found, ?_, ?_, rest, ?_⟩
        · rw [signed_units_false, units, Nat.cast_mul]
        · rw [signed_units_false, ← parts, Nat.cast_add, Nat.cast_mul]
        · have small := few none
          omega
    | true =>
        rw [if_pos rfl] at cut
        obtain ⟨place, found, units⟩ := of_unit_ratio_counted true (Nat.succ_le_of_lt (few none))
        refine ⟨place, -(size + 1 : Nat), unitsPerOne - left, cut.trans found, ?_, ?_, by omega, ?_⟩
        · rw [signed_units_true, units, Nat.cast_mul, Int.neg_mul]
        · rw [signed_units_true, ← parts, Nat.cast_sub rest.le]
          push_cast
          ring
        · have small := few none
          omega

theorem unit_halves : unitsPerOne = 2 * twoTo 1073 := by
  decide +kernel

/-- The rank of one half. -/
def halfRank : Nat := 1022 * binadeSize

theorem half_rank_magnitude : magnitude halfRank = twoTo 1073 := by
  have base : 0 < binadeSize := two_to_pos 52
  have split : halfRank = 1021 * binadeSize + binadeSize := by
    rw [halfRank]
    omega
  rw [split, magnitude_shifted (Nat.le_refl _) (by omega), binadeSize, ← two_to_add]

/-- From one half on, every magnitude lies on the grid that ends at one half. -/
theorem grid_from_half {rank : Nat} (large : twoTo 1073 ≤ magnitude rank) :
    twoTo 1020 ∣ magnitude rank := by
  rw [← half_rank_magnitude, magnitude_strict.le_iff_le, halfRank] at large
  have base : 0 < binadeSize := two_to_pos 52
  obtain ⟨size, shift, low, high, rfl⟩ := rank_shifted (show binadeSize ≤ rank by omega)
  have far : 1020 ≤ shift := by
    by_contra near
    have below := Nat.mul_le_mul_right binadeSize (show shift ≤ 1019 by omega)
    omega
  rw [magnitude_shifted low high]
  exact Nat.dvd_mul_left_of_dvd (two_to_dvd far) size

theorem nearest_rank_ge {rank units : Nat} (reached : magnitude rank ≤ units) :
    rank ≤ nearestRank units 1 := by
  apply (nearest_rank_is_nearest units Nat.one_pos).le_of_value_le
  rw [rankValue, unitRatio, Nat.cast_one, div_one, div_le_div_iff_of_pos_right units_rat_pos]
  exact Nat.cast_le.mpr reached

theorem nearest_rank_le {rank units : Nat} (bounded : units ≤ magnitude rank) :
    nearestRank units 1 ≤ rank := by
  apply (nearest_rank_is_nearest units Nat.one_pos).ge_of_le_value
  rw [rankValue, unitRatio, Nat.cast_one, div_one, div_le_div_iff_of_pos_right units_rat_pos]
  exact Nat.cast_le.mpr bounded

/-- On the grid that ends at one half, what lies below one half is not rounded up to it. -/
theorem nearest_rank_lt_half {units : Nat} (grid : twoTo 1020 ∣ units) (low : units < twoTo 1073) :
    nearestRank units 1 < halfRank := by
  have base : 0 < binadeSize := two_to_pos 52
  have gridEnd : twoTo 1073 = twoTo 1020 * (2 * binadeSize) := by decide +kernel
  obtain ⟨steps, same⟩ := grid
  rw [same] at low ⊢
  have few : steps < 2 * binadeSize := by
    by_contra many
    have beyond := Nat.mul_le_mul_left (twoTo 1020) (Nat.le_of_not_lt many)
    rw [← gridEnd] at beyond
    exact absurd low (Nat.not_lt_of_le beyond)
  have last : halfRank = 1020 * binadeSize + (2 * binadeSize - 1) + 1 := by
    rw [halfRank]
    omega
  rw [last, Nat.lt_succ_iff]
  apply nearest_rank_le
  rw [magnitude_shifted (by omega) (by omega), Nat.mul_comm]
  exact Nat.mul_le_mul_right _ (Nat.le_sub_one_of_lt few)

theorem half_rank_lt : halfRank < rankCount := by
  decide

theorem half_eq : half = .finite false ⟨halfRank, half_rank_lt⟩ := by
  decide +kernel

namespace Floored

variable {negative : Bool} {rank place : Fin rankCount} {whole : Int} {gap : Nat}
  (floored : Floored negative rank place whole gap)
include floored

theorem gap_cases (low : 2 * gap < unitsPerOne) : gap = magnitude rank ∨ twoTo 1020 ∣ gap := by
  have split := floored.split
  by_cases large : twoTo 1073 ≤ magnitude rank
  · right
    have number : ((twoTo 1020 : Nat) : Int) ∣ signedUnits negative rank := by
      rw [Int.natCast_dvd, signed_units_abs]
      exact grid_from_half large
    have unit : ((twoTo 1020 : Nat) : Int) ∣ unitsPerOne :=
      Int.natCast_dvd_natCast.mpr (two_to_dvd (by decide))
    rw [split, dvd_add_right (Dvd.dvd.mul_left unit whole)] at number
    exact Int.natCast_dvd_natCast.mp number
  · left
    have halves := unit_halves
    have size := signed_units_abs negative rank
    have near : (signedUnits negative rank - gap).natAbs < unitsPerOne := by omega
    have none : whole * unitsPerOne = 0 := by
      apply Int.eq_zero_of_abs_lt_dvd (Int.dvd_mul_left whole unitsPerOne)
      rw [Int.abs_eq_natAbs]
      omega
    omega

/-- The difference that rounding looks at is the gap, rounded. -/
theorem sub_floor : .finite negative rank - .finite negative place = ofUnitRatio false gap 1 := by
  have total : signedUnits negative rank + signedUnits (!negative) place = gap := by
    rw [signed_units_not, floored.placed, floored.split]
    omega
  have difference : Number.finite negative rank - .finite negative place =
    add (.finite negative rank) (.finite (!negative) place) := rfl
  rw [difference, add, total]
  by_cases none : gap = 0
  · have exact := of_unit_ratio_magnitude false zeroRank
    rw [zeroRank, magnitude_zero] at exact
    rw [none, Int.natCast_zero, if_pos rfl, Bool.and_not_self, exact, zeroRank]
  · rw [if_neg (by omega), Int.natAbs_natCast, decide_eq_false (by omega)]

theorem half_at_most_iff : atMost half (ofUnitRatio false gap 1) = true ↔ unitsPerOne ≤ 2 * gap := by
  have base : 0 < binadeSize := two_to_pos 52
  have unit : magnitude (1023 * binadeSize) = unitsPerOne := by
    have split : 1023 * binadeSize = 1022 * binadeSize + binadeSize := by omega
    rw [split, magnitude_shifted (Nat.le_refl _) (by omega), binadeSize, ← two_to_add, unitsPerOne]
  have bounded : nearestRank gap 1 ≤ 1023 * binadeSize := by
    apply nearest_rank_le
    rw [unit]
    exact floored.short.le
  have finite : nearestRank gap 1 < rankCount := by
    rw [rankCount]
    omega
  have halves := unit_halves
  rw [ofUnitRatio, ofRank, dif_pos finite, half_eq, at_most_finite]
  change halfRank ≤ nearestRank gap 1 ↔ unitsPerOne ≤ 2 * gap
  constructor
  · intro reached
    by_contra low
    rcases floored.gap_cases (by omega) with same | grid
    · rw [same, nearest_rank_magnitude, ← magnitude_strict.le_iff_le, half_rank_magnitude] at reached
      omega
    · have before := nearest_rank_lt_half grid (by omega)
      exact absurd reached (Nat.not_le_of_lt before)
  · intro reached
    apply nearest_rank_ge
    rw [half_rank_magnitude]
    omega

/-- Rounding counts up from the whole number below when the gap is at least one half. -/
theorem round_holds :
    Holds (round (.finite negative rank)) (if unitsPerOne ≤ 2 * gap then whole + 1 else whole) := by
  have below : Holds (.finite negative place) whole := ⟨negative, place, rfl, floored.placed⟩
  rw [round, floored.floor, floored.sub_floor]
  simp only [floored.half_at_most_iff]
  split
  · next reached =>
      have positive := units_pos
      exact below.add_one (floored.fits (by omega))
  · exact below

theorem floor_add_half :
    ⌊value (.finite negative rank) + 1 / 2⌋ = if unitsPerOne ≤ 2 * gap then whole + 1 else whole := by
  have positive := units_rat_pos
  have exact : value (.finite negative rank) = whole + gap / unitsPerOne := by
    rw [value, floored.split, Int.cast_add, Int.cast_mul, Int.cast_natCast, Int.cast_natCast,
      add_div, mul_div_cancel_right₀ _ positive.ne']
  have short : (gap : ℚ) / unitsPerOne < 1 := by
    rw [div_lt_one positive]
    exact_mod_cast floored.short
  rw [exact, Int.floor_eq_iff]
  split
  · next reached =>
      have least : (1 : ℚ) / 2 ≤ gap / unitsPerOne := by
        have doubled : (unitsPerOne : ℚ) ≤ 2 * gap := by exact_mod_cast reached
        rw [le_div_iff₀ positive]
        linarith
      push_cast
      constructor <;> linarith
  · next missed =>
      have least : (0 : ℚ) ≤ gap / unitsPerOne := div_nonneg (Nat.cast_nonneg gap) positive.le
      have most : (gap : ℚ) / unitsPerOne < 1 / 2 := by
        have doubled : 2 * (gap : ℚ) < unitsPerOne := by exact_mod_cast Nat.lt_of_not_le missed
        rw [div_lt_iff₀ positive]
        linarith
      constructor <;> linarith

end Floored

/-- A finite number is rounded to the whole number that its exact value gives. -/
theorem round_finite (negative : Bool) (rank : Fin rankCount) :
    Holds (round (.finite negative rank)) ⌊value (.finite negative rank) + 1 / 2⌋ := by
  obtain ⟨place, whole, gap, split⟩ := floored negative rank
  rw [split.floor_add_half]
  exact split.round_holds

end Number

namespace Control

open Number

/-- The exit code for a number, by its exact value. -/
def exactCode : Number → Int
  | .nan => 0
  | .infinite negative => if negative then -2 ^ 31 else 2 ^ 31 - 1
  | .finite negative rank =>
      max (-2 ^ 31) (min (2 ^ 31 - 1) ⌊value (.finite negative rank) + 1 / 2⌋)

theorem code_of_round (number : Number) : codeOf number.round = exactCode number := by
  cases number with
  | nan => rfl
  | infinite negative => rfl
  | finite negative rank =>
      have exact := round_finite negative rank
      rw [exactCode, ← exact.whole_part]
      obtain ⟨sign, place, shown, -⟩ := exact
      rw [shown]
      rfl

/-- A number is rounded to the whole number nearest to its exact value, a half going up, and what is
not finite stays. So the exit code is that whole number for the number the payload starts with. -/
theorem exit_code_exact :
    (∀ negative rank, ∃ sign place, (finite negative rank).round = .finite sign place ∧
      value (.finite sign place) = ⌊value (.finite negative rank) + 1 / 2⌋) ∧
    (∀ number : Number, number.isFinite = false → number.round = number) ∧
    ∀ control : Control, control.exitCode =
      match control.payload with
      | none => 0
      | some payload => exactCode (ofTextStart payload) := by
  refine ⟨?_, ?_, ?_⟩
  · intro negative rank
    have exact := round_finite negative rank
    have held := exact.value_eq
    obtain ⟨sign, place, shown, -⟩ := exact
    rw [shown] at held
    exact ⟨sign, place, shown, held⟩
  · intro number outside
    cases number with
    | nan => rfl
    | infinite negative => rfl
    | finite negative rank => cases outside
  · intro control
    rw [exitCode]
    cases control.payload with
    | none => rfl
    | some payload => exact code_of_round (ofTextStart payload)

example : (Control.start 0 |>.halt "-2.5 and more").exitCode = -2 := by
  decide +kernel

end Control

end ScriptSandbox
