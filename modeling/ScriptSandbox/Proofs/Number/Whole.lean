import Mathlib.Order.Monotone.Basic
import ScriptSandbox.Proofs.Number.Counting

/-!
Whole numbers among the numbers. Cutting a number to its whole part is exact at every size, and so
is all arithmetic of whole numbers that stays below 2^53.
-/

namespace ScriptSandbox.Number

theorem two_to_lt_iff {first second : Nat} : twoTo first < twoTo second ↔ first < second :=
  Nat.pow_lt_pow_iff_right (by decide)

theorem two_to_dvd {first second : Nat} (less : first ≤ second) : twoTo first ∣ twoTo second :=
  Nat.pow_dvd_pow 2 less

theorem units_pos : 0 < unitsPerOne :=
  two_to_pos 1074

theorem magnitude_small {rank : Nat} (small : rank < 2 * binadeSize) : magnitude rank = rank := by
  by_cases first : rank < binadeSize
  · exact if_pos first
  · have shifted := @magnitude_shifted rank 0 (Nat.le_of_not_lt first) small
    rwa [Nat.zero_mul, Nat.zero_add, show twoTo 0 = 1 from rfl, Nat.mul_one] at shifted

theorem rank_shifted {rank : Nat} (large : binadeSize ≤ rank) :
    ∃ whole shift, binadeSize ≤ whole ∧ whole < 2 * binadeSize ∧
      rank = shift * binadeSize + whole := by
  have base : 0 < binadeSize := two_to_pos 52
  have rest := Nat.mod_lt rank base
  have parts := Nat.div_add_mod rank binadeSize
  have exponent : 0 < rank / binadeSize := Nat.div_pos large base
  refine ⟨binadeSize + rank % binadeSize, rank / binadeSize - 1, by omega, by omega, ?_⟩
  have filled : binadeSize * 1 ≤ binadeSize * (rank / binadeSize) := Nat.mul_le_mul_left _ exponent
  rw [Nat.sub_mul, Nat.one_mul, Nat.mul_comm]
  omega

/-- Each exponent has its grid of magnitudes. It goes on to the first rank of the next exponent, and
the least one starts at zero. -/
theorem magnitude_grid {whole shift : Nat} (low : shift = 0 ∨ binadeSize ≤ whole)
    (high : whole ≤ 2 * binadeSize) :
    magnitude (shift * binadeSize + whole) = whole * twoTo shift := by
  have base : 0 < binadeSize := two_to_pos 52
  rcases Nat.lt_or_eq_of_le high with inside | last
  · rcases low with rfl | large
    · rw [Nat.zero_mul, Nat.zero_add, magnitude_small inside, show twoTo 0 = 1 from rfl, Nat.mul_one]
    · exact magnitude_shifted large inside
  · have carried : shift * binadeSize + whole = (shift + 1) * binadeSize + binadeSize := by
      rw [Nat.add_mul]
      omega
    have doubled : twoTo (shift + 1) = 2 * twoTo shift := by
      rw [two_to_add, Nat.mul_comm]
      rfl
    rw [carried, magnitude_shifted (Nat.le_refl _) (by omega), last, doubled, Nat.mul_left_comm,
      Nat.mul_assoc]

theorem magnitude_lt_succ (rank : Nat) : magnitude rank < magnitude (rank + 1) := by
  have base : 0 < binadeSize := two_to_pos 52
  by_cases small : rank < binadeSize
  · rw [magnitude_small (by omega), magnitude_small (by omega)]
    omega
  · obtain ⟨whole, shift, low, high, rfl⟩ := rank_shifted (Nat.le_of_not_lt small)
    have next : magnitude (shift * binadeSize + whole + 1) = (whole + 1) * twoTo shift := by
      rw [Nat.add_assoc]
      exact magnitude_grid (.inr (Nat.le_succ_of_le low)) (Nat.succ_le_of_lt high)
    rw [next, magnitude_shifted low high]
    exact Nat.mul_lt_mul_of_pos_right (Nat.lt_succ_self whole) (two_to_pos shift)

theorem magnitude_strict : StrictMono magnitude :=
  strictMono_nat_of_lt_succ magnitude_lt_succ

theorem of_unit_ratio_magnitude (negative : Bool) (rank : Fin rankCount) :
    ofUnitRatio negative (magnitude rank) 1 = .finite negative rank := by
  rw [ofUnitRatio, nearest_rank_magnitude, ofRank, dif_pos rank.isLt]

/-- A magnitude of 2^53 and more has no fraction. -/
theorem units_dvd_magnitude {rank : Nat} (large : twoTo 53 ≤ magnitude rank / unitsPerOne) :
    unitsPerOne ∣ magnitude rank := by
  have reached : twoTo 53 * unitsPerOne ≤ magnitude rank := (Nat.le_div_iff_mul_le units_pos).mp large
  have beyond : 2 * binadeSize ≤ rank := by
    by_contra small
    have same := magnitude_small (Nat.lt_of_not_le small)
    have least : twoTo 53 * 1 ≤ twoTo 53 * unitsPerOne := Nat.mul_le_mul_left _ units_pos
    have size : twoTo 53 = 2 * binadeSize := by decide
    omega
  obtain ⟨whole, shift, low, high, rfl⟩ := rank_shifted (show binadeSize ≤ rank by omega)
  rw [magnitude_shifted low high] at reached ⊢
  -- The significand stays below 2^53, so the shift alone exceeds the unit.
  have wide : twoTo 53 * unitsPerOne < twoTo 53 * twoTo shift := by
    calc twoTo 53 * unitsPerOne ≤ whole * twoTo shift := reached
      _ < 2 * binadeSize * twoTo shift := Nat.mul_lt_mul_of_pos_right high (two_to_pos shift)
      _ = twoTo 53 * twoTo shift := by rw [show 2 * binadeSize = twoTo 53 by decide]
  have less : unitsPerOne < twoTo shift := Nat.lt_of_mul_lt_mul_left wide
  rw [unitsPerOne] at less ⊢
  exact Nat.dvd_mul_left_of_dvd (two_to_dvd (two_to_lt_iff.mp less).le) whole

/-- Whole numbers are held exactly up to 2^53 itself. -/
theorem of_nat_counted {value : Nat} (fits : value ≤ twoTo 53) :
    ∃ rank : Fin rankCount, ofNat value = .finite false rank ∧
      magnitude rank = value * unitsPerOne := by
  by_cases small : value < twoTo 53
  · exact of_nat_exact small
  · have greatest : value = twoTo 53 := by omega
    have base : 0 < binadeSize := two_to_pos 52
    have finite : 1075 * binadeSize + binadeSize < rankCount := by
      rw [rankCount]
      omega
    have units : twoTo 53 * unitsPerOne = binadeSize * twoTo 1075 := by
      rw [unitsPerOne, binadeSize, ← two_to_add, ← two_to_add]
    have high : binadeSize < 2 * binadeSize := by omega
    refine ⟨⟨1075 * binadeSize + binadeSize, finite⟩, ?_, ?_⟩
    · rw [greatest, ofNat, units, ofUnitRatio, nearest_rank_shifted (Nat.le_refl _) high, ofRank,
        dif_pos finite]
    · rw [greatest, units]
      exact magnitude_shifted (Nat.le_refl _) high

/-- The number is whole, with the given sign and size. -/
def Measures (number : Number) (negative : Bool) (size : Nat) : Prop :=
  ∃ rank : Fin rankCount, number = .finite negative rank ∧ magnitude rank = size * unitsPerOne

theorem of_nat_measures {value : Nat} (small : value < twoTo 53) :
    Measures (ofNat value) false value :=
  of_nat_exact small

theorem of_unit_ratio_counted (negative : Bool) {value : Nat} (fits : value ≤ twoTo 53) :
    Measures (ofUnitRatio negative (value * unitsPerOne) 1) negative value := by
  obtain ⟨rank, -, units⟩ := of_nat_counted fits
  refine ⟨rank, ?_, units⟩
  rw [← units, of_unit_ratio_magnitude]

theorem of_unit_ratio_measures (negative : Bool) {value : Nat} (small : value < twoTo 53) :
    Measures (ofUnitRatio negative (value * unitsPerOne) 1) negative value :=
  of_unit_ratio_counted negative small.le

theorem zero_measures (negative : Bool) : Measures (.finite negative zeroRank) negative 0 :=
  ⟨zeroRank, rfl, by rw [Nat.zero_mul]; exact magnitude_zero⟩

/-- Cutting a number to its whole part is exact. -/
theorem truncate_measures (negative : Bool) (rank : Fin rankCount) :
    Measures (truncate (.finite negative rank)) negative (magnitude rank / unitsPerOne) := by
  by_cases small : magnitude rank / unitsPerOne < twoTo 53
  · exact of_unit_ratio_measures negative small
  · have units : magnitude rank / unitsPerOne * unitsPerOne = magnitude rank :=
      Nat.div_mul_cancel (units_dvd_magnitude (Nat.le_of_not_lt small))
    refine ⟨rank, ?_, units.symm⟩
    rw [truncate, units, of_unit_ratio_magnitude]

theorem less_finite {left right : Bool} {first second : Fin rankCount} :
    less (.finite left first) (.finite right second) = true ↔
      (if left then -(first.val : Int) else first.val) <
        (if right then -(second.val : Int) else second.val) := by
  rw [less, beq_iff_eq]
  exact Option.some_inj.trans compare_lt_iff_lt

theorem at_most_finite {first second : Fin rankCount} :
    atMost (.finite false first) (.finite false second) = true ↔ first.val ≤ second.val := by
  have same : compare? (.finite false first) (.finite false second) = some .eq ↔
      (first.val : Int) = second.val :=
    Option.some_inj.trans compare_eq_iff_eq
  rw [atMost, Bool.or_eq_true, less_finite, equals, beq_iff_eq, same]
  simp only [Bool.false_eq_true, if_false]
  omega

theorem at_most_zero {negative : Bool} {rank : Fin rankCount} :
    atMost (.finite negative rank) .zero = true ↔ negative = true ∨ rank.val = 0 := by
  rw [atMost, Bool.or_eq_true, zero, less_finite, equals, beq_iff_eq]
  have same : compare? (.finite negative rank) (.finite false zeroRank) = some .eq ↔
      (if negative then -(rank.val : Int) else rank.val) = 0 :=
    Option.some_inj.trans compare_eq_iff_eq
  rw [same]
  cases negative with
  | false => simp [zeroRank]
  | true =>
      have below : -(rank.val : Int) < 0 ∨ -(rank.val : Int) = 0 := by omega
      exact iff_of_true below (.inl rfl)

namespace Measures

variable {number other : Number} {negative : Bool} {size bound : Nat}

theorem less_zero (measures : Measures number negative size) :
    number.less .zero = true ↔ negative = true ∧ size ≠ 0 := by
  obtain ⟨rank, rfl, units⟩ := measures
  have none : rank.val = 0 ↔ size = 0 := by
    constructor
    · intro first
      rw [first, magnitude_zero] at units
      exact (Nat.mul_eq_zero.mp units.symm).resolve_right units_pos.ne'
    · intro nothing
      rw [nothing, Nat.zero_mul] at units
      exact eq_zero_of_magnitude units
  rw [zero, less_finite, Ne, ← none]
  cases negative with
  | false => simp [zeroRank]
  | true => simp [zeroRank, Nat.pos_iff_ne_zero]

theorem less_iff (measures : Measures number false size) (others : Measures other false bound) :
    number.less other = true ↔ size < bound := by
  obtain ⟨first, rfl, units⟩ := measures
  obtain ⟨second, rfl, otherUnits⟩ := others
  calc less (.finite false first) (.finite false second) = true
      ↔ first.val < second.val := less_finite.trans Int.ofNat_lt
    _ ↔ magnitude first < magnitude second := magnitude_strict.lt_iff_lt.symm
    _ ↔ size < bound := by rw [units, otherUnits, Nat.mul_lt_mul_right units_pos]

theorem to_count (measures : Measures number false size) (small : size < twoTo 53) :
    number.toCount = size := by
  obtain ⟨rank, rfl, units⟩ := measures
  have counted : twoTo 53 ≤ greatestCount := by decide
  have cut : toCount (.finite false rank) = min (magnitude rank / unitsPerOne) greatestCount := rfl
  rw [cut, units, Nat.mul_div_cancel _ units_pos]
  omega

theorem not_nan (measures : Measures number negative size) : number.isNaN = false := by
  obtain ⟨rank, rfl, -⟩ := measures
  rfl

/-- The lesser of a number from zero on and a count, as a count. -/
theorem lesser_count (measures : Measures number negative size)
    (unsigned : negative = true → size = 0) (others : Measures other false bound)
    (small : bound < twoTo 53) : (number.lesser other).toCount = min size bound := by
  rw [lesser, measures.not_nan, Bool.false_or]
  cases negative with
  | true =>
      obtain ⟨first, rfl, -⟩ := measures
      obtain ⟨second, rfl, -⟩ := others
      have above : ¬less (.finite false second) (.finite true first) = true := by
        rw [less_finite]
        simp only [if_true, Bool.false_eq_true, if_false]
        omega
      rw [if_neg above, unsigned rfl, Nat.zero_min]
      rfl
  | false =>
      by_cases more : bound < size
      · rw [if_pos ((others.less_iff measures).mpr more), others.to_count small]
        omega
      · rw [if_neg (mt (others.less_iff measures).mp more), measures.to_count (by omega)]
        omega

end Measures

theorem to_count_of_rank (rank : Nat) : (ofRank true rank).toCount = 0 := by
  rw [ofRank]
  split <;> rfl

theorem greater_zero_count {number : Number} (below : number.toCount = 0) :
    (number.greater .zero).toCount = 0 := by
  have none : zero.toCount = 0 := (zero_measures false).to_count (two_to_pos 53)
  rw [greater]
  split
  · exact none
  · exact below

namespace Measures

variable {number other : Number} {size bound : Nat}

/-- A count counted back from another one, but not below zero. -/
theorem add_count (measures : Measures number false size) (others : Measures other true bound)
    (small : size < twoTo 53) : ((number + other).greater .zero).toCount = size - bound := by
  obtain ⟨first, rfl, units⟩ := measures
  obtain ⟨second, rfl, otherUnits⟩ := others
  have sum : Number.finite false first + .finite true second =
    add (.finite false first) (.finite true second) := rfl
  have total : signedUnits false first + signedUnits true second =
      ((size * unitsPerOne : Nat) : Int) - ((bound * unitsPerOne : Nat) : Int) := by
    rw [← units, ← otherUnits]
    rfl
  rw [sum, add, total]
  rcases Nat.lt_trichotomy size bound with less | same | more
  · have fewer : size * unitsPerOne < bound * unitsPerOne := Nat.mul_lt_mul_of_pos_right less units_pos
    have below : ((size * unitsPerOne : Nat) : Int) - ((bound * unitsPerOne : Nat) : Int) < 0 := by omega
    rw [if_neg (by omega), decide_eq_true below, Nat.sub_eq_zero_of_le less.le]
    exact greater_zero_count (to_count_of_rank _)
  · rw [same, Int.sub_self, if_pos rfl, Nat.sub_self]
    exact greater_zero_count ((zero_measures false).to_count (two_to_pos 53))
  · have fewer : bound * unitsPerOne < size * unitsPerOne := Nat.mul_lt_mul_of_pos_right more units_pos
    have gap : ((size * unitsPerOne : Nat) : Int) - ((bound * unitsPerOne : Nat) : Int) =
        (((size - bound) * unitsPerOne : Nat) : Int) := by
      rw [Nat.sub_mul]
      omega
    have rest := of_unit_ratio_measures false (show size - bound < twoTo 53 by omega)
    rw [if_neg (by omega), decide_eq_false (by omega), gap, Int.natAbs_natCast, greater, rest.not_nan,
      Bool.false_or, if_neg (mt rest.less_zero.mp (by simp)), rest.to_count (by omega)]

theorem lesser_infinite (measures : Measures number false size) (small : size < twoTo 53) :
    ((Number.infinite false).lesser number).toCount = size := by
  have counted := measures.to_count small
  obtain ⟨rank, rfl, -⟩ := measures
  have below : less (.finite false rank) (.infinite false) = true := by
    have placed : compare? (.finite false rank) (.infinite false) = some .lt :=
      congrArg some (compare_lt_iff_lt.mpr (Int.ofNat_lt.mpr rank.isLt))
    rw [less, placed]
    rfl
  have taken : (Number.infinite false).lesser (.finite false rank) = .finite false rank := by
    rw [lesser, below, Bool.or_true]
    exact if_pos rfl
  rw [taken]
  exact counted

end Measures

end ScriptSandbox.Number
