import Mathlib.Data.Nat.Digits.Defs
import ScriptSandbox.Number.Literal
import ScriptSandbox.Proofs.Number.Nearest

/-!
Numbers written with a radix. Their digits are gathered from left to right, with a rounding after
each of them. Together the roundings come to a single one, but of a value in which all digits behind
the one that takes it to 2^53 or more count as zeros. So the number nearest to the digits is missed
exactly when that value lies halfway above an even number and what was left out is not zero.
-/

namespace ScriptSandbox.Number

open ScriptSandbox.Text

/-- Doubling goes on to the same place of a later exponent. -/
theorem magnitude_doubled {rank : Nat} (normal : binadeSize ≤ rank) (times : Nat) :
    magnitude (rank + times * binadeSize) = magnitude rank * twoTo times := by
  obtain ⟨whole, shift, low, high, rfl⟩ := rank_shifted normal
  have later : shift * binadeSize + whole + times * binadeSize =
      (shift + times) * binadeSize + whole := by
    ring
  rw [later, magnitude_shifted low high, magnitude_shifted low high, two_to_add, Nat.mul_assoc]

theorem rank_value_doubled {rank : Nat} (normal : binadeSize ≤ rank) (times : Nat) :
    rankValue (rank + times * binadeSize) = rankValue rank * twoTo times := by
  rw [rankValue, rankValue, magnitude_doubled normal, Nat.cast_mul, mul_div_right_comm]

theorem IsNearest.doubled {value : ℚ} {rank : Nat} (nearest : IsNearest value rank)
    (normal : binadeSize < rank) (times : Nat) :
    IsNearest (value * twoTo times) (rank + times * binadeSize) := by
  have positive : (0 : ℚ) < twoTo times := Nat.cast_pos.mpr (two_to_pos times)
  have parity : (rank + times * binadeSize) % 2 = rank % 2 := by
    rw [Nat.add_comm]
    exact even_grid times rank
  have scaled (low high : ℚ) :
      low * twoTo times + high * twoTo times = (low + high) * twoTo times :=
    (add_mul _ _ _).symm
  rw [is_nearest_iff] at nearest ⊢
  constructor
  · rw [parity, Nat.add_right_comm, rank_value_doubled normal.le,
      rank_value_doubled (Nat.le_succ_of_le normal.le), scaled, ← mul_assoc,
      mul_lt_mul_iff_left₀ positive, mul_left_inj' positive.ne']
    exact nearest.above
  · intro previous before
    have last : previous = rank - 1 + times * binadeSize := by omega
    rw [parity, last, rank_value_doubled (Nat.le_sub_one_of_lt normal),
      rank_value_doubled normal.le, scaled, ← mul_assoc, mul_lt_mul_iff_left₀ positive,
      mul_left_inj' positive.ne']
    exact nearest.below _ (by omega)

theorem nearest_rank_doubled {numerator denominator : Nat} (divisor : 0 < denominator)
    (normal : binadeSize < nearestRank numerator denominator) (times : Nat) :
    nearestRank (numerator * twoTo times) denominator =
      nearestRank numerator denominator + times * binadeSize := by
  have found := nearest_rank_is_nearest (numerator * twoTo times) divisor
  have doubled := (nearest_rank_is_nearest numerator divisor).doubled normal times
  have same : unitRatio (numerator * twoTo times) denominator =
      unitRatio numerator denominator * twoTo times := by
    rw [unitRatio, unitRatio, Nat.cast_mul, mul_div_right_comm, mul_div_right_comm]
  rw [same] at found
  exact found.unique doubled

/-- Less than half the way to the next magnitude is rounded away. -/
theorem nearest_rank_within {rank extra : Nat}
    (short : magnitude rank + 2 * extra < magnitude (rank + 1)) :
    nearestRank (magnitude rank + extra) 1 = rank := by
  have found := nearest_rank_is_nearest (magnitude rank + extra) Nat.one_pos
  apply found.unique
  rw [is_nearest_iff]
  constructor
  · rw [twice_unit_ratio_lt Nat.one_pos]
    exact .inl (by omega)
  · rintro previous rfl
    rw [twice_unit_ratio_gt Nat.one_pos]
    have step := magnitude_lt_succ previous
    exact .inl (by omega)

theorem of_nat_of_rank (value : Nat) :
    ofNat value = ofRank false (nearestRank (value * unitsPerOne) 1) :=
  rfl

section

variable {rank bits digit : Nat} (few : bits < 53)

include few in
/-- A number times a power of two is the number of the later exponent. -/
theorem of_rank_mul_two_to (normal : binadeSize ≤ rank) :
    ofRank false rank * ofNat (twoTo bits) = ofRank false (rank + bits * binadeSize) := by
  obtain ⟨factor, shown, units⟩ := of_nat_exact (two_to_lt_iff.mpr few)
  have some : factor.val ≠ 0 := by
    intro none
    rw [none, magnitude_zero] at units
    exact (Nat.mul_pos (two_to_pos bits) units_pos).ne units
  have product : ofRank false rank * finite false factor =
      mul (ofRank false rank) (finite false factor) :=
    rfl
  rw [shown, product, ofRank]
  split
  · next bounded =>
      have scaled := nearest_rank_scaled (magnitude rank * twoTo bits) Nat.one_pos units_pos
      rw [Nat.one_mul, Nat.mul_assoc, ← units, ← magnitude_doubled normal, nearest_rank_magnitude]
        at scaled
      rw [mul, bne_self_eq_false, ofUnitRatio, scaled]
  · next beyond =>
      have later : ¬rank + bits * binadeSize < rankCount := by omega
      rw [mul, ofRank, dif_neg later, if_neg (by simpa using some), bne_self_eq_false]

theorem of_rank_add_of_nat (bounded : rank < rankCount) (small : digit < twoTo 53) :
    ofRank false rank + ofNat digit =
      ofUnitRatio false (magnitude rank + digit * unitsPerOne) 1 := by
  obtain ⟨term, shown, units⟩ := of_nat_exact small
  have total : signedUnits false rank + signedUnits false term.val =
      ((magnitude rank + digit * unitsPerOne : Nat) : Int) := by
    rw [← units, Int.natCast_add]
    rfl
  have sum : ofRank false rank + finite false term = add (ofRank false rank) (finite false term) :=
    rfl
  rw [shown, sum, ofRank, dif_pos bounded, add, total]
  split
  · next none =>
      have zeros : magnitude rank + digit * unitsPerOne = magnitude 0 := by
        rw [magnitude_zero]
        exact_mod_cast none
      rw [zeros, ofUnitRatio, nearest_rank_magnitude]
      rfl
  · rw [Int.natAbs_natCast, decide_eq_false (by omega)]

end

theorem of_rank_zero : ofRank false 0 = zero :=
  dif_pos rank_count_pos

theorem zero_mul_of_nat {value : Nat} (small : value < twoTo 53) : zero * ofNat value = zero := by
  obtain ⟨factor, shown, -⟩ := of_nat_exact small
  have product : zero * finite false factor = mul (finite false zeroRank) (finite false factor) :=
    rfl
  have none := nearest_rank_scaled 0 Nat.one_pos units_pos
  rw [Nat.zero_mul, Nat.one_mul] at none
  have first : magnitude zeroRank.val = 0 := magnitude_zero
  have least := nearest_rank_magnitude 0
  rw [magnitude_zero] at least
  rw [shown, product, mul, first, Nat.zero_mul, bne_self_eq_false, ofUnitRatio, none, least,
    of_rank_zero]

/-- The rank of 2^53, the first number behind which whole numbers are left out. -/
def sparseRank : Nat := 1076 * binadeSize

theorem magnitude_sparse : magnitude sparseRank = twoTo 53 * unitsPerOne := by
  have base : 0 < binadeSize := two_to_pos 52
  have split : sparseRank = 1075 * binadeSize + binadeSize := by
    rw [sparseRank]
    omega
  rw [split, magnitude_shifted (Nat.le_refl _) (by omega), binadeSize, unitsPerOne, ← two_to_add,
    ← two_to_add]

/-- A rank from there on lies on a grid whose gap is at least two. -/
theorem sparse_grid {rank : Nat} (sparse : sparseRank ≤ rank) :
    ∃ whole shift, binadeSize ≤ whole ∧ whole < 2 * binadeSize ∧
      rank = (shift + 1075) * binadeSize + whole := by
  have base : 0 < binadeSize := two_to_pos 52
  rw [sparseRank] at sparse
  obtain ⟨whole, exponent, low, high, rfl⟩ := rank_shifted (show binadeSize ≤ rank by omega)
  have wide : 1075 ≤ exponent := by
    by_contra narrow
    have fewer := Nat.mul_le_mul_right binadeSize (Nat.le_of_lt_succ (Nat.lt_of_not_le narrow))
    omega
  exact ⟨whole, exponent - 1075, low, high, by rw [Nat.sub_add_cancel wide]⟩

theorem sparse_of_large {value rank : Nat} (nearest : IsNearest value rank)
    (large : twoTo 53 ≤ value) : sparseRank ≤ rank := by
  apply nearest.le_of_value_le
  rw [rankValue, magnitude_sparse, Nat.cast_mul, mul_div_cancel_right₀ _ units_rat_pos.ne']
  exact Nat.cast_le.mpr large

section

variable {value digit bits : Nat} (few : bits < 53) (least : digit < twoTo bits)
include few least

/-- Below 2^53 a digit is taken in. -/
theorem of_nat_gather_exact (small : value < twoTo 53) :
    ofNat value * ofNat (twoTo bits) + ofNat digit = ofNat (value * twoTo bits + digit) := by
  have fits : digit < twoTo 53 := Nat.lt_trans least (two_to_lt_iff.mpr few)
  have held : ∃ rank < rankCount, magnitude rank = value * twoTo bits * unitsPerOne ∧
      ofNat value * ofNat (twoTo bits) = ofRank false rank := by
    by_cases none : value = 0
    · refine ⟨0, rank_count_pos, ?_, ?_⟩
      · rw [none, Nat.zero_mul, Nat.zero_mul, magnitude_zero]
      · rw [none, of_nat_zero, zero_mul_of_nat (two_to_lt_iff.mpr few), of_rank_zero]
    · obtain ⟨whole, shift, low, high, bounded, same⟩ := units_shifted none small
      have exact : ofNat value = ofRank false (shift * binadeSize + whole) := by
        rw [of_nat_of_rank, same, nearest_rank_shifted low high]
      refine ⟨shift * binadeSize + whole + bits * binadeSize, ?_, ?_, ?_⟩
      · have early := Nat.mul_le_mul_right binadeSize (Nat.le_of_lt_succ bounded)
        have later := Nat.mul_le_mul_right binadeSize few.le
        rw [rankCount]
        omega
      · rw [magnitude_doubled (by omega), magnitude_shifted low high, ← same, Nat.mul_right_comm]
      · rw [exact, of_rank_mul_two_to few (by omega)]
  obtain ⟨rank, bounded, units, product⟩ := held
  rw [product, of_rank_add_of_nat bounded fits, units, ← Nat.add_mul]
  rfl

/-- From 2^53 on a digit is rounded away. -/
theorem of_nat_gather_rounded (large : twoTo 53 ≤ value) :
    ofNat value * ofNat (twoTo bits) + ofNat digit = ofNat (value * twoTo bits) := by
  have fits : digit < twoTo 53 := Nat.lt_trans least (two_to_lt_iff.mpr few)
  have nearest := nearest_rank_is_nearest (value * unitsPerOne) Nat.one_pos
  rw [unit_ratio_units] at nearest
  have sparse := sparse_of_large nearest large
  obtain ⟨whole, shift, low, high, grid⟩ := sparse_grid sparse
  have normal : binadeSize < nearestRank (value * unitsPerOne) 1 := by
    have base : 0 < binadeSize := two_to_pos 52
    rw [sparseRank] at sparse
    omega
  rw [of_nat_of_rank (value * twoTo bits), Nat.mul_right_comm,
    nearest_rank_doubled Nat.one_pos normal, of_nat_of_rank value, of_rank_mul_two_to few normal.le]
  generalize nearestRank (value * unitsPerOne) 1 = rank at grid
  have later : rank + bits * binadeSize = (shift + 1075 + bits) * binadeSize + whole := by
    rw [grid]
    ring
  by_cases bounded : rank + bits * binadeSize < rankCount
  · have short : magnitude (rank + bits * binadeSize) + 2 * (digit * unitsPerOne) <
        magnitude (rank + bits * binadeSize + 1) := by
      have next := magnitude_next (.inr low : shift + 1075 + bits = 0 ∨ binadeSize ≤ whole) high.le
      have half : 2 * (digit * unitsPerOne) < twoTo (shift + 1075 + bits) := by
        calc 2 * (digit * unitsPerOne) < 2 * (twoTo bits * unitsPerOne) :=
              Nat.mul_lt_mul_of_pos_left (Nat.mul_lt_mul_of_pos_right least units_pos) Nat.two_pos
          _ = twoTo (1075 + bits) := by
              rw [unitsPerOne, two_to_add, show twoTo 1075 = 2 * twoTo 1074 by decide +kernel]
              ring
          _ ≤ twoTo (shift + 1075 + bits) := Nat.pow_le_pow_right Nat.two_pos (by omega)
      rw [Nat.succ_mul] at next
      rw [later, magnitude_shifted low high]
      omega
    rw [of_rank_add_of_nat bounded fits, ofUnitRatio, nearest_rank_within short]
  · obtain ⟨term, shown, -⟩ := of_nat_exact fits
    rw [ofRank, dif_neg bounded, shown]
    rfl

end

/-- What the value of digits becomes with one more of them. -/
def gatherStep (radix value digit : Nat) : Nat :=
  if value < twoTo 53 then value * radix + digit else value * radix

/-- The value of digits, those that come once it has reached 2^53 counted as zeros. -/
def gatheredValue (radix : Nat) (digits : List Nat) : Nat :=
  digits.foldl (gatherStep radix) 0

/-- The values of the digits among characters. -/
def digitValues (radix : Nat) (digits : List Char) : List Nat :=
  digits.filterMap (digitValue? radix)

theorem digit_value_lt {radix digit : Nat} {c : Char} (read : digitValue? radix c = some digit) :
    digit < radix := by
  unfold digitValue? at read
  obtain ⟨-, less⟩ := Option.filter_eq_some_iff.mp read
  simpa using less

section

variable {bits : Nat} {digits : List Char}

theorem gather_radix_eq (few : bits < 53)
    (valid : ∀ c ∈ digits, (digitValue? (twoTo bits) c).isSome) (value : Nat) :
    gatherRadix (twoTo bits) (ofNat value) digits =
      ofNat ((digitValues (twoTo bits) digits).foldl (gatherStep (twoTo bits)) value) := by
  induction digits generalizing value with
  | nil => rfl
  | cons c rest ih =>
      obtain ⟨digit, read⟩ := Option.isSome_iff_exists.mp (valid c List.mem_cons_self)
      have least := digit_value_lt read
      have step : ofNat value * ofNat (twoTo bits) + ofNat digit =
          ofNat (gatherStep (twoTo bits) value digit) := by
        unfold gatherStep
        split
        · next small => exact of_nat_gather_exact few least small
        · next large => exact of_nat_gather_rounded few least (Nat.le_of_not_lt large)
      rw [digitValues, List.filterMap_cons_some read, List.foldl_cons, ← digitValues,
        ← ih fun other member => valid other (List.mem_cons_of_mem c member), ← step]
      simp only [gatherRadix, read]

theorem gather_radix_invalid {radix : Nat} {c : Char} (member : c ∈ digits)
    (invalid : digitValue? radix c = none) (number : Number) :
    gatherRadix radix number digits = .nan := by
  induction digits generalizing number with
  | nil => cases member
  | cons first rest ih =>
      rw [gatherRadix]
      split
      · next read =>
          rcases List.mem_cons.mp member with rfl | later
          · rw [invalid] at read
            cases read
          · exact ih later _
      · rfl

end

/-- The first value is the second with something left out, behind a value from 2^53 on and less
than one of its last places. -/
def LeftOut (gathered exact : Nat) : Prop :=
  ∃ kept places, twoTo 53 ≤ kept ∧ gathered = kept * twoTo places ∧ gathered < exact ∧
    exact < (kept + 1) * twoTo places

theorem gather_step_left_out {gathered exact bits digit : Nat}
    (before : gathered = exact ∨ LeftOut gathered exact) (least : digit < twoTo bits) :
    gatherStep (twoTo bits) gathered digit = exact * twoTo bits + digit ∨
      LeftOut (gatherStep (twoTo bits) gathered digit) (exact * twoTo bits + digit) := by
  have positive := two_to_pos bits
  rcases before with rfl | ⟨kept, places, large, rfl, less, below⟩
  · rw [gatherStep]
    split
    · exact .inl rfl
    · next large =>
        by_cases none : digit = 0
        · exact .inl (by rw [none, Nat.add_zero])
        · refine .inr ⟨gathered, bits, Nat.le_of_not_lt large, rfl, by omega, ?_⟩
          rw [Nat.succ_mul]
          omega
  · have reached : ¬kept * twoTo places < twoTo 53 := by
      have grown := Nat.le_mul_of_pos_right kept (two_to_pos places)
      omega
    rw [gatherStep, if_neg reached]
    refine .inr ⟨kept, places + bits, large, by rw [two_to_add, Nat.mul_assoc], ?_, ?_⟩
    · have grown := Nat.mul_lt_mul_of_pos_right less positive
      omega
    · calc exact * twoTo bits + digit < (exact + 1) * twoTo bits := by
            rw [Nat.succ_mul]
            omega
        _ ≤ (kept + 1) * twoTo places * twoTo bits := Nat.mul_le_mul_right _ below
        _ = (kept + 1) * twoTo (places + bits) := by rw [two_to_add, Nat.mul_assoc]

theorem gathered_value_cases {bits : Nat} {digits : List Nat}
    (least : ∀ digit ∈ digits, digit < twoTo bits) :
    gatheredValue (twoTo bits) digits = Nat.ofDigits (twoTo bits) digits.reverse ∨
      LeftOut (gatheredValue (twoTo bits) digits) (Nat.ofDigits (twoTo bits) digits.reverse) := by
  induction digits using List.reverseRecOn with
  | nil => exact .inl rfl
  | append_singleton digits digit ih =>
      have before := ih fun other member => least other (List.mem_append_left _ member)
      have last := least digit (List.mem_append_right _ List.mem_cons_self)
      have step := gather_step_left_out before last
      rw [gatheredValue, List.foldl_concat, List.reverse_concat, Nat.ofDigits_cons, Nat.add_comm,
        Nat.mul_comm]
      exact step

section

variable {whole : Nat} (low : binadeSize ≤ whole)
include low

/-- From 2^53 on the values of a grid are whole. -/
theorem rank_value_sparse (high : whole ≤ 2 * binadeSize) (shift : Nat) :
    rankValue ((shift + 1075) * binadeSize + whole) = (whole * twoTo (shift + 1) : Nat) := by
  have units : whole * twoTo (shift + 1075) = whole * twoTo (shift + 1) * unitsPerOne := by
    rw [unitsPerOne, Nat.mul_assoc, ← two_to_add]
  rw [rankValue, magnitude_grid (.inr low) high, units, Nat.cast_mul,
    mul_div_cancel_right₀ _ units_rat_pos.ne']

theorem rank_value_sparse_next (high : whole < 2 * binadeSize) (shift : Nat) :
    rankValue ((shift + 1075) * binadeSize + whole + 1) =
      rankValue ((shift + 1075) * binadeSize + whole) + (twoTo (shift + 1) : Nat) := by
  rw [Nat.add_assoc, rank_value_sparse (Nat.le_add_right_of_le low) high,
    rank_value_sparse low high.le, ← Nat.cast_add, Nat.succ_mul]

/-- The middle between two values of a grid is a multiple of every finer power of two. -/
theorem sparse_middle (high : whole < 2 * binadeSize) {places shift : Nat}
    (finer : places ≤ shift) :
    rankValue ((shift + 1075) * binadeSize + whole) +
        rankValue ((shift + 1075) * binadeSize + whole + 1) =
      (2 * ((2 * whole + 1) * twoTo (shift - places) * twoTo places) : Nat) := by
  have split : twoTo (shift + 1) = 2 * (twoTo (shift - places) * twoTo places) := by
    rw [← two_to_add, Nat.sub_add_cancel finer, two_to_add, Nat.mul_comm]
    rfl
  rw [rank_value_sparse_next low high, rank_value_sparse low high.le, ← Nat.cast_add,
    ← Nat.cast_add, split]
  congr 1
  ring

end

theorem sparse_of_kept {kept places rank : Nat} (large : twoTo 53 ≤ kept)
    (nearest : IsNearest (kept * twoTo places : Nat) rank) :
    sparseRank + places * binadeSize ≤ rank := by
  have base : 0 < binadeSize := two_to_pos 52
  apply nearest.le_of_value_le
  rw [rank_value_doubled (by rw [sparseRank]; omega), rankValue, magnitude_sparse, Nat.cast_mul,
    mul_div_cancel_right₀ _ units_rat_pos.ne']
  exact_mod_cast Nat.mul_le_mul_right (twoTo places) large

section

variable {value larger : ℚ} {rank : Nat} (grown : value < larger)
include grown

/-- A value may grow up to the middle without coming nearer to another rank. -/
theorem IsNearest.grow (nearest : IsNearest value rank)
    (short : 2 * larger < rankValue rank + rankValue (rank + 1)) : IsNearest larger rank := by
  rw [is_nearest_iff] at nearest ⊢
  refine ⟨.inl short, fun previous before => .inl ?_⟩
  rcases nearest.below previous before with above | ⟨same, -⟩
  · linarith
  · linarith

/-- Behind the middle the next rank is nearest. -/
theorem nearest_behind_middle (middle : 2 * value = rankValue rank + rankValue (rank + 1))
    (short : larger ≤ rankValue (rank + 1)) : IsNearest larger (rank + 1) := by
  have later := rank_value_strict (Nat.lt_succ_self (rank + 1))
  rw [is_nearest_iff]
  refine ⟨.inl (by linarith), fun previous before => .inl ?_⟩
  cases before
  linarith

end

/-- What is left out does not matter to the nearest number, unless the rest lies in the middle
between two numbers: then it decides for the upper one. -/
theorem LeftOut.nearest {gathered exact rank : Nat} (left : LeftOut gathered exact)
    (nearest : IsNearest gathered rank) :
    (2 * (gathered : ℚ) ≠ rankValue rank + rankValue (rank + 1) → IsNearest exact rank) ∧
    (2 * (gathered : ℚ) = rankValue rank + rankValue (rank + 1) → IsNearest exact (rank + 1)) := by
  obtain ⟨kept, places, large, rfl, less, below⟩ := left
  have reached := sparse_of_kept large nearest
  obtain ⟨whole, shift, low, high, rfl⟩ := sparse_grid (Nat.le_trans (Nat.le_add_right _ _) reached)
  have finer : places ≤ shift := by
    by_contra coarser
    have more := Nat.mul_le_mul_right binadeSize (Nat.succ_le_of_lt (Nat.lt_of_not_le coarser))
    rw [sparseRank] at reached
    rw [Nat.succ_mul] at more
    rw [Nat.add_mul] at reached
    omega
  have middle := sparse_middle low high finer
  have gap := rank_value_sparse_next low high shift
  have grown : ((kept * twoTo places : Nat) : ℚ) < exact := Nat.cast_lt.mpr less
  generalize (shift + 1075) * binadeSize + whole = rank at nearest middle gap
  constructor
  · intro beside
    -- Under the middle there is room for all of the last place kept.
    have under := (is_nearest_iff.mp nearest).above.resolve_right fun even => beside even.1
    have room : kept + 1 ≤ (2 * whole + 1) * twoTo (shift - places) := by
      rw [middle] at under
      have scaled : kept * twoTo places < (2 * whole + 1) * twoTo (shift - places) * twoTo places :=
        Nat.lt_of_mul_lt_mul_left (a := 2) (by exact_mod_cast under)
      exact Nat.lt_of_mul_lt_mul_right scaled
    have inside := Nat.lt_of_lt_of_le below (Nat.mul_le_mul_right (twoTo places) room)
    apply nearest.grow grown
    rw [middle]
    exact_mod_cast Nat.mul_lt_mul_of_pos_left inside Nat.two_pos
  · intro half
    have small : ((2 * twoTo places : Nat) : ℚ) ≤ (twoTo (shift + 1) : Nat) := by
      rw [Nat.cast_le, two_to_add, Nat.mul_comm]
      exact Nat.mul_le_mul_right 2 (Nat.pow_le_pow_right Nat.two_pos finer)
    have short : (exact : ℚ) < (kept * twoTo places : Nat) + (twoTo places : Nat) := by
      rw [← Nat.cast_add, Nat.cast_lt, ← Nat.succ_mul]
      exact below
    rw [Nat.cast_mul, Nat.cast_ofNat] at small
    exact nearest_behind_middle grown half (by linarith)

/-- The value lies halfway between a finite number of even rank and the next one, so it rounds
down. -/
def HalfwayFromEven (value : ℚ) : Prop :=
  ∃ rank < rankCount, rank % 2 = 0 ∧ 2 * value = rankValue rank + rankValue (rank + 1)

theorem of_rank_ne_next (negative : Bool) {rank : Nat} (bounded : rank < rankCount) :
    ofRank negative rank ≠ ofRank negative (rank + 1) := by
  rw [ofRank, ofRank, dif_pos bounded]
  split <;> simp

theorem LeftOut.rounds_iff {gathered exact : Nat} (left : LeftOut gathered exact) :
    Rounds false exact (ofNat gathered) ↔ ¬HalfwayFromEven gathered := by
  obtain ⟨rank, nearest, shown⟩ := of_nat_rounds gathered
  obtain ⟨beside, half⟩ := left.nearest nearest
  rw [shown]
  constructor
  · rintro ⟨other, otherNearest, same⟩ ⟨low, bounded, even, middle⟩
    have down : IsNearest gathered low := by
      rw [is_nearest_iff]
      refine ⟨.inr ⟨middle, even⟩, ?_⟩
      intro previous before
      have step := rank_value_strict (show previous < low + 1 by omega)
      exact .inl (by linarith)
    cases down.unique nearest
    cases otherNearest.unique (half middle)
    exact of_rank_ne_next false bounded same
  · intro elsewhere
    by_cases middle : 2 * (gathered : ℚ) = rankValue rank + rankValue (rank + 1)
    · have even : rank % 2 = 0 := by
        rcases (is_nearest_iff.mp nearest).above with under | ⟨-, even⟩
        · exact absurd middle under.ne
        · exact even
      have beyond : ¬rank < rankCount := fun bounded => elsewhere ⟨rank, bounded, even, middle⟩
      refine ⟨rank + 1, half middle, ?_⟩
      rw [ofRank, ofRank, dif_neg beyond, dif_neg (by omega)]
    · exact ⟨rank, beside middle, rfl⟩

/-- The letters that announce a radix behind a zero. -/
def radixMarks : List (Char × Nat) :=
  [('x', 16), ('X', 16), ('o', 8), ('O', 8), ('b', 2), ('B', 2)]

theorem take_radix_iff {text digits : List Char} {radix : Nat} :
    takeRadix? text = some (radix, digits) ↔
      ∃ mark, (mark, radix) ∈ radixMarks ∧ text = '0' :: mark :: digits := by
  constructor
  · intro taken
    unfold takeRadix? at taken
    split at taken
    · next mark rest =>
        refine ⟨mark, ?_⟩
        split at taken
        · next hex => rcases hex with rfl | rfl <;> cases taken <;> exact ⟨by decide, rfl⟩
        · split at taken
          · next octal => rcases octal with rfl | rfl <;> cases taken <;> exact ⟨by decide, rfl⟩
          · split at taken
            · next binary => rcases binary with rfl | rfl <;> cases taken <;> exact ⟨by decide, rfl⟩
            · cases taken
    · cases taken
  · rintro ⟨mark, announced, rfl⟩
    simp only [radixMarks, List.mem_cons, Prod.mk.injEq, List.not_mem_nil, or_false] at announced
    rcases announced with ⟨rfl, rfl⟩ | ⟨rfl, rfl⟩ | ⟨rfl, rfl⟩ | ⟨rfl, rfl⟩ | ⟨rfl, rfl⟩ |
      ⟨rfl, rfl⟩ <;>
    rfl

theorem radix_two_to {mark : Char} {radix : Nat} (announced : (mark, radix) ∈ radixMarks) :
    ∃ bits < 53, radix = twoTo bits := by
  simp only [radixMarks, List.mem_cons, Prod.mk.injEq, List.not_mem_nil, or_false] at announced
  rcases announced with ⟨-, rfl⟩ | ⟨-, rfl⟩ | ⟨-, rfl⟩ | ⟨-, rfl⟩ | ⟨-, rfl⟩ | ⟨-, rfl⟩
  · exact ⟨4, by decide, rfl⟩
  · exact ⟨4, by decide, rfl⟩
  · exact ⟨3, by decide, rfl⟩
  · exact ⟨3, by decide, rfl⟩
  · exact ⟨1, by decide, rfl⟩
  · exact ⟨1, by decide, rfl⟩

theorem of_text_announced {text : String} {mark : Char} {radix : Nat} {digits : List Char}
    (announced : (mark, radix) ∈ radixMarks) (trimmed : trim text.toList = '0' :: mark :: digits) :
    ofText text = readRadix radix digits := by
  have finite : takeInfinity? ('0' :: mark :: digits) = none := rfl
  have taken : takeRadix? ('0' :: mark :: digits) = some (radix, digits) :=
    take_radix_iff.mpr ⟨mark, announced, rfl⟩
  rw [ofText, trimmed]
  simp only [List.isEmpty_cons, Bool.false_eq_true, if_false, finite, taken]

/-- At least one digit of the radix, and nothing else. -/
def AreDigits (radix : Nat) (digits : List Char) : Prop :=
  digits ≠ [] ∧ ∀ c ∈ digits, (digitValue? radix c).isSome

theorem read_radix_invalid {radix : Nat} {digits : List Char} (invalid : ¬AreDigits radix digits) :
    readRadix radix digits = .nan := by
  rw [readRadix]
  split
  · rfl
  · next some =>
      rw [AreDigits, not_and] at invalid
      have other := invalid (mt List.isEmpty_iff.mpr some)
      push Not at other
      obtain ⟨c, member, unread⟩ := other
      exact gather_radix_invalid member (Option.not_isSome_iff_eq_none.mp unread) zero

theorem read_radix_eq {bits : Nat} (few : bits < 53) {digits : List Char}
    (valid : AreDigits (twoTo bits) digits) :
    readRadix (twoTo bits) digits =
      ofNat (gatheredValue (twoTo bits) (digitValues (twoTo bits) digits)) := by
  rw [readRadix, if_neg (mt List.isEmpty_iff.mp valid.1), ← of_nat_zero,
    gather_radix_eq few valid.2]
  rfl

/-- A number with a radix is NaN without digits of that radix, and else the gathered value rounded
once. It is the exact value rounded, unless the gathered value stops halfway above an even number
and short of the exact one. -/
theorem of_text_radix {text : String} {mark : Char} {radix : Nat} {digits : List Char}
    (announced : (mark, radix) ∈ radixMarks) (trimmed : trim text.toList = '0' :: mark :: digits) :
    (¬AreDigits radix digits → ofText text = .nan) ∧
      (AreDigits radix digits →
        let gathered := gatheredValue radix (digitValues radix digits)
        let exact := Nat.ofDigits radix (digitValues radix digits).reverse
        Rounds false gathered (ofText text) ∧
          (Rounds false exact (ofText text) ↔ ¬(HalfwayFromEven gathered ∧ gathered ≠ exact))) := by
  obtain ⟨bits, few, rfl⟩ := radix_two_to announced
  rw [of_text_announced announced trimmed]
  refine ⟨read_radix_invalid, ?_⟩
  intro valid gathered exact
  have least : ∀ digit ∈ digitValues (twoTo bits) digits, digit < twoTo bits := by
    intro digit member
    obtain ⟨c, -, worth⟩ := List.mem_filterMap.mp member
    exact digit_value_lt worth
  have cases : gathered = exact ∨ LeftOut gathered exact := gathered_value_cases least
  rw [read_radix_eq few valid]
  refine ⟨of_nat_rounds gathered, ?_⟩
  rcases cases with same | left
  · rw [← same]
    exact iff_of_true (of_nat_rounds gathered) fun missed => missed.2 rfl
  · obtain ⟨-, -, -, -, less, -⟩ := id left
    rw [left.rounds_iff, and_iff_left less.ne]

theorem of_text_radix_binary :
    Rounds false (5 : Nat) (ofText " 0b101 ") ∧ ofText "0b12" = .nan := by
  have announced : ('b', 2) ∈ radixMarks := by decide
  constructor
  · have trimmed : trim " 0b101 ".toList = '0' :: 'b' :: ['1', '0', '1'] := by decide +kernel
    have digits : AreDigits 2 ['1', '0', '1'] := ⟨by decide, List.all_eq_true.mp (by decide)⟩
    exact ((of_text_radix announced trimmed).2 digits).2.mpr fun missed => missed.2 rfl
  · have trimmed : trim "0b12".toList = '0' :: 'b' :: ['1', '2'] := by decide +kernel
    have other : ¬AreDigits 2 ['1', '2'] := fun digits =>
      absurd (digits.2 '2' (by decide)) (by decide)
    exact (of_text_radix announced trimmed).1 other

/-- The last digit is rounded away, although it decides for the upper of two numbers. -/
theorem of_text_radix_missed :
    ofText "0x200000000000011" = ofNat (twoTo 57) ∧
      ¬Rounds false (Nat.ofDigits 16 (digitValues 16 "200000000000011".toList).reverse : Nat)
        (ofText "0x200000000000011") := by
  refine ⟨by decide +kernel, fun rounds => ?_⟩
  have nearest := of_nat_rounds (Nat.ofDigits 16 (digitValues 16 "200000000000011".toList).reverse)
  exact absurd (rounds.unique nearest) (by decide +kernel)

end ScriptSandbox.Number
