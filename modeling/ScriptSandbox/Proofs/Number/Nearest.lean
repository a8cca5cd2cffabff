import Mathlib.Algebra.Order.Field.Rat
import Mathlib.Tactic.FieldSimp
import Mathlib.Tactic.Linarith
import Mathlib.Tactic.Positivity
import Mathlib.Tactic.Ring
import ScriptSandbox.Proofs.Number.Whole

/-!
The number nearest to a value. It is found on a grid of units; here it is described by distances
alone: no rank lies closer to the value, and of two equally close ones it is the even one. Ranks
past the last finite one take part as if the exponents went on, and stand for infinity.
-/

namespace ScriptSandbox.Number

def rankValue (rank : Nat) : ℚ :=
  magnitude rank / unitsPerOne

/-- Every other rank is farther from the value, or as far while this one is even. -/
def IsNearest (value : ℚ) (rank : Nat) : Prop :=
  ∀ other, other ≠ rank → |value - rankValue rank| < |value - rankValue other| ∨
    |value - rankValue rank| = |value - rankValue other| ∧ rank % 2 = 0

/-- The number is what a value without a sign rounds to, given the sign. -/
def Rounds (negative : Bool) (value : ℚ) (number : Number) : Prop :=
  ∃ rank, IsNearest value rank ∧ number = ofRank negative rank

section

variable {value low high : ℚ} (less : low < high)
include less

theorem distance_lt_iff : |value - low| < |value - high| ↔ 2 * value < low + high := by
  rw [← sq_lt_sq, ← sub_pos]
  have split : (value - high) ^ 2 - (value - low) ^ 2 =
      (high - low) * (low + high - 2 * value) := by
    ring
  rw [split, mul_pos_iff_of_pos_left (sub_pos.mpr less), sub_pos]

theorem distance_gt_iff : |value - high| < |value - low| ↔ low + high < 2 * value := by
  rw [← sq_lt_sq, ← sub_pos]
  have split : (value - low) ^ 2 - (value - high) ^ 2 =
      (high - low) * (2 * value - (low + high)) := by
    ring
  rw [split, mul_pos_iff_of_pos_left (sub_pos.mpr less), sub_pos]

theorem distance_eq_iff : |value - low| = |value - high| ↔ 2 * value = low + high := by
  rw [← sq_eq_sq_iff_abs_eq_abs, ← sub_eq_zero]
  have split : (value - low) ^ 2 - (value - high) ^ 2 =
      (high - low) * (2 * value - (low + high)) := by
    ring
  rw [split, mul_eq_zero, sub_eq_zero, sub_eq_zero, or_iff_right less.ne']

end

theorem units_rat_pos : (0 : ℚ) < unitsPerOne :=
  Nat.cast_pos.mpr units_pos

theorem rank_value_strict : StrictMono rankValue := by
  intro low high less
  apply div_lt_div_of_pos_right _ units_rat_pos
  exact Nat.cast_lt.mpr (magnitude_strict less)

/-- A value lies between the middles to both sides of a rank, on one of them only when the rank is
even. -/
structure Around (value : ℚ) (rank : Nat) : Prop where
  above : 2 * value < rankValue rank + rankValue (rank + 1) ∨
    2 * value = rankValue rank + rankValue (rank + 1) ∧ rank % 2 = 0
  below : ∀ previous, previous + 1 = rank → rankValue previous + rankValue rank < 2 * value ∨
    2 * value = rankValue previous + rankValue rank ∧ rank % 2 = 0

/-- Of all other ranks, those next to a rank decide whether it is nearest. -/
theorem is_nearest_iff {value : ℚ} {rank : Nat} : IsNearest value rank ↔ Around value rank := by
  constructor
  · intro nearest
    constructor
    · have next := nearest (rank + 1) (Nat.succ_ne_self rank)
      have step := rank_value_strict (Nat.lt_succ_self rank)
      rwa [distance_lt_iff step, distance_eq_iff step] at next
    · rintro previous rfl
      have last := nearest previous (Nat.succ_ne_self previous).symm
      have step := rank_value_strict (Nat.lt_succ_self previous)
      rwa [distance_gt_iff step, eq_comm, distance_eq_iff step] at last
  · intro around other different
    rcases Nat.lt_or_gt_of_ne different with before | behind
    · obtain ⟨previous, rfl⟩ := Nat.exists_eq_succ_of_ne_zero (Nat.ne_zero_of_lt before)
      have step := rank_value_strict before
      have least := rank_value_strict.monotone (Nat.le_of_lt_succ before)
      rw [distance_gt_iff step, eq_comm, distance_eq_iff step]
      rcases around.below previous rfl with inside | ⟨middle, even⟩
      · exact .inl (by linarith)
      · rcases least.lt_or_eq with farther | same
        · exact .inl (by linarith)
        · exact .inr ⟨by linarith, even⟩
    · have step := rank_value_strict behind
      have least := rank_value_strict.monotone (Nat.succ_le_of_lt behind)
      rw [distance_lt_iff step, distance_eq_iff step]
      rcases around.above with inside | ⟨middle, even⟩
      · exact .inl (by linarith)
      · rcases least.lt_or_eq with farther | same
        · exact .inl (by linarith)
        · exact .inr ⟨by linarith, even⟩

/-- The nearest rank does not come before one whose value is not exceeded. -/
theorem IsNearest.le_of_value_le {value : ℚ} {rank low : Nat} (nearest : IsNearest value rank)
    (reached : rankValue low ≤ value) : low ≤ rank := by
  by_contra before
  have less := rank_value_strict (Nat.lt_of_not_le before)
  rcases nearest low (Nat.ne_of_gt (Nat.lt_of_not_le before)) with closer | ⟨same, -⟩
  · rw [distance_lt_iff less] at closer
    linarith
  · rw [distance_eq_iff less] at same
    linarith

/-- The nearest rank does not come after one whose value is not fallen short of. -/
theorem IsNearest.ge_of_le_value {value : ℚ} {rank high : Nat} (nearest : IsNearest value rank)
    (bounded : value ≤ rankValue high) : rank ≤ high := by
  by_contra behind
  have less := rank_value_strict (Nat.lt_of_not_le behind)
  rcases nearest high (Nat.ne_of_lt (Nat.lt_of_not_le behind)) with closer | ⟨same, -⟩
  · rw [distance_gt_iff less] at closer
    linarith
  · rw [eq_comm, distance_eq_iff less] at same
    linarith

theorem IsNearest.unique {value : ℚ} {rank other : Nat} (nearest : IsNearest value rank)
    (otherNearest : IsNearest value other) : rank = other := by
  by_contra different
  wlog before : rank < other generalizing rank other
  · exact this otherNearest nearest (Ne.symm different)
      (Nat.lt_of_le_of_ne (Nat.le_of_not_lt before) (Ne.symm different))
  -- Both would be as near and so even, but then another one lies between them, nearer than both.
  have step := rank_value_strict before
  have first := nearest other (Ne.symm different)
  have second := otherNearest rank different
  rw [distance_lt_iff step, distance_eq_iff step] at first
  rw [distance_gt_iff step, eq_comm, distance_eq_iff step] at second
  have middle : 2 * value = rankValue rank + rankValue other ∧ rank % 2 = 0 ∧ other % 2 = 0 := by
    rcases first with under | ⟨same, even⟩
    · rcases second with above | ⟨same, -⟩
      · exact absurd (under.trans above) (lt_irrefl _)
      · exact absurd same under.ne
    · rcases second with above | ⟨-, otherEven⟩
      · exact absurd same above.ne'
      · exact ⟨same, even, otherEven⟩
  have between : rank + 1 < other := by omega
  have closer := rank_value_strict between
  rcases (is_nearest_iff.mp nearest).above with inside | ⟨same, -⟩
  · linarith [middle.1]
  · linarith [middle.1]

theorem Rounds.unique {negative : Bool} {value : ℚ} {number other : Number}
    (rounds : Rounds negative value number) (otherRounds : Rounds negative value other) :
    number = other := by
  obtain ⟨rank, nearest, rfl⟩ := rounds
  obtain ⟨otherRank, otherNearest, rfl⟩ := otherRounds
  rw [nearest.unique otherNearest]

/-- The value of a ratio of units. -/
def unitRatio (numerator denominator : Nat) : ℚ :=
  numerator / denominator / unitsPerOne

section

variable {numerator denominator rank : Nat} (positive : 0 < denominator)
include positive

theorem twice_unit_ratio_lt {left right : Nat} :
    2 * unitRatio numerator denominator < rankValue left + rankValue right ↔
      2 * numerator < (magnitude left + magnitude right) * denominator := by
  have divisor : (0 : ℚ) < denominator := Nat.cast_pos.mpr positive
  have units := units_rat_pos
  rw [unitRatio, rankValue, rankValue, ← add_div, mul_div_assoc', mul_div_assoc',
    div_lt_div_iff_of_pos_right units, div_lt_iff₀ divisor]
  exact_mod_cast Iff.rfl

theorem twice_unit_ratio_gt {left right : Nat} :
    rankValue left + rankValue right < 2 * unitRatio numerator denominator ↔
      (magnitude left + magnitude right) * denominator < 2 * numerator := by
  have divisor : (0 : ℚ) < denominator := Nat.cast_pos.mpr positive
  have units := units_rat_pos
  rw [unitRatio, rankValue, rankValue, ← add_div, mul_div_assoc', mul_div_assoc',
    div_lt_div_iff_of_pos_right units, lt_div_iff₀ divisor]
  exact_mod_cast Iff.rfl

theorem twice_unit_ratio_eq {left right : Nat} :
    2 * unitRatio numerator denominator = rankValue left + rankValue right ↔
      2 * numerator = (magnitude left + magnitude right) * denominator := by
  have divisor : (0 : ℚ) < denominator := Nat.cast_pos.mpr positive
  have units := units_rat_pos
  rw [unitRatio, rankValue, rankValue, ← add_div, mul_div_assoc', mul_div_assoc',
    div_left_inj' units.ne', div_eq_iff divisor.ne']
  exact_mod_cast Iff.rfl

end

/-- A whole number is nearest to a ratio, a half going to the even one. -/
structure NearWhole (numerator denominator whole : Nat) : Prop where
  above : 2 * numerator < (2 * whole + 1) * denominator ∨
    2 * numerator = (2 * whole + 1) * denominator ∧ whole % 2 = 0
  below : 2 * whole * denominator < 2 * numerator + denominator ∨
    2 * whole * denominator = 2 * numerator + denominator ∧ whole % 2 = 0

theorem nearest_whole_near (numerator : Nat) {denominator : Nat} (positive : 0 < denominator) :
    NearWhole numerator denominator (nearestWhole numerator denominator) := by
  have parts := Nat.div_add_mod numerator denominator
  have rest := Nat.mod_lt numerator positive
  rw [nearestWhole]
  generalize numerator / denominator = whole at parts ⊢
  generalize numerator % denominator = remainder at parts rest ⊢
  subst parts
  have double (count : Nat) :
      (2 * count + 1) * denominator = 2 * (denominator * count) + denominator := by
    ring
  have even (count : Nat) : 2 * count * denominator = 2 * (denominator * count) := by
    ring
  have next : denominator * (whole + 1) = denominator * whole + denominator := by
    ring
  split
  · next under => exact ⟨.inl (by rw [double]; omega), .inl (by rw [even]; omega)⟩
  · next under =>
      split
      · next above =>
          exact ⟨.inl (by rw [double]; omega), .inl (by rw [even]; omega)⟩
      · next above =>
          -- The ratio lies in the middle, so whichever neighbour is even is taken.
          rcases Nat.mod_two_eq_zero_or_one whole with lower | upper
          · rw [lower, Nat.add_zero]
            exact ⟨.inr ⟨by rw [double]; omega, lower⟩, .inl (by rw [even]; omega)⟩
          · rw [upper]
            refine ⟨.inl (by rw [double]; omega), .inr ⟨by rw [even]; omega, by omega⟩⟩

section

variable {numerator denominator whole count : Nat} (near : NearWhole numerator denominator whole)
include near

theorem NearWhole.le_of_reached (positive : 0 < denominator)
    (reached : count * denominator ≤ numerator) : count ≤ whole := by
  have above : 2 * numerator ≤ (2 * whole + 1) * denominator :=
    near.above.elim Nat.le_of_lt fun middle => middle.1.le
  have scaled : 2 * count * denominator ≤ (2 * whole + 1) * denominator := by
    rw [Nat.mul_assoc]
    exact Nat.le_trans (Nat.mul_le_mul_left 2 reached) above
  have bound := Nat.le_of_mul_le_mul_right scaled positive
  omega

theorem NearWhole.le_of_below (below : numerator < count * denominator) : whole ≤ count := by
  have under : 2 * whole * denominator ≤ 2 * numerator + denominator :=
    near.below.elim Nat.le_of_lt fun middle => middle.1.le
  have scaled : 2 * whole * denominator < (2 * count + 1) * denominator := by
    rw [Nat.add_mul, Nat.one_mul, Nat.mul_assoc 2 count]
    omega
  have bound := Nat.lt_of_mul_lt_mul_right scaled
  omega

end

/-- The grid for a ratio: it is the least one, or the ratio reaches its first rank, and in any case
the ratio stays below its end. -/
theorem shift_bounds (numerator : Nat) {denominator : Nat} (positive : 0 < denominator) :
    let shift := (numerator / denominator).log2 - 52
    (shift = 0 ∨ binadeSize * (denominator * twoTo shift) ≤ numerator) ∧
      numerator < 2 * binadeSize * (denominator * twoTo shift) := by
  intro shift
  have scaled (count : Nat) :
      count * (denominator * twoTo shift) = count * twoTo shift * denominator := by
    ring
  have doubled : 2 * binadeSize * twoTo shift = twoTo (53 + shift) := by
    rw [two_to_add]
    rfl
  rw [scaled, scaled, doubled, ← Nat.le_div_iff_mul_le positive, ← Nat.div_lt_iff_lt_mul positive]
  constructor
  · by_cases least : shift = 0
    · exact .inl least
    · have exponent : (numerator / denominator).log2 = 52 + shift := by omega
      have some : numerator / denominator ≠ 0 := by
        intro none
        rw [none, Nat.log2_zero] at exponent
        omega
      have reached := Nat.log2_self_le some
      rw [exponent] at reached
      refine .inr ?_
      rw [binadeSize, ← two_to_add]
      exact reached
  · have beyond : (numerator / denominator).log2 + 1 ≤ 53 + shift := by omega
    calc numerator / denominator < twoTo ((numerator / denominator).log2 + 1) := Nat.lt_log2_self
      _ ≤ twoTo (53 + shift) := Nat.pow_le_pow_right (by decide) beyond

theorem even_grid (shift whole : Nat) : (shift * binadeSize + whole) % 2 = whole % 2 := by
  have even : binadeSize = 2 * twoTo 51 := by decide
  rw [even, Nat.mul_left_comm, Nat.mul_add_mod]

/-- Between a rank of a grid and the next one lies at least the gap of the grid. -/
theorem magnitude_next {whole shift : Nat} (low : shift = 0 ∨ binadeSize ≤ whole)
    (high : whole ≤ 2 * binadeSize) :
    (whole + 1) * twoTo shift ≤ magnitude (shift * binadeSize + whole + 1) := by
  rcases Nat.lt_or_eq_of_le high with inside | last
  · have larger : shift = 0 ∨ binadeSize ≤ whole + 1 := low.imp_right Nat.le_succ_of_le
    rw [Nat.add_assoc, magnitude_grid larger inside]
  · have carried :
        shift * binadeSize + whole + 1 = (shift + 1) * binadeSize + (binadeSize + 1) := by
      rw [Nat.add_mul]
      omega
    have base : 0 < binadeSize := two_to_pos 52
    rw [carried, magnitude_grid (.inr (Nat.le_succ _)) (by omega), two_to_add, last]
    have doubled :
        (binadeSize + 1) * (twoTo shift * twoTo 1) = (2 * binadeSize + 2) * twoTo shift := by
      rw [show twoTo 1 = 2 from rfl]
      ring
    rw [doubled]
    exact Nat.mul_le_mul_right _ (Nat.le_succ _)

/-- Before a rank of a grid lies the gap of the grid, or half of it before its first rank. -/
theorem magnitude_previous {whole shift previous : Nat} (low : shift = 0 ∨ binadeSize ≤ whole)
    (high : whole ≤ 2 * binadeSize) (before : previous + 1 = shift * binadeSize + whole) :
    magnitude previous + twoTo shift = whole * twoTo shift ∨
      shift ≠ 0 ∧ whole = binadeSize ∧ magnitude previous < whole * twoTo shift := by
  by_cases inside : shift = 0 ∨ binadeSize < whole
  · have some : 0 < whole := by
      rcases inside with least | larger
      · rw [least] at before
        omega
      · omega
    have last : previous = shift * binadeSize + (whole - 1) := by omega
    have smaller : shift = 0 ∨ binadeSize ≤ whole - 1 := inside.imp_right Nat.le_sub_one_of_lt
    rw [last, magnitude_grid smaller (by omega), ← Nat.succ_mul, Nat.succ_eq_add_one,
      Nat.sub_add_cancel some]
    exact .inl rfl
  · have first : whole = binadeSize := by omega
    have step := magnitude_lt_succ previous
    rw [before, magnitude_grid low high] at step
    exact .inr ⟨fun least => inside (.inl least), first, step⟩

/-- The rank that is found for a ratio of units is the nearest one. -/
theorem nearest_rank_is_nearest (numerator : Nat) {denominator : Nat} (positive : 0 < denominator) :
    IsNearest (unitRatio numerator denominator) (nearestRank numerator denominator) := by
  obtain ⟨reached, below⟩ := shift_bounds numerator positive
  rw [nearestRank]
  generalize (numerator / denominator).log2 - 52 = shift at reached below ⊢
  have scale : 0 < denominator * twoTo shift := Nat.mul_pos positive (two_to_pos shift)
  have near := nearest_whole_near numerator scale
  generalize nearestWhole numerator (denominator * twoTo shift) = whole at near ⊢
  have low : shift = 0 ∨ binadeSize ≤ whole := reached.imp_right (near.le_of_reached scale)
  have high : whole ≤ 2 * binadeSize := near.le_of_below below
  have here := magnitude_grid low high
  rw [is_nearest_iff]
  constructor
  · rw [twice_unit_ratio_lt positive, twice_unit_ratio_eq positive, even_grid, here]
    have gap : (2 * whole + 1) * (denominator * twoTo shift) =
        (whole * twoTo shift + (whole + 1) * twoTo shift) * denominator := by
      ring
    have wide := Nat.mul_le_mul_right denominator
      (Nat.add_le_add_left (magnitude_next low high) (whole * twoTo shift))
    rw [← gap] at wide
    rcases near.above with inside | ⟨middle, even⟩
    · exact .inl (Nat.lt_of_lt_of_le inside wide)
    · rcases Nat.lt_or_eq_of_le wide with wider | same
      · exact .inl (middle ▸ wider)
      · exact .inr ⟨middle.trans same, even⟩
  · intro previous before
    rw [twice_unit_ratio_gt positive, twice_unit_ratio_eq positive, even_grid, here]
    rcases magnitude_previous low high before with step | ⟨shifted, first, less⟩
    · have gap :
          (magnitude previous + whole * twoTo shift) * denominator + denominator * twoTo shift =
            2 * whole * (denominator * twoTo shift) := by
        calc (magnitude previous + whole * twoTo shift) * denominator + denominator * twoTo shift =
              (magnitude previous + twoTo shift + whole * twoTo shift) * denominator := by ring
          _ = 2 * whole * (denominator * twoTo shift) := by rw [step]; ring
      rcases near.below with inside | ⟨middle, even⟩
      · exact .inl (by omega)
      · exact .inr ⟨by omega, even⟩
    · -- Before the first rank of a grid the middle is nearer, but the ratio reaches that rank.
      have start := reached.resolve_left shifted
      refine .inl ?_
      calc (magnitude previous + whole * twoTo shift) * denominator <
            (whole * twoTo shift + whole * twoTo shift) * denominator :=
              Nat.mul_lt_mul_of_pos_right (Nat.add_lt_add_right less _) positive
        _ = 2 * (binadeSize * (denominator * twoTo shift)) := by rw [first]; ring
        _ ≤ 2 * numerator := Nat.mul_le_mul_left 2 start

theorem unit_ratio_scaled (numerator denominator : Nat) {factor : Nat} (positive : 0 < factor) :
    unitRatio (numerator * factor) (denominator * factor) = unitRatio numerator denominator := by
  have some : (factor : ℚ) ≠ 0 := Nat.cast_ne_zero.mpr positive.ne'
  rw [unitRatio, unitRatio, Nat.cast_mul, Nat.cast_mul, mul_div_mul_right _ _ some]

theorem nearest_rank_scaled (numerator : Nat) {denominator factor : Nat} (divisor : 0 < denominator)
    (positive : 0 < factor) :
    nearestRank (numerator * factor) (denominator * factor) =
      nearestRank numerator denominator := by
  have scaled := nearest_rank_is_nearest (numerator * factor) (Nat.mul_pos divisor positive)
  rw [unit_ratio_scaled _ _ positive] at scaled
  exact scaled.unique (nearest_rank_is_nearest numerator divisor)

theorem of_unit_ratio_rounds (negative : Bool) (numerator : Nat) {denominator : Nat}
    (positive : 0 < denominator) :
    Rounds negative (unitRatio numerator denominator)
      (ofUnitRatio negative numerator denominator) :=
  ⟨_, nearest_rank_is_nearest numerator positive, rfl⟩

theorem unit_ratio_units (value : Nat) : unitRatio (value * unitsPerOne) 1 = value := by
  have units := units_rat_pos.ne'
  rw [unitRatio, Nat.cast_mul, Nat.cast_one, div_one, mul_div_cancel_right₀ _ units]

theorem of_nat_rounds (value : Nat) : Rounds false value (ofNat value) := by
  have rounds := of_unit_ratio_rounds false (value * unitsPerOne) Nat.one_pos
  rwa [unit_ratio_units] at rounds

end ScriptSandbox.Number
