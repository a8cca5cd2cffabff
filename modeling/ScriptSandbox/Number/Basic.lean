import ScriptSandbox.Number.Power

/-!
Numbers of the language: the binary64 values, held exactly.

A finite number is a sign and a rank. Ranks count the magnitudes in increasing order from zero, so
the rank is also the pattern of the low 63 bits of the binary64 word. The magnitude of a rank is a
whole number of units, a unit being 2^-1074. Every NaN is the same number.
-/

namespace ScriptSandbox

namespace Number

/-- How many magnitudes have one exponent. -/
def binadeSize : Nat := twoTo 52

/-- How many finite magnitudes there are; the rank after the last one stands for infinity. -/
def rankCount : Nat := 2047 * binadeSize

def unitsPerOne : Nat := twoTo 1074

/-- The magnitude of a rank, in units. -/
def magnitude (rank : Nat) : Nat :=
  if rank < binadeSize then rank
  else (binadeSize + rank % binadeSize) * twoTo (rank / binadeSize - 1)

end Number

inductive Number where
  | nan
  | infinite (negative : Bool)
  | finite (negative : Bool) (rank : Fin Number.rankCount)
deriving DecidableEq

namespace Number

/-- The whole number nearest to a ratio; a half goes to the even neighbour. -/
def nearestWhole (numerator denominator : Nat) : Nat :=
  let whole := numerator / denominator
  let twiceRest := 2 * (numerator % denominator)
  if twiceRest < denominator then whole
  else if denominator < twiceRest then whole + 1
  else whole + whole % 2

/-- The rank whose magnitude is nearest to a ratio of units; a tie goes to the even rank. The
result may lie past the last finite rank. -/
def nearestRank (numerator denominator : Nat) : Nat :=
  let shift := (numerator / denominator).log2 - 52
  shift * binadeSize + nearestWhole numerator (denominator * twoTo shift)

/-- The number of a rank, infinite past the last finite rank. -/
def ofRank (negative : Bool) (rank : Nat) : Number :=
  if bounded : rank < rankCount then .finite negative ⟨rank, bounded⟩ else .infinite negative

/-- The number nearest to a signed ratio of units, infinite beyond the finite range. -/
def ofUnitRatio (negative : Bool) (numerator denominator : Nat) : Number :=
  ofRank negative (nearestRank numerator denominator)

theorem rank_count_pos : 0 < rankCount := by decide

def zeroRank : Fin rankCount := ⟨0, rank_count_pos⟩

def zero : Number := .finite false zeroRank

def infinity : Number := .infinite false

instance : Inhabited Number := ⟨zero⟩

def signedUnits (negative : Bool) (rank : Nat) : Int :=
  if negative then -(magnitude rank : Int) else magnitude rank

def isNaN : Number → Bool
  | .nan => true
  | _ => false

def isFinite : Number → Bool
  | .finite .. => true
  | _ => false

def isZero : Number → Bool
  | .finite _ rank => rank.val == 0
  | _ => false

def ofNat (value : Nat) : Number :=
  ofUnitRatio false (value * unitsPerOne) 1

def ofInt (value : Int) : Number :=
  ofUnitRatio (value < 0) (value.natAbs * unitsPerOne) 1

def isWhole : Number → Bool
  | .finite _ rank => magnitude rank % unitsPerOne == 0
  | _ => false

/-- The whole part of a finite number, cut toward zero; 0 for any other number. -/
def wholePart : Number → Int
  | .finite negative rank =>
      let whole := magnitude rank / unitsPerOne
      if negative then -(whole : Int) else whole
  | _ => 0

/-- The bit of a 64-bit word that is set for negative numbers. -/
def signBit : Nat := twoTo 63

def ofBits (word : Nat) : Number :=
  let rank := word % signBit
  let negative := word / signBit % 2 == 1
  if bounded : rank < rankCount then .finite negative ⟨rank, bounded⟩
  else if rank = rankCount then .infinite negative
  else .nan

/-- The 64-bit word of a number; a quiet word for NaN. -/
def toBits : Number → Nat
  | .nan => rankCount + twoTo 51
  | .infinite negative => (if negative then signBit else 0) + rankCount
  | .finite negative rank => (if negative then signBit else 0) + rank.val

end Number

end ScriptSandbox
