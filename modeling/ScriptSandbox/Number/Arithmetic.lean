import ScriptSandbox.Number.Basic

/-!
Arithmetic on numbers. Every operation is the exact result, rounded once to the nearest number;
a tie goes to the even rank.
-/

namespace ScriptSandbox.Number

def neg : Number → Number
  | .nan => .nan
  | .infinite negative => .infinite !negative
  | .finite negative rank => .finite (!negative) rank

/-- A sum that is exactly zero is negative only when both terms are. -/
def add : Number → Number → Number
  | .nan, _ => .nan
  | _, .nan => .nan
  | .infinite left, .infinite right => if left == right then .infinite left else .nan
  | .infinite left, .finite .. => .infinite left
  | .finite .., .infinite right => .infinite right
  | .finite left leftRank, .finite right rightRank =>
      let total := signedUnits left leftRank + signedUnits right rightRank
      if total = 0 then .finite (left && right) zeroRank
      else ofUnitRatio (total < 0) total.natAbs 1

def sub (left right : Number) : Number :=
  add left (neg right)

def mul : Number → Number → Number
  | .nan, _ => .nan
  | _, .nan => .nan
  | .infinite left, .infinite right => .infinite (left != right)
  | .infinite left, .finite right rank =>
      if rank.val == 0 then .nan else .infinite (left != right)
  | .finite left rank, .infinite right =>
      if rank.val == 0 then .nan else .infinite (left != right)
  | .finite left leftRank, .finite right rightRank =>
      ofUnitRatio (left != right) (magnitude leftRank * magnitude rightRank) unitsPerOne

def div : Number → Number → Number
  | .nan, _ => .nan
  | _, .nan => .nan
  | .infinite _, .infinite _ => .nan
  | .infinite left, .finite right _ => .infinite (left != right)
  | .finite left _, .infinite right => .finite (left != right) zeroRank
  | .finite left leftRank, .finite right rightRank =>
      if rightRank.val == 0 then
        if leftRank.val == 0 then .nan else .infinite (left != right)
      else
        ofUnitRatio (left != right) (magnitude leftRank * unitsPerOne) (magnitude rightRank)

instance : Neg Number := ⟨neg⟩
instance : Add Number := ⟨add⟩
instance : Sub Number := ⟨sub⟩
instance : Mul Number := ⟨mul⟩
instance : Div Number := ⟨div⟩

/-- The place of a number in the order from minus infinity to infinity, both zeros together. -/
def place? : Number → Option Int
  | .nan => none
  | .infinite negative => some (if negative then -(rankCount : Int) else rankCount)
  | .finite negative rank => some (if negative then -(rank.val : Int) else rank.val)

/-- Numeric order; `none` when a NaN takes part. -/
def compare? (left right : Number) : Option Ordering :=
  match place? left, place? right with
  | some x, some y => some (compare x y)
  | _, _ => none

/-- Numeric equality: the zeros are equal, NaN equals nothing. -/
def equals (left right : Number) : Bool :=
  compare? left right == some .eq

def less (left right : Number) : Bool :=
  compare? left right == some .lt

def atMost (left right : Number) : Bool :=
  less left right || equals left right

/-- The greatest whole number not above; a zero keeps its sign. -/
def floor : Number → Number
  | .finite negative rank =>
      let whole := magnitude rank / unitsPerOne
      if magnitude rank % unitsPerOne == 0 then .finite negative rank
      else if negative then ofUnitRatio true ((whole + 1) * unitsPerOne) 1
      else ofUnitRatio false (whole * unitsPerOne) 1
  | other => other

/-- The number without its fraction; a zero keeps its sign. -/
def truncate : Number → Number
  | .finite negative rank => ofUnitRatio negative (magnitude rank / unitsPerOne * unitsPerOne) 1
  | other => other

/-- The lesser of two numbers; a NaN gives way to the other one. -/
def lesser (left right : Number) : Number :=
  if left.isNaN || less right left then right else left

/-- The greater of two numbers; a NaN gives way to the other one. -/
def greater (left right : Number) : Number :=
  if left.isNaN || less left right then right else left

def greatestCount : Nat := twoTo 64 - 1

/-- The whole part as a count of 64 bits: 0 for NaN and below zero, at most the greatest count. -/
def toCount : Number → Nat
  | .finite false rank => min (magnitude rank / unitsPerOne) greatestCount
  | .infinite false => greatestCount
  | _ => 0

def one : Number := ofNat 1

def half : Number := div one (ofNat 2)

/-- Rounds to a whole number, a half toward infinity. -/
def round : Number → Number
  | .finite negative rank =>
      let number := Number.finite negative rank
      let below := floor number
      if atMost half (number - below) then below + one else below
  | other => other

end ScriptSandbox.Number
