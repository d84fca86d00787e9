/-! Double-precision numbers. The finite magnitudes are counted upwards from zero, and a
number keeps the rank of its magnitude in that count, so equal numbers are equal terms and
the order of magnitudes is the order of their ranks. Magnitudes are measured in units of
`2 ^ -1074`, the least positive one; every finite magnitude is a whole number of units. -/

namespace Bella

namespace Number

def binadeSize : Nat := Nat.pow 2 52

def rankCount : Nat := 2047 * binadeSize

def unitsPerOne : Nat := Nat.pow 2 1074

end Number

/-- The two zeros are the ranks zero of the two signs. -/
inductive Number where
  | nan
  | infinite (negative : Bool)
  | finite (negative : Bool) (rank : Fin Number.rankCount)
deriving DecidableEq

namespace Number

def zero (negative : Bool) : Number :=
  .finite negative ⟨0, by decide⟩

instance : Inhabited Number := ⟨zero false⟩

/-- The first two binades are spaced by one unit, and the spacing doubles with each later one. -/
def magnitude (rank : Nat) : Nat :=
  let doublings := rank / binadeSize - 1
  (rank - doublings * binadeSize) * Nat.pow 2 doublings

def rankBelow (units : Nat) : Nat :=
  let doublings := Nat.log2 units - 52
  doublings * binadeSize + units / Nat.pow 2 doublings

def ofRank (negative : Bool) (rank : Nat) : Number :=
  if bound : rank < rankCount then .finite negative ⟨rank, bound⟩ else .infinite negative

/-- The rank nearest to a magnitude that lies at or above `wholeUnits` and below the next unit.
`compareTwice` says how twice the magnitude compares with a number of units. A magnitude
halfway between two ranks goes to the even rank. -/
def nearestRank (wholeUnits : Nat) (compareTwice : Nat → Ordering) : Nat :=
  let rank := rankBelow wholeUnits
  match compareTwice (magnitude rank + magnitude (rank + 1)) with
  | .lt => rank
  | .gt => rank + 1
  | .eq => if rank % 2 = 0 then rank else rank + 1

def ofQuotient (negative : Bool) (numerator denominator : Nat) : Number :=
  ofRank negative <| nearestRank (numerator / denominator) fun midpoint =>
    compare (2 * numerator) (midpoint * denominator)

def ofUnits (negative : Bool) (units : Nat) : Number :=
  ofQuotient negative units 1

def ofDyadic (negative : Bool) (mantissa : Nat) (exponent : Int) : Number :=
  match exponent + 1074 with
  | .ofNat shift => ofUnits negative (mantissa * Nat.pow 2 shift)
  | .negSucc shift => ofQuotient negative mantissa (Nat.pow 2 (shift + 1))

def ofInt (value : Int) : Number :=
  ofUnits (decide (value < 0)) (value.natAbs * unitsPerOne)

def ofNat (value : Nat) : Number :=
  ofUnits false (value * unitsPerOne)

def units? : Number → Option Int
  | .finite negative rank =>
      some (if negative then -(magnitude rank : Int) else magnitude rank)
  | _ => none

def position? : Number → Option Int
  | .nan => none
  | .infinite negative => some (if negative then -(rankCount : Int) else rankCount)
  | .finite negative rank => some (if negative then -(rank.val : Int) else rank.val)

def less (left right : Number) : Bool :=
  match left.position?, right.position? with
  | some leftPosition, some rightPosition => decide (leftPosition < rightPosition)
  | _, _ => false

def equal (left right : Number) : Bool :=
  match left.position?, right.position? with
  | some leftPosition, some rightPosition => decide (leftPosition = rightPosition)
  | _, _ => false

def lessOrEqual (left right : Number) : Bool :=
  left.less right || left.equal right

def isZero : Number → Bool
  | .finite _ rank => rank.val == 0
  | _ => false

def integer? (number : Number) : Option Int :=
  match number.units? with
  | some units =>
      if units.natAbs % unitsPerOne = 0 then
        some (if units < 0 then -((units.natAbs / unitsPerOne : Nat) : Int)
          else ((units.natAbs / unitsPerOne : Nat) : Int))
      else none
  | none => none

def isOddInteger (number : Number) : Bool :=
  match number.integer? with
  | some value => value.natAbs % 2 == 1
  | none => false

end Number

end Bella
