import Bella.Number.Basic

/-! The arithmetic operations. Each forms its exact result, a quotient of whole numbers or a
square root, and rounds once. The remainder is a whole number of units that is always a
number itself, so nothing is lost in it. -/

namespace Bella.Number

def negate : Number → Number
  | .nan => .nan
  | .infinite negative => .infinite !negative
  | .finite negative rank => .finite (!negative) rank

def add (left right : Number) : Number :=
  match left, right with
  | .nan, _ | _, .nan => .nan
  | .infinite leftNegative, .infinite rightNegative =>
      if leftNegative = rightNegative then .infinite leftNegative else .nan
  | .infinite negative, .finite _ _ | .finite _ _, .infinite negative => .infinite negative
  | .finite leftNegative leftRank, .finite rightNegative rightRank =>
      let signed (negative : Bool) (units : Nat) : Int := if negative then -(units : Int) else units
      let sum :=
        signed leftNegative (magnitude leftRank) + signed rightNegative (magnitude rightRank)
      if sum = 0 then zero (leftNegative && rightNegative)
      else ofUnits (decide (sum < 0)) sum.natAbs

def subtract (left right : Number) : Number :=
  left.add right.negate

def multiply (left right : Number) : Number :=
  match left, right with
  | .nan, _ | _, .nan => .nan
  | .infinite leftNegative, .infinite rightNegative => .infinite (leftNegative != rightNegative)
  | .infinite leftNegative, .finite rightNegative rank
  | .finite leftNegative rank, .infinite rightNegative =>
      if rank.val = 0 then .nan else .infinite (leftNegative != rightNegative)
  | .finite leftNegative leftRank, .finite rightNegative rightRank =>
      ofQuotient (leftNegative != rightNegative)
        (magnitude leftRank * magnitude rightRank) unitsPerOne

def divide (left right : Number) : Number :=
  match left, right with
  | .nan, _ | _, .nan => .nan
  | .infinite _, .infinite _ => .nan
  | .infinite leftNegative, .finite rightNegative _ => .infinite (leftNegative != rightNegative)
  | .finite leftNegative _, .infinite rightNegative => zero (leftNegative != rightNegative)
  | .finite leftNegative leftRank, .finite rightNegative rightRank =>
      if rightRank.val = 0 then
        if leftRank.val = 0 then .nan else .infinite (leftNegative != rightNegative)
      else ofQuotient (leftNegative != rightNegative)
        (magnitude leftRank * unitsPerOne) (magnitude rightRank)

/-- The truncated remainder: exact, and with the sign of the dividend. -/
def remainder (dividend divisor : Number) : Number :=
  match dividend, divisor with
  | .nan, _ | _, .nan => .nan
  | .infinite _, _ => .nan
  | .finite negative rank, .infinite _ => .finite negative rank
  | .finite negative rank, .finite _ divisorRank =>
      if divisorRank.val = 0 then .nan
      else ofUnits negative (magnitude rank % magnitude divisorRank)

def rootDigits : (digits square : Nat) → Nat
  | 0, _ => 0
  | digits + 1, square =>
      let doubled := 2 * rootDigits digits (square / 4)
      if (doubled + 1) * (doubled + 1) ≤ square then doubled + 1 else doubled

def wholeRoot (square : Nat) : Nat :=
  rootDigits (square.log2 / 2 + 1) square

def ofSquare (square : Nat) : Number :=
  ofRank false <| nearestRank (wholeRoot square) fun midpoint =>
    compare (4 * square) (midpoint * midpoint)

def squareRoot : Number → Number
  | .nan => .nan
  | .infinite negative => if negative then .nan else .infinite false
  | .finite negative rank =>
      if rank.val = 0 then zero negative
      else if negative then .nan
      else ofSquare (magnitude rank * unitsPerOne)

def hypotenuse (left right : Number) : Number :=
  match left, right with
  | .infinite _, _ | _, .infinite _ => .infinite false
  | .nan, _ | _, .nan => .nan
  | .finite _ leftRank, .finite _ rightRank =>
      let leftUnits := magnitude leftRank
      let rightUnits := magnitude rightRank
      ofSquare (leftUnits * leftUnits + rightUnits * rightUnits)

end Bella.Number
