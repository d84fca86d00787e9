import Bella.Number.Arithmetic

/-! Decimal values of numbers: the number nearest to a decimal, and the shortest decimal that
is nearest to a number. -/

namespace Bella

structure Decimal where
  significand : Nat
  exponent : Int
deriving DecidableEq

namespace Number

def countDigits : (most value : Nat) → Nat
  | 0, _ => 0
  | most + 1, value => if value = 0 then 0 else countDigits most (value / 10) + 1

def decimalLength (value : Nat) : Nat :=
  countDigits (value.log2 + 1) value

/-- The number nearest to a decimal. From `10 ^ 310` on that is an infinity and below
`10 ^ -324` a zero; those decimals are not expanded. -/
def ofDecimal (negative : Bool) (decimal : Decimal) : Number :=
  let order : Int := decimalLength decimal.significand + decimal.exponent
  if decimal.significand = 0 ∨ order < -323 then zero negative
  else if 310 < order then .infinite negative
  else match decimal.exponent with
    | .ofNat places => ofUnits negative (decimal.significand * Nat.pow 10 places * unitsPerOne)
    | .negSucc places =>
        ofQuotient negative (decimal.significand * unitsPerOne) (Nat.pow 10 (places + 1))

/-- The order of a positive magnitude: the exponent of the first power of ten above it. The
least magnitude is above `10 ^ -324`, so no digit is lost by the division. -/
def decimalOrder (units : Nat) : Int :=
  (decimalLength (units * Nat.pow 10 324 / unitsPerOne) : Int) - 324

def stripZeros : (fuel : Nat) → Decimal → Decimal
  | 0, decimal => decimal
  | fuel + 1, decimal =>
      if decimal.significand % 10 = 0 then
        stripZeros fuel ⟨decimal.significand / 10, decimal.exponent + 1⟩
      else decimal

def nearestAtExponent? (rank : Nat) (exponent : Int) : Option Decimal :=
  let (numerator, denominator) := match exponent with
    | .ofNat places => (Nat.pow 10 places * (2 * unitsPerOne), 1)
    | .negSucc places => (2 * unitsPerOne, Nat.pow 10 (places + 1))
  let lowest := (magnitude (rank - 1) + magnitude rank) * denominator
  let highest := (magnitude rank + magnitude (rank + 1)) * denominator
  let exact := 2 * magnitude rank * denominator
  let rounds (candidate : Nat) : Bool :=
    let place := candidate * numerator
    if rank % 2 = 0 then decide (lowest ≤ place ∧ place ≤ highest)
    else decide (lowest < place ∧ place < highest)
  let below := exact / numerator
  let above := below + 1
  match rounds below, rounds above with
  | false, false => none
  | true, false => some ⟨below, exponent⟩
  | false, true => some ⟨above, exponent⟩
  | true, true =>
      match compare (2 * exact) ((below + above) * numerator) with
      | .lt => some ⟨below, exponent⟩
      | .gt => some ⟨above, exponent⟩
      | .eq => some ⟨if below % 2 = 0 then below else above, exponent⟩

def shortestFrom (rank : Nat) (order : Int) : (attempts length : Nat) → Decimal
  | 0, _ => ⟨0, 0⟩
  | attempts + 1, length =>
      match nearestAtExponent? rank (order - length) with
      | some decimal => stripZeros 17 decimal
      | none => shortestFrom rank order attempts (length + 1)

/-- The decimal with the fewest digits that rounds to a positive magnitude, and of those the
nearest. Seventeen digits always suffice. -/
def shortestDecimal (rank : Nat) : Decimal :=
  shortestFrom rank (decimalOrder (magnitude rank)) 17 1

end Number

end Bella
