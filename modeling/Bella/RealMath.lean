import Bella.Host

/-! The functions on numbers that programs use. Each looks for the special arguments that the host
refuses, or takes its refusal for the special result that it stands for. -/

namespace Bella.RealMath

open Host

def squareRoot (number : Number) : Except Refusal Number :=
  if isNan number || isNegative number then .ok .nan else Host.squareRoot number

def sine (number : Number) : Except Refusal Number :=
  if isInfinite number || isNan number then .ok .nan else Host.sine number

def cosine (number : Number) : Except Refusal Number :=
  if isInfinite number || isNan number then .ok .nan else Host.cosine number

def naturalLogarithm (number : Number) : Except Refusal Number :=
  if isNan number || isNegative number then .ok .nan
  else if number.isZero then .ok (.infinite true)
  else Host.naturalLogarithm number

def exponential (number : Number) : Except Refusal Number :=
  match Host.exponential number with
  | .error .overflow => .ok (.infinite false)
  | result => result

def hypotenuse (left right : Number) : Except Refusal Number :=
  .ok (left.hypotenuse right)

def remainder (dividend divisor : Number) : Except Refusal Number :=
  if isNan dividend || isNan divisor || isInfinite dividend || divisor.isZero then .ok .nan
  else if isInfinite divisor then .ok dividend
  else Host.remainder dividend divisor

def isOddExponent (exponent : Number) : Except Refusal Bool :=
  if isInfinite exponent || isNan exponent then .ok false
  else do
    let whole ← truncate exponent
    return equalsWhole exponent whole && whole % 2 == 1

/-- An overflow keeps the sign of an odd power, and a zero base with a negative exponent has an
infinite power. -/
def power (base exponent : Number) : Except Refusal Number :=
  if isNan exponent || (isInfinite exponent && hasUnitMagnitude base) then .ok .nan
  else do
    let odd ← isOddExponent exponent
    match Host.power base exponent with
    | .error .overflow => return .infinite (isNegative base && odd)
    | .error .domain =>
        if base.isZero then return .infinite (odd && signBit base) else return .nan
    | result => result

end Bella.RealMath
