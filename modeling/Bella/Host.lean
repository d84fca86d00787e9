import Bella.Number.Power

/-! The operations that refuse some of their arguments. Where one does not refuse, its result is that
of the operation of the same name on numbers. -/

namespace Bella

inductive Refusal where
  | domain
  | overflow
  | zeroDivisor
  | index
deriving DecidableEq

namespace Host

def isNan : Number → Bool
  | .nan => true
  | _ => false

def isInfinite : Number → Bool
  | .infinite _ => true
  | _ => false

def isNegative (number : Number) : Bool :=
  number.less (Number.zero false)

def signBit : Number → Bool
  | .nan => false
  | .infinite negative | .finite negative _ => negative

def hasUnitMagnitude : Number → Bool
  | .finite _ rank => Number.magnitude rank == Number.unitsPerOne
  | _ => false

def truncate : Number → Except Refusal Int
  | .nan => .error .domain
  | .infinite _ => .error .overflow
  | .finite negative rank =>
      let whole := Number.magnitude rank / Number.unitsPerOne
      .ok (if negative then -(whole : Int) else whole)

def equalsWhole (number : Number) (whole : Int) : Bool :=
  number.units? == some (whole * Number.unitsPerOne)

def lessThanWhole (number : Number) (whole : Int) : Bool :=
  match number with
  | .nan => false
  | .infinite negative => negative
  | .finite negative rank =>
      let units : Int := Number.magnitude rank
      decide ((if negative then -units else units) < whole * Number.unitsPerOne)

/-- A negative index counts from the end. -/
def item {α : Type} (items : List α) (index : Int) : Except Refusal α :=
  match if index < 0 then index + items.length else index with
  | .ofNat position =>
      match items[position]? with
      | some found => .ok found
      | none => .error .index
  | .negSucc _ => .error .index

def divide (left right : Number) : Except Refusal Number :=
  if right.isZero then .error .zeroDivisor else .ok (left.divide right)

def squareRoot (number : Number) : Except Refusal Number :=
  if isNegative number then .error .domain else .ok number.squareRoot

def sine (number : Number) : Except Refusal Number :=
  if isInfinite number then .error .domain else .ok number.sine

def cosine (number : Number) : Except Refusal Number :=
  if isInfinite number then .error .domain else .ok number.cosine

def naturalLogarithm (number : Number) : Except Refusal Number :=
  if number.isZero || isNegative number then .error .domain else .ok number.naturalLogarithm

def exponential (number : Number) : Except Refusal Number :=
  if !isInfinite number && isInfinite number.exponential then .error .overflow
  else .ok number.exponential

def remainder (dividend divisor : Number) : Except Refusal Number :=
  if isNan dividend || isNan divisor then .ok .nan
  else if isInfinite dividend || divisor.isZero then .error .domain
  else .ok (dividend.remainder divisor)

def power (base exponent : Number) : Except Refusal Number :=
  if base.equal (Number.ofNat 1) || exponent.isZero then .ok (Number.ofNat 1)
  else if hasUnitMagnitude base && isInfinite exponent then .ok (Number.ofNat 1)
  else if isNan base || isNan exponent then .ok .nan
  else if isInfinite base || isInfinite exponent then .ok (base.power exponent)
  else if base.isZero && isNegative exponent then .error .domain
  else if isNegative base && exponent.integer?.isNone then .error .domain
  else if isInfinite (base.power exponent) then .error .overflow
  else .ok (base.power exponent)

end Host

end Bella
