import Bella.Number.Elementary

/-! Powers. Base and exponent that are special have results of their own; every other power
is rounded once. A power that is itself a short binary fraction is found exactly, because no
ball settles a result halfway between two numbers. -/

namespace Bella.Number

def splitPowerOfTwo : (fuel value : Nat) → Nat × Nat
  | 0, value => (value, 0)
  | fuel + 1, value =>
      if value % 2 = 0 then
        let (odd, twos) := splitPowerOfTwo fuel (value / 2)
        (odd, twos + 1)
      else (value, 0)

def exactRoot? (odd : Nat) (twos : Int) : Option (Nat × Int) :=
  let root := wholeRoot odd
  if root * root = odd ∧ twos % 2 = 0 then some (root, twos / 2) else none

def clearHalves : (halvings : Nat) → (odd : Nat) → (twos : Int) → Option (Nat × Int)
  | 0, odd, twos => some (odd, twos)
  | halvings + 1, odd, twos =>
      match exactRoot? odd twos with
      | some (root, half) => clearHalves halvings root half
      | none => none

/-- The power as `odd * 2 ^ twos`, when it is so with an odd part of at most 64 binary digits.
Every number, and every midpoint of two numbers, has a shorter odd part. -/
def shortPower? (baseUnits exponentUnits : Nat) (exponentNegative : Bool) : Option (Nat × Int) :=
  let (baseOdd, baseTwos) := splitPowerOfTwo baseUnits.log2 baseUnits
  let (exponentOdd, exponentTwos) := splitPowerOfTwo exponentUnits.log2 exponentUnits
  let whole := exponentOdd * Nat.pow 2 (exponentTwos - 1074)
  match clearHalves (1074 - exponentTwos) baseOdd ((baseTwos : Int) - 1074) with
  | none => none
  | some (odd, twos) =>
      let signed : Int := if exponentNegative then -(whole : Int) else whole
      if odd = 1 then some (1, twos * signed)
      else if exponentNegative ∨ 64 < whole ∨ 64 < whole * (odd.log2 : Nat) then none
      else some (Nat.pow odd whole, twos * signed)

def powerMagnitude (baseUnits exponentUnits : Nat) (exponentNegative : Bool) : Number :=
  let multiple (precision : Nat) : Int :=
    let product := Int.tdiv (logarithm (precision + 96) baseUnits * exponentUnits)
      (Int.pow 2 (96 + 1074))
    if exponentNegative then -product else product
  let rough := multiple 64
  if baseUnits = unitsPerOne then ofNat 1
  else if 800 * Int.pow 2 64 < rough then .infinite false
  else if rough < -(800 * Int.pow 2 64) then zero false
  else match shortPower? baseUnits exponentUnits exponentNegative with
    | some (odd, twos) => ofDyadic false odd twos
    | none => rounded fun precision => exponentialBall precision (multiple precision)

def withSign (negative : Bool) : Number → Number
  | .nan => .nan
  | .infinite _ => .infinite negative
  | .finite _ rank => .finite negative rank

/-- A base of magnitude one has no power at an infinite exponent, and any base, even `nan`, has
power one at a zero exponent. A negative base gives a negative power exactly at an odd
exponent. -/
def power (base exponent : Number) : Number :=
  match exponent with
  | .nan => .nan
  | .infinite exponentNegative =>
      match base with
      | .nan => .nan
      | .infinite _ => if exponentNegative then zero false else .infinite false
      | .finite _ baseRank =>
          let units := magnitude baseRank
          if units = unitsPerOne then .nan
          else if decide (unitsPerOne < units) = exponentNegative then zero false
          else .infinite false
  | .finite exponentNegative exponentRank =>
      if exponentRank.val = 0 then ofNat 1
      else
        let odd := exponent.isOddInteger
        match base with
        | .nan => .nan
        | .infinite baseNegative =>
            withSign (baseNegative && odd)
              (if exponentNegative then zero false else .infinite false)
        | .finite baseNegative baseRank =>
            if baseRank.val = 0 then
              withSign (baseNegative && odd)
                (if exponentNegative then .infinite false else zero false)
            else if baseNegative && exponent.integer?.isNone then .nan
            else withSign (baseNegative && odd)
              (powerMagnitude (magnitude baseRank) (magnitude exponentRank) exponentNegative)

end Bella.Number
