import Bella.Number.Ball

/-! The elementary functions, by their series. Reals are approximated by integers that count multiples of
`2 ^ -precision`. How far a series is from its real is not proved here, and neither is any last digit of a
result. -/

namespace Bella.Number

def seriesRadius : Nat := Nat.pow 2 28

def exponentialSeries (precision : Nat) (argument : Int) :
    (terms index : Nat) → (term : Int) → Int
  | 0, _, _ => 0
  | terms + 1, index, term =>
      if term.natAbs = 0 then 0
      else term + exponentialSeries precision argument terms (index + 1)
        (Int.tdiv (term * argument) ((index + 1 : Nat) * Int.pow 2 precision))

/-- Every second term of the exponential series with alternating signs: the sine from the term
of index one, the cosine from the term of index zero. -/
def alternatingSeries (precision : Nat) (square : Int) :
    (terms index : Nat) → (term : Int) → Int
  | 0, _, _ => 0
  | terms + 1, index, term =>
      if term.natAbs = 0 then 0
      else term + alternatingSeries precision square terms (index + 2)
        (-(Int.tdiv (term * square) (((index + 1) * (index + 2) : Nat) * Int.pow 2 precision)))

/-- The sum of `power / index` over odd indices, each power being `ratio` times the one before.
It is the inverse hyperbolic tangent for a positive ratio and the inverse tangent for a
negative one. -/
def oddReciprocalSeries (numerator : Int) (denominator : Int) :
    (terms index : Nat) → (power : Int) → Int
  | 0, _, _ => 0
  | terms + 1, index, power =>
      if power.natAbs = 0 then 0
      else Int.tdiv power index + oddReciprocalSeries numerator denominator terms (index + 2)
        (Int.tdiv (power * numerator) denominator)

def logarithmOfTwo (precision : Nat) : Int :=
  2 * oddReciprocalSeries 1 9 (precision + 1) 1 (Int.pow 2 precision / 3)

/-- The circle's ratio by Machin's formula: sixteen times the inverse tangent of a fifth less
four times that of a 239th. -/
def circleRatio (precision : Nat) : Int :=
  16 * oddReciprocalSeries (-1) 25 (precision + 1) 1 (Int.pow 2 precision / 5)
    - 4 * oddReciprocalSeries (-1) 57121 (precision + 1) 1 (Int.pow 2 precision / 239)

/-- The logarithm of a positive magnitude. The magnitude is `2 ^ exponent` times a real
between two thirds and four thirds, whose logarithm is twice an inverse hyperbolic tangent. -/
def logarithm (precision units : Nat) : Int :=
  let length := Nat.log2 units
  let length := if 3 * units ≤ 4 * Nat.pow 2 length then length else length + 1
  let exponent : Int := length - 1074
  let ratio : Int := Int.tdiv (((units : Int) - (Nat.pow 2 length : Nat)) * Int.pow 2 precision)
    (units + Nat.pow 2 length : Nat)
  let square := Int.tdiv (ratio * ratio) (Int.pow 2 precision)
  exponent * logarithmOfTwo precision
    + 2 * oddReciprocalSeries square (Int.pow 2 precision) (precision + 1) 1 ratio

def exponentialBall (precision : Nat) (argument : Int) : Ball :=
  let unit := logarithmOfTwo precision
  let doublings := Int.fdiv (2 * argument + unit) (2 * unit)
  let reduced := argument - doublings * unit
  { center := exponentialSeries precision reduced (precision + 1) 0 (Int.pow 2 precision)
    radius := seriesRadius
    exponent := doublings - precision }

def scaled (precision units : Nat) : Int :=
  (units * Nat.pow 2 precision / unitsPerOne : Nat)

def exponential : Number → Number
  | .nan => .nan
  | .infinite negative => if negative then zero false else .infinite false
  | .finite negative rank =>
      let units := magnitude rank
      if rank.val = 0 then ofNat 1
      else if 800 * unitsPerOne < units then
        if negative then zero false else .infinite false
      else rounded fun precision =>
        let argument := scaled precision units
        exponentialBall precision (if negative then -argument else argument)

def naturalLogarithm : Number → Number
  | .nan => .nan
  | .infinite negative => if negative then .nan else .infinite false
  | .finite negative rank =>
      if rank.val = 0 then .infinite true
      else if negative then .nan
      else if magnitude rank = unitsPerOne then zero false
      else rounded fun precision =>
        { center := logarithm precision (magnitude rank)
          radius := seriesRadius
          exponent := -(precision : Int) }

/-- A magnitude less its nearest multiple of a quarter turn, and that multiple. The circle's
ratio is taken with as many more binary digits as the magnitude's whole part has. -/
def quarterTurns (precision units : Nat) : Nat × Int :=
  let working := precision + 32 + (Nat.log2 units - 1074)
  let argument := scaled working units
  let ratio := circleRatio working
  let quarters := (4 * argument + ratio) / (2 * ratio)
  let reduced := Int.tdiv (2 * argument - quarters * ratio) 2
  (quarters.toNat, Int.tdiv reduced (Int.pow 2 (working - precision)))

def sineSeries (precision : Nat) (argument : Int) : Int :=
  alternatingSeries precision (Int.tdiv (argument * argument) (Int.pow 2 precision))
    (precision + 1) 1 argument

def cosineSeries (precision : Nat) (argument : Int) : Int :=
  alternatingSeries precision (Int.tdiv (argument * argument) (Int.pow 2 precision))
    (precision + 1) 0 (Int.pow 2 precision)

def advancedSine (precision units quarters : Nat) : Ball :=
  let (turns, reduced) := quarterTurns precision units
  let center := match (turns + quarters) % 4 with
    | 0 => sineSeries precision reduced
    | 1 => cosineSeries precision reduced
    | 2 => -(sineSeries precision reduced)
    | _ => -(cosineSeries precision reduced)
  { center := center, radius := seriesRadius, exponent := -(precision : Int) }

def sine : Number → Number
  | .nan | .infinite _ => .nan
  | .finite negative rank =>
      if rank.val = 0 then zero negative
      else
        let result := rounded (advancedSine · (magnitude rank) 0)
        if negative then result.negate else result

def cosine : Number → Number
  | .nan | .infinite _ => .nan
  | .finite _ rank =>
      if rank.val = 0 then ofNat 1
      else rounded (advancedSine · (magnitude rank) 1)

def pi : Number :=
  rounded fun precision =>
    { center := circleRatio precision
      radius := seriesRadius
      exponent := -(precision : Int) }

end Bella.Number
