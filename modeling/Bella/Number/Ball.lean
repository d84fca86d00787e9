import Bella.Number.Arithmetic

/-! Rounding a real that is only approximated. If both ends of a ball round to the same number, that number
is taken; otherwise a finer ball is asked for. -/

namespace Bella.Number

/-- The reals within `radius * 2 ^ exponent` of `center * 2 ^ exponent`. -/
structure Ball where
  center : Int
  radius : Nat
  exponent : Int

def roundSigned (mantissa exponent : Int) : Number :=
  ofDyadic (decide (mantissa < 0)) mantissa.natAbs exponent

def Ball.rounded? (ball : Ball) : Option Number :=
  let lowest := roundSigned (ball.center - ball.radius) ball.exponent
  let highest := roundSigned (ball.center + ball.radius) ball.exponent
  if lowest = highest then some lowest else none

/-- Asks for balls of doubling precision until one settles the rounding. After as many attempts the center
of the last is rounded. -/
def settle (ballAt : Nat → Ball) : (attempts precision : Nat) → Number
  | 0, precision => roundSigned (ballAt precision).center (ballAt precision).exponent
  | attempts + 1, precision =>
      match (ballAt precision).rounded? with
      | some number => number
      | none => settle ballAt attempts (2 * precision)

def rounded (ballAt : Nat → Ball) : Number :=
  settle ballAt 5 160

end Bella.Number
