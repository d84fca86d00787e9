import Bella.Number.Decimal

/-! The written forms of numbers. All of them share the form of finite numbers: the digits of
the shortest decimal, with a point inside or beside them where the number is neither very
large nor very small, and with an exponent elsewhere. -/

namespace Bella.Number

def zeros (count : Nat) : List Char :=
  List.replicate count '0'

/-- The point stands after `point` digits, counted from the first; zeros fill the gap. At least
one digit stands on either side of it. -/
def positional (digits : List Char) (point : Int) : List Char :=
  match point with
  | .ofNat places =>
      if places = 0 then '0' :: '.' :: digits
      else if digits.length ≤ places then digits ++ zeros (places - digits.length) ++ ['.', '0']
      else digits.take places ++ '.' :: digits.drop places
  | .negSucc places => '0' :: '.' :: zeros (places + 1) ++ digits

def scientific (digits : List Char) (exponent : Int) : List Char :=
  let mantissa := match digits with
    | first :: second :: rest => first :: '.' :: second :: rest
    | short => short
  let places := Nat.toDigits 10 exponent.natAbs
  mantissa ++ 'e' :: (if exponent < 0 then '-' else '+') ::
    (if places.length < 2 then '0' :: places else places)

/-- Numbers from `10 ^ -4` up to `10 ^ 16` are written without an exponent. -/
def finiteText (negative : Bool) (rank : Nat) : List Char :=
  let decimal := shortestDecimal rank
  let digits := Nat.toDigits 10 decimal.significand
  let point : Int := digits.length + decimal.exponent
  let body :=
    if rank = 0 then ['0', '.', '0']
    else if -4 < point ∧ point ≤ 16 then positional digits point
    else scientific digits (point - 1)
  if negative then '-' :: body else body

def literal : Number → String
  | .nan => "nan"
  | .infinite negative => if negative then "-inf" else "inf"
  | .finite negative rank => String.ofList (finiteText negative rank)

def documentText : Number → String
  | .nan => "NaN"
  | .infinite negative => if negative then "-Infinity" else "Infinity"
  | .finite negative rank => String.ofList (finiteText negative rank)

def integerText (value : Int) : List Char :=
  let digits := Nat.toDigits 10 value.natAbs
  if value < 0 then '-' :: digits else digits

/-- The form that a program prints: whole numbers below `10 ^ 21` have all their digits and
nothing else, so a negative zero is printed as zero. -/
def text (number : Number) : String :=
  match number with
  | .nan => "NaN"
  | .infinite negative => if negative then "-Infinity" else "Infinity"
  | .finite negative rank =>
      match number.integer? with
      | some value =>
          if value.natAbs < Nat.pow 10 21 then String.ofList (integerText value)
          else String.ofList (finiteText negative rank)
      | none => String.ofList (finiteText negative rank)

end Bella.Number
