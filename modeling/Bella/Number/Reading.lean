import Bella.Number.Decimal
import Bella.Text.Character

/-! Reading numerals. An unsigned decimal is a run of digits, perhaps with a point, perhaps
with an exponent. A numeral kept as text may have a sign, surrounding blanks, single
underscores between digits, and the names of the special numbers in either case. -/

namespace Bella.Number

def digitRun : List Char → List Nat × List Char
  | [] => ([], [])
  | character :: rest =>
      match Text.digitValue? character with
      | some value =>
          let (digits, remaining) := digitRun rest
          (value :: digits, remaining)
      | none => ([], character :: rest)

def digitsValue (digits : List Nat) : Nat :=
  digits.foldl (fun value digit => 10 * value + digit) 0

def readExponent? : List Char → Option Int
  | [] => some 0
  | mark :: rest =>
      if mark = 'e' ∨ mark = 'E' then
        let (negative, rest) := match rest with
          | '-' :: tail => (true, tail)
          | '+' :: tail => (false, tail)
          | tail => (false, tail)
        match digitRun rest with
        | (first :: others, []) =>
            let value : Int := digitsValue (first :: others)
            some (if negative then -value else value)
        | _ => none
      else none

def readDecimal? (characters : List Char) : Option Decimal :=
  let (whole, rest) := digitRun characters
  let (fraction, rest) := match rest with
    | '.' :: tail => digitRun tail
    | tail => ([], tail)
  if whole.isEmpty && fraction.isEmpty then none
  else (readExponent? rest).map fun exponent =>
    ⟨digitsValue (whole ++ fraction), exponent - fraction.length⟩

def ofNumeral (characters : List Char) : Number :=
  match readDecimal? characters with
  | some decimal => ofDecimal false decimal
  | none => .nan

def readUnsigned? (negative : Bool) (characters : List Char) : Option Number :=
  let lowered := characters.map Char.toLower
  if lowered = "nan".toList then some .nan
  else if lowered = "inf".toList ∨ lowered = "infinity".toList then some (.infinite negative)
  else (readDecimal? characters).map (ofDecimal negative)

/-- Removes single underscores between digits; any other underscore refuses the text. -/
def joinDigits? : (previousIsDigit : Bool) → List Char → Option (List Char)
  | _, [] => some []
  | previousIsDigit, '_' :: rest =>
      match rest with
      | next :: _ =>
          if previousIsDigit && Text.isDigit next then joinDigits? false rest else none
      | [] => none
  | _, character :: rest =>
      (joinDigits? (Text.isDigit character) rest).map (character :: ·)

def trimBlanks (characters : List Char) : List Char :=
  ((characters.dropWhile Text.isNumeralBlank).reverse.dropWhile Text.isNumeralBlank).reverse

def read? (text : String) : Option Number :=
  match joinDigits? false (trimBlanks text.toList) with
  | none => none
  | some ('-' :: rest) => readUnsigned? true rest
  | some ('+' :: rest) => readUnsigned? false rest
  | some rest => readUnsigned? false rest

end Bella.Number
