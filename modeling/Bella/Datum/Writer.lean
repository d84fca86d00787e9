import Bella.Datum

/-! Writing documents: one item or member to a line, indented by two blanks for each open list
or object. Characters other than controls stand for themselves. -/

namespace Bella.Datum

def codeEscape (code : Nat) : List Char :=
  '\\' :: 'u' :: Text.hexadecimal 4 code

def escapedCharacter (character : Char) : List Char :=
  if character = '"' then ['\\', '"']
  else if character = '\\' then ['\\', '\\']
  else if character = '\n' then ['\\', 'n']
  else if character = '\r' then ['\\', 'r']
  else if character = '\t' then ['\\', 't']
  else if character = Char.ofNat 8 then ['\\', 'b']
  else if character = Char.ofNat 12 then ['\\', 'f']
  else if character.toNat < 0x20 then codeEscape character.toNat
  else [character]

def escapedCodePoint : CodePoint → List Char
  | .character value => escapedCharacter value
  | .surrogate index => codeEscape (CodePoint.surrogate index).value

def writtenText (text : Text) : String :=
  String.ofList ('"' :: text.flatMap escapedCodePoint ++ ['"'])

def lineBreak (depth : Nat) : String :=
  String.ofList ('\n' :: List.replicate (2 * depth) ' ')

mutual

def writeAt (depth : Nat) : Datum → String
  | .null => "null"
  | .boolean value => if value then "true" else "false"
  | .integer value => String.ofList (Number.integerText value)
  | .real value => value.documentText
  | .labelledNan _ => Number.nan.documentText
  | .text value => writtenText value
  | .list [] => "[]"
  | .list (first :: rest) =>
      "[" ++ lineBreak (depth + 1) ++ writeAt (depth + 1) first ++ writeItems (depth + 1) rest
        ++ lineBreak depth ++ "]"
  | .object [] => "\x7b\x7d"
  | .object ((name, value) :: rest) =>
      "\x7b" ++ lineBreak (depth + 1) ++ writtenText name ++ ": " ++ writeAt (depth + 1) value
        ++ writeMembers (depth + 1) rest ++ lineBreak depth ++ "\x7d"

def writeItems (depth : Nat) : List Datum → String
  | [] => ""
  | item :: rest => "," ++ lineBreak depth ++ writeAt depth item ++ writeItems depth rest

def writeMembers (depth : Nat) : List (Text × Datum) → String
  | [] => ""
  | (name, value) :: rest =>
      "," ++ lineBreak depth ++ writtenText name ++ ": " ++ writeAt depth value
        ++ writeMembers depth rest

end

def write (datum : Datum) : String :=
  writeAt 0 datum

end Bella.Datum
