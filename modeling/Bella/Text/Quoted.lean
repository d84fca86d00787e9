import Bella.Text.Basic
import Bella.Text.Hidden

/-! Text in quotes. It is the form of a text inside a list or an object that is shown in a
message, and of a foreign text shown alone. -/

namespace Bella.Text

def hexadecimal : (places code : Nat) → List Char
  | 0, _ => []
  | places + 1, code => hexadecimal places (code / 16) ++ [Nat.digitChar (code % 16)]

def codeEscape (code : Nat) : List Char :=
  if code < 0x100 then '\\' :: 'x' :: hexadecimal 2 code
  else if code < 0x10000 then '\\' :: 'u' :: hexadecimal 4 code
  else '\\' :: 'U' :: hexadecimal 8 code

def quotedCharacter (quote character : Char) : List Char :=
  if character = quote ∨ character = '\\' then ['\\', character]
  else if character = '\n' then ['\\', 'n']
  else if character = '\r' then ['\\', 'r']
  else if character = '\t' then ['\\', 't']
  else if isHidden character then codeEscape character.toNat
  else [character]

def quotedCodePoint (quote : Char) : CodePoint → List Char
  | .character value => quotedCharacter quote value
  | .surrogate index => codeEscape (CodePoint.surrogate index).value

def quoted (text : Text) : String :=
  let quote :=
    if text.contains (.character '\'') && !text.contains (.character '"') then '"' else '\''
  String.ofList (quote :: text.flatMap (quotedCodePoint quote) ++ [quote])

/-- The form on a stream that takes every text: a half of a surrogate pair is written as its code. -/
def escaped (text : Text) : String :=
  String.ofList (text.flatMap fun
    | .character value => [value]
    | .surrogate index => codeEscape (CodePoint.surrogate index).value)

end Bella.Text
