import Bella.Datum
import Bella.Number.Reading

/-! Reading documents. The text is read once from left to right: characters make up tokens,
and each token is put on a stack of the lists and objects that are still open. -/

namespace Bella.Datum

inductive ReadError where
  | malformed
  | numeralTooLong
deriving DecidableEq

inductive Token where
  | openList
  | closeList
  | openObject
  | closeObject
  | comma
  | colon
  | text (value : Text)
  | word (characters : List Char)

inductive Container where
  | list (items : List Datum)
  | object (members : List (Text × Datum)) (name : Text)

inductive Progress where
  | valueDue (containers : List Container)
  | listStart (containers : List Container)
  | objectStart (containers : List Container)
  | nameDue (members : List (Text × Datum)) (containers : List Container)
  | colonDue (members : List (Text × Datum)) (name : Text) (containers : List Container)
  | complete (value : Datum) (containers : List Container)

def isAsciiDigit (character : Char) : Bool :=
  decide ('0' ≤ character ∧ character ≤ '9')

structure NumeralFront where
  characters : List Char
  whole : Bool
  rest : List Char

def wholePart : List Char → List Char
  | '0' :: _ => ['0']
  | characters => characters.takeWhile isAsciiDigit

def fractionPart : List Char → List Char
  | '.' :: rest =>
      match rest.takeWhile isAsciiDigit with
      | [] => []
      | digits => '.' :: digits
  | _ => []

def exponentPart : List Char → List Char
  | mark :: rest =>
      if mark = 'e' ∨ mark = 'E' then
        let sign := match rest with
          | '+' :: _ => ['+']
          | '-' :: _ => ['-']
          | _ => []
        match (rest.drop sign.length).takeWhile isAsciiDigit with
        | [] => []
        | digits => mark :: sign ++ digits
      else []
  | [] => []

def numeralFront? (word : List Char) : Option NumeralFront :=
  match wholePart word with
  | [] => none
  | whole =>
      let afterWhole := word.drop whole.length
      let fraction := fractionPart afterWhole
      let afterFraction := afterWhole.drop fraction.length
      let exponent := exponentPart afterFraction
      some
        { characters := whole ++ fraction ++ exponent
          whole := fraction.isEmpty && exponent.isEmpty
          rest := afterFraction.drop exponent.length }

def readNumeral (negative : Bool) (word : List Char) : Except ReadError Datum :=
  match numeralFront? word with
  | none => .error .malformed
  | some front =>
      if front.whole && longestNumeral < front.characters.length then .error .numeralTooLong
      else if !front.rest.isEmpty then .error .malformed
      else if front.whole then
        let value : Int := Number.digitsValue (Number.digitRun front.characters).1
        .ok (.integer (if negative then -value else value))
      else
        match Number.readDecimal? front.characters with
        | some decimal => .ok (.real (Number.ofDecimal negative decimal))
        | none => .error .malformed

def ofWord (characters : List Char) : Except ReadError Datum :=
  if characters = "null".toList then .ok .null
  else if characters = "true".toList then .ok (.boolean true)
  else if characters = "false".toList then .ok (.boolean false)
  else if characters = "NaN".toList then .ok (.real .nan)
  else if characters = "Infinity".toList then .ok (.real (.infinite false))
  else if characters = "-Infinity".toList then .ok (.real (.infinite true))
  else match characters with
    | '-' :: rest => readNumeral true rest
    | rest => readNumeral false rest

def Progress.begin (containers : List Container) : Token → Except ReadError Progress
  | .openList => .ok (.listStart containers)
  | .openObject => .ok (.objectStart containers)
  | .text value => .ok (.complete (.text value) containers)
  | .word characters => (ofWord characters).map (.complete · containers)
  | _ => .error .malformed

def Progress.step (progress : Progress) (token : Token) : Except ReadError Progress :=
  match progress with
  | .valueDue containers => Progress.begin containers token
  | .listStart containers =>
      match token with
      | .closeList => .ok (.complete (.list []) containers)
      | other => Progress.begin (.list [] :: containers) other
  | .objectStart containers =>
      match token with
      | .closeObject => .ok (.complete (.object []) containers)
      | .text name => .ok (.colonDue [] name containers)
      | _ => .error .malformed
  | .nameDue members containers =>
      match token with
      | .text name => .ok (.colonDue members name containers)
      | _ => .error .malformed
  | .colonDue members name containers =>
      match token with
      | .colon => .ok (.valueDue (.object members name :: containers))
      | _ => .error .malformed
  | .complete value containers =>
      match containers, token with
      | .list items :: outer, .comma => .ok (.valueDue (.list (value :: items) :: outer))
      | .list items :: outer, .closeList =>
          .ok (.complete (.list (value :: items).reverse) outer)
      | .object members name :: outer, .comma =>
          .ok (.nameDue ((name, value) :: members) outer)
      | .object members name :: outer, .closeObject =>
          .ok (.complete (ofMembers ((name, value) :: members).reverse) outer)
      | _, _ => .error .malformed

inductive Piece where
  | nothing
  | word (reversed : List Char)
  | quoted (reversed : Text)
  | escape (reversed : Text)
  | code (reversed : Text) (missing value : Nat)

structure Reader where
  piece : Piece
  progress : Progress

def isWordCharacter (character : Char) : Bool :=
  character.isAlphanum || character == '-' || character == '+' || character == '.'

/-- Adds a code to a text. The second half of a surrogate pair joins a first half right before
it; characters alone never leave a half there, so that half was named by a code too. -/
def addCode (reversed : Text) (code : Nat) : Text :=
  if isHalf : 0xd800 ≤ code ∧ code < 0xd800 + 2048 then
    match reversed with
    | .surrogate high :: rest =>
        if high < 0x400 ∧ 0xdc00 ≤ code then
          .character (Char.ofNat (0x10000 + high * 0x400 + (code - 0xdc00))) :: rest
        else .surrogate ⟨code - 0xd800, by omega⟩ :: reversed
    | _ => .surrogate ⟨code - 0xd800, by omega⟩ :: reversed
  else .character (Char.ofNat code) :: reversed

def simpleEscape? : Char → Option Char
  | '"' => some '"'
  | '\\' => some '\\'
  | '/' => some '/'
  | 'b' => some (Char.ofNat 8)
  | 'f' => some (Char.ofNat 12)
  | 'n' => some '\n'
  | 'r' => some '\r'
  | 't' => some '\t'
  | _ => none

def hexadecimalValue? (character : Char) : Option Nat :=
  let code := character.toNat
  if isAsciiDigit character then some (code - 48)
  else if 'a' ≤ character ∧ character ≤ 'f' then some (code - 87)
  else if 'A' ≤ character ∧ character ≤ 'F' then some (code - 55)
  else none

def Reader.start (progress : Progress) (character : Char) : Except ReadError Reader :=
  let put (token : Token) : Except ReadError Reader :=
    (progress.step token).map (Reader.mk .nothing)
  if character = ' ' ∨ character = '\t' ∨ character = '\n' ∨ character = '\r' then
    .ok ⟨.nothing, progress⟩
  else if character = '"' then .ok ⟨.quoted [], progress⟩
  else if character = '[' then put .openList
  else if character = ']' then put .closeList
  else if character = Char.ofNat 0x7b then put .openObject
  else if character = Char.ofNat 0x7d then put .closeObject
  else if character = ',' then put .comma
  else if character = ':' then put .colon
  else if isWordCharacter character then .ok ⟨.word [character], progress⟩
  else .error .malformed

def Reader.next (reader : Reader) (character : Char) : Except ReadError Reader :=
  match reader.piece with
  | .nothing => Reader.start reader.progress character
  | .word reversed =>
      if isWordCharacter character then .ok ⟨.word (character :: reversed), reader.progress⟩
      else
        match reader.progress.step (.word reversed.reverse) with
        | .ok progress => Reader.start progress character
        | .error error => .error error
  | .quoted reversed =>
      if character = '"' then
        (reader.progress.step (.text reversed.reverse)).map (Reader.mk .nothing)
      else if character = '\\' then .ok ⟨.escape reversed, reader.progress⟩
      else if character.toNat < 0x20 then .error .malformed
      else .ok ⟨.quoted (.character character :: reversed), reader.progress⟩
  | .escape reversed =>
      if character = 'u' then .ok ⟨.code reversed 4 0, reader.progress⟩
      else
        match simpleEscape? character with
        | some escaped => .ok ⟨.quoted (.character escaped :: reversed), reader.progress⟩
        | none => .error .malformed
  | .code reversed missing value =>
      match hexadecimalValue? character with
      | some digit =>
          let value := 16 * value + digit
          if missing ≤ 1 then .ok ⟨.quoted (addCode reversed value), reader.progress⟩
          else .ok ⟨.code reversed (missing - 1) value, reader.progress⟩
      | none => .error .malformed

def Reader.finish (reader : Reader) : Except ReadError Datum :=
  let progress : Except ReadError Progress := match reader.piece with
    | .nothing => .ok reader.progress
    | .word reversed => reader.progress.step (.word reversed.reverse)
    | _ => .error .malformed
  match progress with
  | .ok (.complete value []) => .ok value
  | .ok _ => .error .malformed
  | .error error => .error error

def read (document : String) : Except ReadError Datum :=
  match document.toList.foldlM Reader.next ⟨.nothing, .valueDue []⟩ with
  | .ok reader => reader.finish
  | .error error => .error error

end Bella.Datum
