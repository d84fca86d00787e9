import Bella.Text.Character

/-! The words of source text. A position is told in lines, columns and characters. Which
terminals are looked for depends on the place in a program: a word is a keyword only where
that keyword may stand, and a minus sign is a sign only where an operand may start. -/

namespace Bella.Source

/-- Lines and columns are counted from one, characters from zero. -/
structure Position where
  line : Nat
  column : Nat
  offset : Nat
deriving DecidableEq

namespace Position

def start : Position := ⟨1, 1, 0⟩

def after (position : Position) (character : Char) : Position :=
  if character = '\n' then ⟨position.line + 1, 1, position.offset + 1⟩
  else ⟨position.line, position.column + 1, position.offset + 1⟩

end Position

inductive Terminal where
  | name
  | letKeyword
  | funKeyword
  | printKeyword
  | whileKeyword
  | trueKeyword
  | falseKeyword
  | number
  | relation
  | conjunction
  | disjunction
  | power
  | product
  | sum
  | sign
  | colon
  | comma
  | equal
  | leftBrace
  | leftParenthesis
  | leftBracket
  | question
  | rightBrace
  | rightParenthesis
  | rightBracket
  | semicolon
deriving DecidableEq

def Terminal.label : Terminal → String
  | .name => "NAME"
  | .letKeyword => "LET"
  | .funKeyword => "FUN"
  | .printKeyword => "PRINT"
  | .whileKeyword => "WHILE"
  | .trueKeyword => "TRUE"
  | .falseKeyword => "FALSE"
  | .number => "NUMBER"
  | .relation => "REL_OP"
  | .conjunction => "AND"
  | .disjunction => "OR"
  | .power => "POW"
  | .product => "MUL_OP"
  | .sum => "ADD_OP"
  | .sign => "UNARY_OP"
  | .colon => "COLON"
  | .comma => "COMMA"
  | .equal => "EQUAL"
  | .leftBrace => "LBRACE"
  | .leftParenthesis => "LPAR"
  | .leftBracket => "LSQB"
  | .question => "QMARK"
  | .rightBrace => "RBRACE"
  | .rightParenthesis => "RPAR"
  | .rightBracket => "RSQB"
  | .semicolon => "SEMICOLON"

def isBlank (character : Char) : Bool :=
  character == ' ' || character == '\t' || character == '\n' || character == '\r'
    || character == Char.ofNat 12

def isNameStart (character : Char) : Bool :=
  character.isAlpha || character == '_'

def isNameCharacter (character : Char) : Bool :=
  character.isAlphanum || character == '_'

def commentExtent? (character : Char) (rest : List Char) : Option Nat :=
  match rest with
  | second :: _ =>
      if character = '/' ∧ second = '/' then some (rest.takeWhile (· != '\n')).length else none
  | [] => none

def digitsExtent (characters : List Char) : Nat :=
  (characters.takeWhile Text.isDigit).length

def fractionExtent : List Char → Nat
  | '.' :: rest => match digitsExtent rest with
      | 0 => 0
      | digits => digits + 1
  | _ => 0

def exponentExtent : List Char → Nat
  | mark :: rest =>
      if mark = 'e' ∨ mark = 'E' then
        let signed := match rest with
          | '+' :: _ | '-' :: _ => 1
          | _ => 0
        match digitsExtent (rest.drop signed) with
        | 0 => 0
        | digits => 1 + signed + digits
      else 0
  | [] => 0

def numeralExtent (rest : List Char) : Nat :=
  let whole := digitsExtent rest
  let fraction := fractionExtent (rest.drop whole)
  whole + fraction + exponentExtent (rest.drop (whole + fraction))

def statementKeyword? (word : List Char) : Option Terminal :=
  if word = "let".toList then some .letKeyword
  else if word = "fun".toList then some .funKeyword
  else if word = "print".toList then some .printKeyword
  else if word = "while".toList then some .whileKeyword
  else none

def literalKeyword? (word : List Char) : Option Terminal :=
  if word = "true".toList then some .trueKeyword
  else if word = "false".toList then some .falseKeyword
  else none

def anyKeyword? (word : List Char) : Option Terminal :=
  (statementKeyword? word).or (literalKeyword? word)

/-- A word and the number of its further characters. It is a keyword if it is one of those
that count here. -/
def scanWord (keyword? : List Char → Option Terminal) (character : Char) (rest : List Char) :
    Terminal × Nat :=
  let others := rest.takeWhile isNameCharacter
  ((keyword? (character :: others)).getD .name, others.length)

def scanPair (second : Char) (pair : Terminal) (single : Option Terminal) (rest : List Char) :
    Option (Terminal × Nat) :=
  if rest.head? = some second then some (pair, 1) else single.map (·, 0)

def scanAny (character : Char) (rest : List Char) : Option (Terminal × Nat) :=
  if isNameStart character then some (scanWord anyKeyword? character rest)
  else if Text.isDigit character then some (.number, numeralExtent rest)
  else match character with
    | '<' | '>' => scanPair '=' .relation (some .relation) rest
    | '=' => scanPair '=' .relation (some .equal) rest
    | '!' => scanPair '=' .relation (some .sign) rest
    | '&' => scanPair '&' .conjunction none rest
    | '|' => scanPair '|' .disjunction none rest
    | '*' => scanPair '*' .power (some .product) rest
    | '/' | '%' => some (.product, 0)
    | '+' | '-' => some (.sum, 0)
    | ':' => some (.colon, 0)
    | ',' => some (.comma, 0)
    | '(' => some (.leftParenthesis, 0)
    | '[' => some (.leftBracket, 0)
    | '?' => some (.question, 0)
    | ')' => some (.rightParenthesis, 0)
    | ']' => some (.rightBracket, 0)
    | ';' => some (.semicolon, 0)
    | other =>
        if other = Char.ofNat 0x7b then some (.leftBrace, 0)
        else if other = Char.ofNat 0x7d then some (.rightBrace, 0)
        else none

inductive Place where
  | statement
  | name
  | equal
  | operand
  | other
deriving DecidableEq

/-- The terminal at the front of the text at a place. A terminal that the place does not look
for is found by looking for any. -/
def Place.scan (place : Place) (character : Char) (rest : List Char) : Option (Terminal × Nat) :=
  match place with
  | .statement =>
      if isNameStart character then some (scanWord statementKeyword? character rest)
      else scanAny character rest
  | .name =>
      if isNameStart character then some (scanWord (fun _ => none) character rest)
      else scanAny character rest
  | .equal => if character = '=' then some (.equal, 0) else scanAny character rest
  | .operand =>
      if isNameStart character then some (scanWord literalKeyword? character rest)
      else if character = '-' ∨ character = '!' then some (.sign, 0)
      else scanAny character rest
  | .other => scanAny character rest

end Bella.Source
