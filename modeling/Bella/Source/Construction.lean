import Bella.Source.Terminal
import Bella.Tree
import Bella.Number.Reading

/-! A program under construction: what the terminals read so far have made, and what they wait
for. One terminal after another is added to it; a terminal that no continuation could have at
its place is refused at once. -/

namespace Bella.Source

inductive Strength where
  | disjunction
  | conjunction
  | relation
  | sum
  | product
  | power
deriving DecidableEq

namespace Strength

def rank : Strength → Nat
  | .disjunction => 0
  | .conjunction => 1
  | .relation => 2
  | .sum => 3
  | .product => 4
  | .power => 5

/-- Whether an operator takes the finished operand of an earlier one as its left operand.
Operators of one strength associate to the left, powers to the right, and relations not at
all. -/
def follows (later earlier : Strength) : Bool :=
  decide (later.rank < earlier.rank)
    || (decide (later = earlier) && later != .power && later != .relation)

end Strength

def Terminal.strength? : Terminal → Option Strength
  | .disjunction => some .disjunction
  | .conjunction => some .conjunction
  | .relation => some .relation
  | .sum => some .sum
  | .product => some .product
  | .power => some .power
  | _ => none

inductive Frame where
  | unary (operator : String)
  | binary (strength : Strength) (operator : String) (left : Node)
  | test (condition : Node)
  | alternative (condition consequent : Node)
  | group
  | subscript (array : Node)
  | call (callee : String) (arguments : List Node)
  | array (elements : List Node)

inductive Purpose where
  | declaration (name : String)
  | function (name : String) (parameters : List String)
  | assignment (name : String)
  | print
  | guard

inductive Stage where
  | statement
  | letName
  | letEqual (name : String)
  | funName
  | funOpening (name : String)
  | parameter (name : String) (parameters : List String)
  | parameterEnd (name : String) (parameters : List String)
  | funEqual (name : String) (parameters : List String)
  | targetEqual (name : String)
  | operand (purpose : Purpose) (frames : List Frame)
  | operator (purpose : Purpose) (frames : List Frame) (operand : Node) (callee : Option String)

def Stage.place : Stage → Place
  | .statement => .statement
  | .letName | .funName | .parameter _ _ => .name
  | .letEqual _ | .funEqual _ _ | .targetEqual _ => .equal
  | .operand _ _ => .operand
  | .funOpening _ | .parameterEnd _ _ | .operator _ _ _ _ => .other

structure OpenLoop where
  test : Node
  before : List Node

structure Construction where
  loops : List OpenLoop
  statements : List Node
  stage : Stage

namespace Construction

def identifier (name : String) : Node :=
  .identifier (.text name)

def unary (operator : String) (operand : Node) : Node :=
  .unaryExpression (.text operator) operand

def binary (operator : String) (left right : Node) : Node :=
  .binaryExpression (.text operator) left right

def endBefore (strength : Strength) : List Frame → Node → List Frame × Node
  | .unary operator :: frames, operand => endBefore strength frames (unary operator operand)
  | .binary earlier operator left :: frames, operand =>
      if strength.follows earlier then endBefore strength frames (binary operator left operand)
      else (.binary earlier operator left :: frames, operand)
  | frames, operand => (frames, operand)

def endOperators : List Frame → Node → List Frame × Node
  | .unary operator :: frames, operand => endOperators frames (unary operator operand)
  | .binary _ operator left :: frames, operand => endOperators frames (binary operator left operand)
  | frames, operand => (frames, operand)

def endExpression : List Frame → Node → List Frame × Node
  | .unary operator :: frames, operand => endExpression frames (unary operator operand)
  | .binary _ operator left :: frames, operand =>
      endExpression frames (binary operator left operand)
  | .alternative condition consequent :: frames, operand =>
      endExpression frames (.conditionalExpression condition consequent operand)
  | frames, operand => (frames, operand)

def addOperand (purpose : Purpose) (frames : List Frame) (terminal : Terminal)
    (lexeme : List Char) : Option Stage :=
  match terminal with
  | .number => some (.operator purpose frames (.numeral (.real (Number.ofNumeral lexeme))) none)
  | .trueKeyword => some (.operator purpose frames (.booleanLiteral true) none)
  | .falseKeyword => some (.operator purpose frames (.booleanLiteral false) none)
  | .name =>
      let name := String.ofList lexeme
      some (.operator purpose frames (identifier name) (some name))
  | .sign => some (.operand purpose (.unary (String.ofList lexeme) :: frames))
  | .leftParenthesis => some (.operand purpose (.group :: frames))
  | .leftBracket => some (.operand purpose (.array [] :: frames))
  | .rightParenthesis =>
      match frames with
      | .call callee [] :: outer =>
          some (.operator purpose outer (.call (identifier callee) []) none)
      | _ => none
  | .rightBracket =>
      match frames with
      | .array [] :: outer => some (.operator purpose outer (.arrayLiteral []) none)
      | _ => none
  | _ => none

def addBinary (purpose : Purpose) (frames : List Frame) (operand : Node) (strength : Strength)
    (operator : String) : Option Stage :=
  let (outer, left) := endBefore strength frames operand
  match strength, outer with
  | .relation, .binary .relation _ _ :: _ => none
  | _, _ => some (.operand purpose (.binary strength operator left :: outer))

/-- A terminal after an operand, other than those that end the whole expression. A condition
cannot stand between a question mark and its colon unless it is in parentheses. -/
def addOperator (purpose : Purpose) (frames : List Frame) (operand : Node)
    (callee : Option String) (terminal : Terminal) (lexeme : List Char) : Option Stage :=
  match terminal.strength? with
  | some strength => addBinary purpose frames operand strength (String.ofList lexeme)
  | none =>
      match terminal with
      | .leftParenthesis =>
          callee.map fun name => .operand purpose (.call name [] :: frames)
      | .leftBracket => some (.operand purpose (.subscript operand :: frames))
      | .question =>
          match endOperators frames operand with
          | (.test _ :: _, _) => none
          | (outer, condition) => some (.operand purpose (.test condition :: outer))
      | .colon =>
          match endOperators frames operand with
          | (.test condition :: outer, consequent) =>
              some (.operand purpose (.alternative condition consequent :: outer))
          | _ => none
      | .comma =>
          match endExpression frames operand with
          | (.call name arguments :: outer, last) =>
              some (.operand purpose (.call name (last :: arguments) :: outer))
          | (.array elements :: outer, last) =>
              some (.operand purpose (.array (last :: elements) :: outer))
          | _ => none
      | .rightParenthesis =>
          match endExpression frames operand with
          | (.group :: outer, inner) => some (.operator purpose outer inner none)
          | (.call name arguments :: outer, last) =>
              some (.operator purpose outer
                (.call (identifier name) (last :: arguments).reverse) none)
          | _ => none
      | .rightBracket =>
          match endExpression frames operand with
          | (.subscript array :: outer, inner) =>
              some (.operator purpose outer (.subscriptExpression array inner) none)
          | (.array elements :: outer, last) =>
              some (.operator purpose outer (.arrayLiteral (last :: elements).reverse) none)
          | _ => none
      | _ => none

def finishStatement : Purpose → Node → Option Node
  | .declaration name, value => some (.variableDeclaration (identifier name) value)
  | .function name parameters, body =>
      some (.functionDeclaration (identifier name) (parameters.map identifier) body)
  | .assignment name, value => some (.assignment (identifier name) value)
  | .print, value => some (.printStatement value)
  | .guard, _ => none

def atStage (construction : Construction) (stage : Stage) : Construction :=
  { construction with stage := stage }

def addStatement (construction : Construction) (terminal : Terminal) (lexeme : List Char) :
    Option Construction :=
  match terminal with
  | .letKeyword => some (construction.atStage .letName)
  | .funKeyword => some (construction.atStage .funName)
  | .printKeyword => some (construction.atStage (.operand .print []))
  | .whileKeyword => some (construction.atStage (.operand .guard []))
  | .name => some (construction.atStage (.targetEqual (String.ofList lexeme)))
  | .rightBrace =>
      match construction.loops with
      | loop :: outer =>
          let body := Node.block construction.statements.reverse
          some ⟨outer, .whileStatement loop.test body :: loop.before, .statement⟩
      | [] => none
  | _ => none

def endStatement (construction : Construction) (purpose : Purpose) (frames : List Frame)
    (operand : Node) (terminal : Terminal) : Option Construction :=
  match endExpression frames operand with
  | ([], expression) =>
      match terminal, purpose with
      | .leftBrace, .guard =>
          some ⟨⟨expression, construction.statements⟩ :: construction.loops, [], .statement⟩
      | .semicolon, _ =>
          (finishStatement purpose expression).map fun statement =>
            ⟨construction.loops, statement :: construction.statements, .statement⟩
      | _, _ => none
  | _ => none

def add (construction : Construction) (terminal : Terminal) (lexeme : List Char) :
    Option Construction :=
  match construction.stage with
  | .statement => construction.addStatement terminal lexeme
  | .letName =>
      if terminal = .name then some (construction.atStage (.letEqual (String.ofList lexeme)))
      else none
  | .letEqual name =>
      if terminal = .equal then some (construction.atStage (.operand (.declaration name) []))
      else none
  | .funName =>
      if terminal = .name then some (construction.atStage (.funOpening (String.ofList lexeme)))
      else none
  | .funOpening name =>
      if terminal = .leftParenthesis then some (construction.atStage (.parameter name []))
      else none
  | .parameter name parameters =>
      if terminal = .name then
        some (construction.atStage (.parameterEnd name (String.ofList lexeme :: parameters)))
      else if terminal = .rightParenthesis ∧ parameters = [] then
        some (construction.atStage (.funEqual name []))
      else none
  | .parameterEnd name parameters =>
      if terminal = .comma then some (construction.atStage (.parameter name parameters))
      else if terminal = .rightParenthesis then
        some (construction.atStage (.funEqual name parameters.reverse))
      else none
  | .funEqual name parameters =>
      if terminal = .equal then
        some (construction.atStage (.operand (.function name parameters) []))
      else none
  | .targetEqual name =>
      if terminal = .equal then some (construction.atStage (.operand (.assignment name) []))
      else none
  | .operand purpose frames =>
      (addOperand purpose frames terminal lexeme).map construction.atStage
  | .operator purpose frames operand callee =>
      if terminal = .semicolon ∨ terminal = .leftBrace then
        construction.endStatement purpose frames operand terminal
      else (addOperator purpose frames operand callee terminal lexeme).map construction.atStage

def empty : Construction := ⟨[], [], .statement⟩

def finish? (construction : Construction) : Option Node :=
  match construction with
  | ⟨[], last :: earlier, .statement⟩ => some (.program (.block (last :: earlier).reverse))
  | _ => none

end Construction

end Bella.Source
