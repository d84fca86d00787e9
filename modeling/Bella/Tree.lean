import Bella.Datum

/-! Syntax trees. Source text only makes trees of a certain shape, but a stored tree may
combine nodes freely and carry any datum as a name, an operator or a numeral; evaluation gives
each such tree a meaning, often a fault. -/

namespace Bella

inductive Node where
  | numeral (value : Datum)
  | booleanLiteral (value : Bool)
  | identifier (name : Datum)
  | unaryExpression (operator : Datum) (expression : Node)
  | binaryExpression (operator : Datum) (left right : Node)
  | conditionalExpression (test consequent alternate : Node)
  | arrayLiteral (elements : List Node)
  | subscriptExpression (array subscript : Node)
  | call (callee : Node) (arguments : List Node)
  | variableDeclaration (id initializer : Node)
  | functionDeclaration (id : Node) (parameters : List Node) (body : Node)
  | assignment (target source : Node)
  | printStatement (expression : Node)
  | whileStatement (test body : Node)
  | block (statements : List Node)
  | program (block : Node)
deriving Inhabited

namespace Node

def className : Node → String
  | .numeral _ => "Numeral"
  | .booleanLiteral _ => "BooleanLiteral"
  | .identifier _ => "Identifier"
  | .unaryExpression _ _ => "UnaryExpression"
  | .binaryExpression _ _ _ => "BinaryExpression"
  | .conditionalExpression _ _ _ => "ConditionalExpression"
  | .arrayLiteral _ => "ArrayLiteral"
  | .subscriptExpression _ _ => "SubscriptExpression"
  | .call _ _ => "Call"
  | .variableDeclaration _ _ => "VariableDeclaration"
  | .functionDeclaration _ _ _ => "FunctionDeclaration"
  | .assignment _ _ => "Assignment"
  | .printStatement _ => "PrintStatement"
  | .whileStatement _ _ => "WhileStatement"
  | .block _ => "Block"
  | .program _ => "Program"

def name? : Node → Option Datum
  | .identifier name => some name
  | _ => none

def statements? : Node → Option (List Node)
  | .block statements => some statements
  | _ => none

def block? : Node → Option Node
  | .program body => some body
  | _ => none

end Node

end Bella
