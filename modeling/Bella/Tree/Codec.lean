import Bella.Tree

/-! Stored trees. Every node is an object whose member `type` names the class of the node and
whose other members are its parts, in a fixed order. Reading reports the first part that is
wrong, and passes over members that the class does not have. -/

namespace Bella.Node

def encoded (name : String) (parts : List (Text × Datum)) : Datum :=
  .object (("type", .text name) :: parts)

mutual

def encode : Node → Datum
  | .numeral value => encoded "Numeral" [("value", value)]
  | .booleanLiteral value => encoded "BooleanLiteral" [("value", .boolean value)]
  | .identifier name => encoded "Identifier" [("name", name)]
  | .unaryExpression operator expression =>
      encoded "UnaryExpression" [("operator", operator), ("expression", encode expression)]
  | .binaryExpression operator left right =>
      encoded "BinaryExpression"
        [("operator", operator), ("left", encode left), ("right", encode right)]
  | .conditionalExpression test consequent alternate =>
      encoded "ConditionalExpression"
        [("test", encode test), ("consequent", encode consequent), ("alternate", encode alternate)]
  | .arrayLiteral elements => encoded "ArrayLiteral" [("elements", .list (encodeAll elements))]
  | .subscriptExpression array subscript =>
      encoded "SubscriptExpression" [("array", encode array), ("subscript", encode subscript)]
  | .call callee arguments =>
      encoded "Call" [("callee", encode callee), ("args", .list (encodeAll arguments))]
  | .variableDeclaration id initializer =>
      encoded "VariableDeclaration" [("id", encode id), ("initializer", encode initializer)]
  | .functionDeclaration id parameters body =>
      encoded "FunctionDeclaration"
        [("id", encode id), ("parameters", .list (encodeAll parameters)), ("body", encode body)]
  | .assignment target source =>
      encoded "Assignment" [("target", encode target), ("source", encode source)]
  | .printStatement expression => encoded "PrintStatement" [("expression", encode expression)]
  | .whileStatement test body =>
      encoded "WhileStatement" [("test", encode test), ("body", encode body)]
  | .block statements => encoded "Block" [("statements", .list (encodeAll statements))]
  | .program body => encoded "Program" [("block", encode body)]

def encodeAll : List Node → List Datum
  | [] => []
  | node :: rest => encode node :: encodeAll rest

end

inductive DecodeError where
  | notAnObject
  | missingMember (name : String)
  | unknownClass (type : Datum)
  | notAList

def DecodeError.message? : DecodeError → Option Text
  | .notAnObject => some "Invalid AST object"
  | .missingMember name => some name
  | .unknownClass type => some ("Unknown AST node type: " ++ type.display)
  | .notAList => none

structure Part where
  name : Text
  datum : Datum
  node : Except DecodeError Node
  nodes : Except DecodeError (List Node)

def findPart (parts : List Part) (name : String) : Except DecodeError Part :=
  match parts.find? fun part => part.name == Text.ofString name with
  | some part => .ok part
  | none => .error (.missingMember name)

def datumPart (parts : List Part) (name : String) : Except DecodeError Datum :=
  (findPart parts name).map (·.datum)

def nodePart (parts : List Part) (name : String) : Except DecodeError Node :=
  (findPart parts name).bind (·.node)

def nodesPart (parts : List Part) (name : String) : Except DecodeError (List Node) :=
  (findPart parts name).bind (·.nodes)

def assemble (type : Datum) (parts : List Part) : Except DecodeError Node :=
  match type.string? with
  | some "Program" => do
      return .program (← nodePart parts "block")
  | some "Block" => do
      return .block (← nodesPart parts "statements")
  | some "VariableDeclaration" => do
      return .variableDeclaration (← nodePart parts "id") (← nodePart parts "initializer")
  | some "FunctionDeclaration" => do
      return .functionDeclaration (← nodePart parts "id") (← nodesPart parts "parameters")
        (← nodePart parts "body")
  | some "Assignment" => do
      return .assignment (← nodePart parts "target") (← nodePart parts "source")
  | some "PrintStatement" => do
      return .printStatement (← nodePart parts "expression")
  | some "WhileStatement" => do
      return .whileStatement (← nodePart parts "test") (← nodePart parts "body")
  | some "Numeral" => do
      return .numeral (← datumPart parts "value")
  | some "BooleanLiteral" => do
      return .booleanLiteral (← datumPart parts "value").holds
  | some "Identifier" => do
      return .identifier (← datumPart parts "name")
  | some "UnaryExpression" => do
      return .unaryExpression (← datumPart parts "operator") (← nodePart parts "expression")
  | some "BinaryExpression" => do
      return .binaryExpression (← datumPart parts "operator") (← nodePart parts "left")
        (← nodePart parts "right")
  | some "ConditionalExpression" => do
      return .conditionalExpression (← nodePart parts "test") (← nodePart parts "consequent")
        (← nodePart parts "alternate")
  | some "ArrayLiteral" => do
      return .arrayLiteral (← nodesPart parts "elements")
  | some "SubscriptExpression" => do
      return .subscriptExpression (← nodePart parts "array") (← nodePart parts "subscript")
  | some "Call" => do
      return .call (← nodePart parts "callee") (← nodesPart parts "args")
  | _ => .error (.unknownClass type)

mutual

def decode : Datum → Except DecodeError Node
  | .object members =>
      assemble ((Datum.member? members "type").getD .null) (decodeMembers members)
  | _ => .error .notAnObject

def decodeMembers : List (Text × Datum) → List Part
  | [] => []
  | (name, value) :: rest =>
      { name := name, datum := value, node := decode value, nodes := decodeItems value }
        :: decodeMembers rest

/-- A text stands for the list of its characters and an object for that of its names. None of
these is an object, so only an empty one is a list of nodes. -/
def decodeItems : Datum → Except DecodeError (List Node)
  | .list items => decodeAll items
  | .text value => if value.isEmpty then .ok [] else .error .notAnObject
  | .object members => if members.isEmpty then .ok [] else .error .notAnObject
  | _ => .error .notAList

def decodeAll : List Datum → Except DecodeError (List Node)
  | [] => .ok []
  | item :: rest => do
      let node ← decode item
      let nodes ← decodeAll rest
      return node :: nodes

end

end Bella.Node
