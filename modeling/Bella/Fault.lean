import Bella.Value

/-! What may stop an evaluation. A misuse is an error of the language and has a kind and a
message. The other faults come from trees that no source text makes, or from a run that does
not end within its budget. -/

namespace Bella

inductive Misuse where
  | unbound (name : Datum)
  | alreadyDeclared (name : Datum)
  | assignedFunction (name : Datum)
  | assignedConstant (name : Datum)
  | negated (kind : Kind)
  | inverted (kind : Kind)
  | numericalOperands (operator : String) (left right : Kind)
  | booleanOperands (operator : String) (left right : Kind)
  | testKind (kind : Kind)
  | subscripted (kind : Kind)
  | subscriptKind (kind : Kind)
  | argumentKind (builtin : Builtin) (kind : Kind)
  | unknownUnary (operator : Datum)
  | unknownBinary (operator : Datum)
  | divisionByZero
  | outOfBounds (subscript : Number) (length : Nat)
  | wrongArity (callee : Datum) (expected given : Nat)
  | repeatedParameter (parameter function : Datum)
  | notCallable (callee : Value)

namespace Misuse

def kind : Misuse → String
  | .unbound _ => "UnboundIdentifier"
  | .alreadyDeclared _ => "DuplicateDeclaration"
  | .assignedFunction _ | .assignedConstant _ => "NotAssignable"
  | .negated _ | .inverted _ | .numericalOperands _ _ _ | .booleanOperands _ _ _ | .testKind _
  | .subscripted _ | .subscriptKind _ | .argumentKind _ _ => "TypeMismatch"
  | .unknownUnary _ | .unknownBinary _ => "UnknownOperator"
  | .divisionByZero => "DivisionByZero"
  | .outOfBounds _ _ => "OutOfBounds"
  | .wrongArity _ _ _ => "ArityMismatch"
  | .repeatedParameter _ _ => "RepeatedParameter"
  | .notCallable _ => "NotCallable"

def message : Misuse → Text
  | .unbound name => "Identifier " ++ name.display ++ " has not been declared"
  | .alreadyDeclared name => "Identifier " ++ name.display ++ " has already been declared"
  | .assignedFunction name => "Cannot assign to function " ++ name.display
  | .assignedConstant name => "Cannot assign to built-in constant " ++ name.display
  | .negated kind => "Expected number to negate, got " ++ kind.label
  | .inverted kind => "Expected boolean to negate, got " ++ kind.label
  | .numericalOperands operator left right =>
      "Expected numerical arguments for operator " ++ operator ++ ", got " ++ left.label ++ " and "
        ++ right.label
  | .booleanOperands operator left right =>
      "Expected boolean arguments for operator " ++ operator ++ ", got " ++ left.label ++ " and "
        ++ right.label
  | .testKind kind => "Expected boolean as test in conditional expression, got " ++ kind.label
  | .subscripted kind => "Expected array to subscript, got " ++ kind.label
  | .subscriptKind kind => "Expected number as subscript, got " ++ kind.label
  | .argumentKind builtin kind => builtin.name ++ " expects Number arguments, got " ++ kind.label
  | .unknownUnary operator =>
      "Unknown operator " ++ operator.display ++ " for unary expression"
  | .unknownBinary operator =>
      "Unknown operator " ++ operator.display ++ " for binary expression"
  | .divisionByZero => "Division by zero"
  | .outOfBounds subscript length =>
      "Subscript " ++ subscript.text ++ " out of bounds for array of length " ++ toString length
  | .wrongArity callee expected given =>
      callee.display ++ " expects " ++ toString expected ++ " arguments, got " ++ toString given
  | .repeatedParameter parameter function =>
      "Parameter " ++ parameter.display ++ " repeated in function declaration "
        ++ function.display
  | .notCallable callee => callee.text ++ " is not a function"

def report (misuse : Misuse) : Text :=
  "BellaError: " ++ misuse.kind ++ ": " ++ misuse.message

end Misuse

inductive Fault where
  | misuse (cause : Misuse)
  | notAnExpression (className : String)
  | notAStatement (className : String)
  /-- A node stands where one with a name, statements or a block is needed. -/
  | missingPart
  /-- A list or object is no name. -/
  | unusableName
  /-- A trace line is to hold a parameter name that is no text. -/
  | untraceableName
  /-- A line or a message is to hold an integer of too many digits. -/
  | overlongInteger
  /-- A line is to hold half of a surrogate pair. -/
  | unencodableText
  | unusableNumeral
  | unreadableNumeral
  | oversizedNumeral
  | refused (cause : Refusal)
  | recursionTooDeep
  | loopTooLong

def Fault.message? : Fault → Option Text
  | .misuse cause => some cause.message
  | .notAnExpression className => some ("evaluate: unexpected node type " ++ className)
  | .notAStatement className => some ("execute: unexpected node type " ++ className)
  | _ => none

end Bella
