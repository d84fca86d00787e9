import Bella.Operator
import Bella.Scope
import Bella.Trace

/-! Evaluation of expressions. Operands, elements and arguments are evaluated from left to
right, always all of them, before anything is asked of their kinds. A call evaluates the body
of a function in the scope of the call, extended by the parameters. -/

namespace Bella

def checkArity (callee : Datum) (expected given : Nat) : Except Fault Unit :=
  if given = expected then .ok () else .error (.misuse (.wrongArity callee expected given))

abbrev Application := Value → List Value → Scope → Traced Value

mutual

def evaluate (apply : Application) (scope : Scope) : Node → Traced Value
  | .numeral value => .ofExcept ((numeralValue value).map .number)
  | .booleanLiteral value => pure (.boolean value)
  | .identifier name => .ofExcept (scope.get name)
  | .unaryExpression operator expression => do
      let operand ← evaluate apply scope expression
      .ofExcept (unaryResult operator operand)
  | .binaryExpression operator left right => do
      let leftValue ← evaluate apply scope left
      let rightValue ← evaluate apply scope right
      .ofExcept (binaryResult operator leftValue rightValue)
  | .conditionalExpression test consequent alternate => do
      match ← evaluate apply scope test with
      | .boolean true => evaluate apply scope consequent
      | .boolean false => evaluate apply scope alternate
      | other => .fail (.misuse (.testKind other.kind))
  | .arrayLiteral elements => do
      let items ← evaluateAll apply scope elements
      return .array items
  | .subscriptExpression array subscript => do
      let arrayValue ← evaluate apply scope array
      let subscriptValue ← evaluate apply scope subscript
      .ofExcept (subscriptResult arrayValue subscriptValue)
  | .call callee arguments =>
      match callee.name? with
      | none => .fail .missingPart
      | some name => do
          let key ← Traced.ofExcept (Scope.keyOf name)
          let values ← evaluateAll apply scope arguments
          match scope.find? key with
          | none => .fail (.misuse (.unbound name))
          | some function => apply function values scope
  | other => .fail (.notAnExpression other.className)

def evaluateAll (apply : Application) (scope : Scope) : List Node → Traced (List Value)
  | [] => pure []
  | node :: rest => do
      let value ← evaluate apply scope node
      let values ← evaluateAll apply scope rest
      return value :: values

end

def bindParameters (parameters : List Datum) (arguments : List Value) :
    Except Fault (List (Key × Value)) :=
  (parameters.zip arguments).mapM fun (parameter, argument) => do
    return (← Scope.keyOf parameter, argument)

def applyFunction (level : Nat) : (depth : Nat) → Application
  | _, .builtin builtin, arguments, _ => do
      .ofExcept (checkArity (.text builtin.name) builtin.arity arguments.length)
      .note level (.calledBuiltin builtin arguments)
      .ofExcept (builtinResult builtin arguments)
  | depth, .function name parameters body, arguments, scope => do
      .ofExcept (checkArity name parameters.length arguments.length)
      .note level (.called name arguments)
      let bindings ← Traced.ofExcept (bindParameters parameters arguments)
      match depth with
      | 0 => .fail .recursionTooDeep
      | depth + 1 => evaluate (applyFunction level depth) (scope.extend bindings) body
  | _, other, _, _ => .fail (.misuse (.notCallable other))

end Bella
