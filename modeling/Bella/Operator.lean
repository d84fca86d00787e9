import Bella.Fault
import Bella.Number.Reading

/-! The primitive operations on values: numerals, unary and binary operators, subscripts, and the
built-in functions. Each either has a value or a fault, and none depends on a scope. -/

namespace Bella

def withinRange : Number → Except Fault Number
  | .infinite _ => .error .oversizedNumeral
  | number => .ok number

def numeralValue : Datum → Except Fault Number
  | .real value => .ok value
  | .boolean value => .ok (Number.ofNat (if value then 1 else 0))
  | .integer value => withinRange (Number.ofInt value)
  | .labelledNan _ => .ok .nan
  | .text value =>
      match value.string?.bind Number.read? with
      | some number => .ok number
      | none => .error .unreadableNumeral
  | .null | .list _ | .object _ => .error .unusableNumeral

def unaryResult (operator : Datum) (operand : Value) : Except Fault Value :=
  match operator.string? with
  | some "-" =>
      match operand with
      | .number value => .ok (.number value.negate)
      | other => .error (.misuse (.negated other.kind))
  | some "!" =>
      match operand with
      | .boolean value => .ok (.boolean !value)
      | other => .error (.misuse (.inverted other.kind))
  | _ => .error (.misuse (.unknownUnary operator))

inductive NumberOperator where
  | add
  | subtract
  | multiply
  | divide
  | remainder
  | power
  | greater
  | less
  | greaterOrEqual
  | lessOrEqual
  | equal
  | notEqual
deriving DecidableEq

def NumberOperator.ofText? (operator : String) : Option NumberOperator :=
  match operator with
  | "+" => some .add
  | "-" => some .subtract
  | "*" => some .multiply
  | "/" => some .divide
  | "%" => some .remainder
  | "**" => some .power
  | ">" => some .greater
  | "<" => some .less
  | ">=" => some .greaterOrEqual
  | "<=" => some .lessOrEqual
  | "==" => some .equal
  | "!=" => some .notEqual
  | _ => none

def hostNumber (result : Except Refusal Number) : Except Fault Value :=
  (result.map .number).mapError .refused

def NumberOperator.apply (operator : NumberOperator) (left right : Number) : Except Fault Value :=
  match operator with
  | .add => .ok (.number (left.add right))
  | .subtract => .ok (.number (left.subtract right))
  | .multiply => .ok (.number (left.multiply right))
  | .divide =>
      if right.isZero then .error (.misuse .divisionByZero)
      else hostNumber (Host.divide left right)
  | .remainder => hostNumber (RealMath.remainder left right)
  | .power => hostNumber (RealMath.power left right)
  | .greater => .ok (.boolean (right.less left))
  | .less => .ok (.boolean (left.less right))
  | .greaterOrEqual => .ok (.boolean (right.lessOrEqual left))
  | .lessOrEqual => .ok (.boolean (left.lessOrEqual right))
  | .equal => .ok (.boolean (left.equal right))
  | .notEqual => .ok (.boolean (!left.equal right))

def truthOperator? (operator : String) : Option (Bool → Bool → Bool) :=
  match operator with
  | "&&" => some and
  | "||" => some or
  | _ => none

/-- An operator is classified before the kinds of its operands are looked at. -/
def binaryResult (operator : Datum) (left right : Value) : Except Fault Value :=
  match operator.string? with
  | some symbol =>
      match NumberOperator.ofText? symbol, truthOperator? symbol with
      | some onNumbers, _ =>
          match left, right with
          | .number leftNumber, .number rightNumber => onNumbers.apply leftNumber rightNumber
          | _, _ => .error (.misuse (.numericalOperands symbol left.kind right.kind))
      | none, some onTruths =>
          match left, right with
          | .boolean leftTruth, .boolean rightTruth =>
              .ok (.boolean (onTruths leftTruth rightTruth))
          | _, _ => .error (.misuse (.booleanOperands symbol left.kind right.kind))
      | none, none => .error (.misuse (.unknownBinary operator))
  | none => .error (.misuse (.unknownBinary operator))

def itemAt (items : List Value) (subscript : Number) : Except Refusal (Option Value) := do
  if (Number.zero false).lessOrEqual subscript && Host.lessThanWhole subscript items.length then
    let whole ← Host.truncate subscript
    if Host.equalsWhole subscript whole then
      let index ← Host.truncate subscript
      return some (← Host.item items index)
  return none

/-- The array is checked before the subscript, and only a whole number below the length is a
subscript; a negative zero is one. -/
def subscriptResult (array subscript : Value) : Except Fault Value :=
  match array, subscript with
  | .array items, .number number =>
      match itemAt items number with
      | .ok (some item) => .ok item
      | .ok none => .error (.misuse (.outOfBounds number items.length))
      | .error refusal => .error (.refused refusal)
  | .array _, other => .error (.misuse (.subscriptKind other.kind))
  | other, _ => .error (.misuse (.subscripted other.kind))

def numbersOf (builtin : Builtin) : List Value → Except Fault (List Number)
  | [] => .ok []
  | .number value :: rest => (numbersOf builtin rest).map (value :: ·)
  | other :: _ => .error (.misuse (.argumentKind builtin other.kind))

def builtinResult (builtin : Builtin) (arguments : List Value) : Except Fault Value := do
  let numbers ← numbersOf builtin arguments
  hostNumber (builtin.compute numbers)

end Bella
