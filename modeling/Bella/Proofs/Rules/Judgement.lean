import Bella.Proofs.Lookup

/-! The rules of evaluation and execution. Each rule says how one construct ends when its parts end
in a certain way: with a value, or with a misuse. A computation without end is one that no rules
derive an outcome of. -/

namespace Bella

abbrev Outcome (α : Type) :=
  Except Misuse α

inductive UnaryRule : Datum → Value → Outcome Value → Prop
  | negate (number : Number) :
      UnaryRule (.text "-") (.number number) (.ok (.number number.negate))
  | negateMismatch {operand : Value} (mismatch : operand.kind ≠ .number) :
      UnaryRule (.text "-") operand (.error (.negated operand.kind))
  | invert (truth : Bool) :
      UnaryRule (.text "!") (.boolean truth) (.ok (.boolean !truth))
  | invertMismatch {operand : Value} (mismatch : operand.kind ≠ .boolean) :
      UnaryRule (.text "!") operand (.error (.inverted operand.kind))
  | unknown {operator : Datum} {operand : Value} (noMinus : operator ≠ .text "-")
      (noBang : operator ≠ .text "!") :
      UnaryRule operator operand (.error (.unknownUnary operator))

def numericOperators : List String :=
  ["+", "-", "*", "/", "%", "**", ">", "<", ">=", "<=", "==", "!="]

def booleanOperators : List String :=
  ["&&", "||"]

inductive NumberRule : String → Number → Number → Outcome Value → Prop
  | add (left right : Number) : NumberRule "+" left right (.ok (.number (left.add right)))
  | subtract (left right : Number) :
      NumberRule "-" left right (.ok (.number (left.subtract right)))
  | multiply (left right : Number) :
      NumberRule "*" left right (.ok (.number (left.multiply right)))
  | divide {left right : Number} (nonzero : right.isZero = false) :
      NumberRule "/" left right (.ok (.number (left.divide right)))
  | divideByZero {left right : Number} (zero : right.isZero = true) :
      NumberRule "/" left right (.error .divisionByZero)
  | remainder (left right : Number) :
      NumberRule "%" left right (.ok (.number (left.remainder right)))
  | power (left right : Number) : NumberRule "**" left right (.ok (.number (left.power right)))
  | greater (left right : Number) : NumberRule ">" left right (.ok (.boolean (right.less left)))
  | less (left right : Number) : NumberRule "<" left right (.ok (.boolean (left.less right)))
  | greaterOrEqual (left right : Number) :
      NumberRule ">=" left right (.ok (.boolean (right.lessOrEqual left)))
  | lessOrEqual (left right : Number) :
      NumberRule "<=" left right (.ok (.boolean (left.lessOrEqual right)))
  | equal (left right : Number) : NumberRule "==" left right (.ok (.boolean (left.equal right)))
  | notEqual (left right : Number) :
      NumberRule "!=" left right (.ok (.boolean (!left.equal right)))

inductive BinaryRule : Datum → Value → Value → Outcome Value → Prop
  | numbers {symbol : String} {left right : Number} {outcome : Outcome Value}
      (rule : NumberRule symbol left right outcome) :
      BinaryRule (.text symbol) (.number left) (.number right) outcome
  | numericMismatch {symbol : String} {left right : Value} (numeric : symbol ∈ numericOperators)
      (mismatch : left.kind ≠ .number ∨ right.kind ≠ .number) :
      BinaryRule (.text symbol) left right
        (.error (.numericalOperands symbol left.kind right.kind))
  | conjunction (left right : Bool) :
      BinaryRule (.text "&&") (.boolean left) (.boolean right) (.ok (.boolean (left && right)))
  | disjunction (left right : Bool) :
      BinaryRule (.text "||") (.boolean left) (.boolean right) (.ok (.boolean (left || right)))
  | booleanMismatch {symbol : String} {left right : Value} (boolean : symbol ∈ booleanOperators)
      (mismatch : left.kind ≠ .boolean ∨ right.kind ≠ .boolean) :
      BinaryRule (.text symbol) left right
        (.error (.booleanOperands symbol left.kind right.kind))
  | unknown {operator : Datum} {left right : Value}
      (nowhere : ∀ symbol ∈ numericOperators ++ booleanOperators, operator ≠ .text symbol) :
      BinaryRule operator left right (.error (.unknownBinary operator))

inductive SubscriptRule : Value → Value → Outcome Value → Prop
  | item {items : List Value} {subscript : Number} {index : Nat} {item : Value}
      (whole : subscript.integer? = some (index : Int)) (found : items[index]? = some item) :
      SubscriptRule (.array items) (.number subscript) (.ok item)
  | outOfBounds {items : List Value} {subscript : Number}
      (outside : ∀ index : Nat, subscript.integer? = some (index : Int) → items.length ≤ index) :
      SubscriptRule (.array items) (.number subscript)
        (.error (.outOfBounds subscript items.length))
  | subscriptMismatch {items : List Value} {subscript : Value}
      (mismatch : subscript.kind ≠ .number) :
      SubscriptRule (.array items) subscript (.error (.subscriptKind subscript.kind))
  | arrayMismatch {array subscript : Value} (mismatch : array.kind ≠ .array) :
      SubscriptRule array subscript (.error (.subscripted array.kind))

inductive BuiltinRule : Builtin → List Number → Number → Prop
  | squareRoot (number : Number) : BuiltinRule .squareRoot [number] number.squareRoot
  | sine (number : Number) : BuiltinRule .sine [number] number.sine
  | cosine (number : Number) : BuiltinRule .cosine [number] number.cosine
  | naturalLogarithm (number : Number) :
      BuiltinRule .naturalLogarithm [number] number.naturalLogarithm
  | exponential {number : Number} (bounded : Host.isInfinite number.exponential = false) :
      BuiltinRule .exponential [number] number.exponential
  | exponentialOverflow {number : Number}
      (overflow : Host.isInfinite number.exponential = true) :
      BuiltinRule .exponential [number] (.infinite false)
  | hypotenuse (left right : Number) :
      BuiltinRule .hypotenuse [left, right] (left.hypotenuse right)

mutual

/-- An expression's outcome in a scope. What fails first decides, in the order of the parts. -/
inductive Evaluates : Scope → Node → Outcome Value → Prop
  | numeral {scope : Scope} {datum : Datum} {number : Number}
      (read : numeralValue datum = .ok number) :
      Evaluates scope (.numeral datum) (.ok (.number number))
  | booleanLiteral {scope : Scope} (truth : Bool) :
      Evaluates scope (.booleanLiteral truth) (.ok (.boolean truth))
  | identifier {scope : Scope} {name : Datum} {key : Key} {value : Value}
      (named : name.key? = some key) (bound : scope.find? key = some value) :
      Evaluates scope (.identifier name) (.ok value)
  | unboundIdentifier {scope : Scope} {name : Datum} {key : Key}
      (named : name.key? = some key) (unbound : scope.find? key = none) :
      Evaluates scope (.identifier name) (.error (.unbound name))
  | operandFails {scope : Scope} {operator : Datum} {expression : Node} {misuse : Misuse}
      (failed : Evaluates scope expression (.error misuse)) :
      Evaluates scope (.unaryExpression operator expression) (.error misuse)
  | unary {scope : Scope} {operator : Datum} {expression : Node} {operand : Value}
      {outcome : Outcome Value} (evaluated : Evaluates scope expression (.ok operand))
      (rule : UnaryRule operator operand outcome) :
      Evaluates scope (.unaryExpression operator expression) outcome
  | leftFails {scope : Scope} {operator : Datum} {left right : Node} {misuse : Misuse}
      (failed : Evaluates scope left (.error misuse)) :
      Evaluates scope (.binaryExpression operator left right) (.error misuse)
  | rightFails {scope : Scope} {operator : Datum} {left right : Node} {leftValue : Value}
      {misuse : Misuse} (first : Evaluates scope left (.ok leftValue))
      (failed : Evaluates scope right (.error misuse)) :
      Evaluates scope (.binaryExpression operator left right) (.error misuse)
  | binary {scope : Scope} {operator : Datum} {left right : Node}
      {leftValue rightValue : Value} {outcome : Outcome Value}
      (first : Evaluates scope left (.ok leftValue))
      (second : Evaluates scope right (.ok rightValue))
      (rule : BinaryRule operator leftValue rightValue outcome) :
      Evaluates scope (.binaryExpression operator left right) outcome
  | testFails {scope : Scope} {test consequent alternate : Node} {misuse : Misuse}
      (failed : Evaluates scope test (.error misuse)) :
      Evaluates scope (.conditionalExpression test consequent alternate) (.error misuse)
  | consequent {scope : Scope} {test consequent alternate : Node} {outcome : Outcome Value}
      (tested : Evaluates scope test (.ok (.boolean true)))
      (branch : Evaluates scope consequent outcome) :
      Evaluates scope (.conditionalExpression test consequent alternate) outcome
  | alternate {scope : Scope} {test consequent alternate : Node} {outcome : Outcome Value}
      (tested : Evaluates scope test (.ok (.boolean false)))
      (branch : Evaluates scope alternate outcome) :
      Evaluates scope (.conditionalExpression test consequent alternate) outcome
  | testMismatch {scope : Scope} {test consequent alternate : Node} {value : Value}
      (tested : Evaluates scope test (.ok value)) (mismatch : value.kind ≠ .boolean) :
      Evaluates scope (.conditionalExpression test consequent alternate)
        (.error (.testKind value.kind))
  | elementFails {scope : Scope} {elements : List Node} {misuse : Misuse}
      (failed : EvaluatesAll scope elements (.error misuse)) :
      Evaluates scope (.arrayLiteral elements) (.error misuse)
  | arrayLiteral {scope : Scope} {elements : List Node} {items : List Value}
      (evaluated : EvaluatesAll scope elements (.ok items)) :
      Evaluates scope (.arrayLiteral elements) (.ok (.array items))
  | arrayFails {scope : Scope} {array subscript : Node} {misuse : Misuse}
      (failed : Evaluates scope array (.error misuse)) :
      Evaluates scope (.subscriptExpression array subscript) (.error misuse)
  | subscriptFails {scope : Scope} {array subscript : Node} {arrayValue : Value}
      {misuse : Misuse} (first : Evaluates scope array (.ok arrayValue))
      (failed : Evaluates scope subscript (.error misuse)) :
      Evaluates scope (.subscriptExpression array subscript) (.error misuse)
  | subscript {scope : Scope} {array subscript : Node} {arrayValue subscriptValue : Value}
      {outcome : Outcome Value} (first : Evaluates scope array (.ok arrayValue))
      (second : Evaluates scope subscript (.ok subscriptValue))
      (rule : SubscriptRule arrayValue subscriptValue outcome) :
      Evaluates scope (.subscriptExpression array subscript) outcome
  | argumentFails {scope : Scope} {name : Datum} {key : Key} {arguments : List Node}
      {misuse : Misuse} (named : name.key? = some key)
      (failed : EvaluatesAll scope arguments (.error misuse)) :
      Evaluates scope (.call (.identifier name) arguments) (.error misuse)
  | unboundCallee {scope : Scope} {name : Datum} {key : Key} {arguments : List Node}
      {values : List Value} (named : name.key? = some key)
      (evaluated : EvaluatesAll scope arguments (.ok values))
      (unbound : scope.find? key = none) :
      Evaluates scope (.call (.identifier name) arguments) (.error (.unbound name))
  | call {scope : Scope} {name : Datum} {key : Key} {arguments : List Node}
      {values : List Value} {function : Value} {outcome : Outcome Value}
      (named : name.key? = some key) (evaluated : EvaluatesAll scope arguments (.ok values))
      (bound : scope.find? key = some function)
      (applied : Applies function values scope outcome) :
      Evaluates scope (.call (.identifier name) arguments) outcome

inductive EvaluatesAll : Scope → List Node → Outcome (List Value) → Prop
  | nil {scope : Scope} : EvaluatesAll scope [] (.ok [])
  | firstFails {scope : Scope} {node : Node} {rest : List Node} {misuse : Misuse}
      (failed : Evaluates scope node (.error misuse)) :
      EvaluatesAll scope (node :: rest) (.error misuse)
  | restFails {scope : Scope} {node : Node} {rest : List Node} {value : Value} {misuse : Misuse}
      (first : Evaluates scope node (.ok value))
      (failed : EvaluatesAll scope rest (.error misuse)) :
      EvaluatesAll scope (node :: rest) (.error misuse)
  | cons {scope : Scope} {node : Node} {rest : List Node} {value : Value} {values : List Value}
      (first : Evaluates scope node (.ok value))
      (others : EvaluatesAll scope rest (.ok values)) :
      EvaluatesAll scope (node :: rest) (.ok (value :: values))

inductive Applies : Value → List Value → Scope → Outcome Value → Prop
  | builtinArity {builtin : Builtin} {arguments : List Value} {scope : Scope}
      (mismatch : arguments.length ≠ builtin.arity) :
      Applies (.builtin builtin) arguments scope
        (.error (.wrongArity (.text builtin.name) builtin.arity arguments.length))
  | builtinMismatch {builtin : Builtin} {numbers : List Number} {other : Value}
      {rest : List Value} {scope : Scope}
      (arity : (numbers.map Value.number ++ other :: rest).length = builtin.arity)
      (mismatch : other.kind ≠ .number) :
      Applies (.builtin builtin) (numbers.map .number ++ other :: rest) scope
        (.error (.argumentKind builtin other.kind))
  | builtin {builtin : Builtin} {numbers : List Number} {result : Number} {scope : Scope}
      (rule : BuiltinRule builtin numbers result) :
      Applies (.builtin builtin) (numbers.map .number) scope (.ok (.number result))
  | functionArity {name : Datum} {parameters : List Datum} {body : Node}
      {arguments : List Value} {scope : Scope}
      (mismatch : arguments.length ≠ parameters.length) :
      Applies (.function name parameters body) arguments scope
        (.error (.wrongArity name parameters.length arguments.length))
  | function {name : Datum} {parameters : List Datum} {keys : List Key} {body : Node}
      {arguments : List Value} {scope : Scope} {outcome : Outcome Value}
      (arity : arguments.length = parameters.length)
      (named : parameters.map Datum.key? = keys.map some)
      (evaluated : Evaluates (scope.extend (keys.zip arguments)) body outcome) :
      Applies (.function name parameters body) arguments scope outcome
  | notCallable {callee : Value} {arguments : List Value} {scope : Scope}
      (data : callee.isFunction = false) :
      Applies callee arguments scope (.error (.notCallable callee))

end

def parameterNode (name : Text) : Node :=
  .identifier (.text name)

mutual

/-- A statement's outcome in a state. A name is checked before the expression is evaluated. -/
inductive Executes : Node → State → Outcome State → Prop
  | duplicateVariable {name : Datum} {key : Key} {value : Value} {initializer : Node}
      {state : State} (named : name.key? = some key)
      (bound : state.scope.find? key = some value) :
      Executes (.variableDeclaration (.identifier name) initializer) state
        (.error (.alreadyDeclared name))
  | initializerFails {name : Datum} {key : Key} {initializer : Node} {state : State}
      {misuse : Misuse} (named : name.key? = some key) (fresh : state.scope.find? key = none)
      (failed : Evaluates state.scope initializer (.error misuse)) :
      Executes (.variableDeclaration (.identifier name) initializer) state (.error misuse)
  | variable {name : Datum} {key : Key} {initializer : Node} {state : State} {value : Value}
      (named : name.key? = some key) (fresh : state.scope.find? key = none)
      (evaluated : Evaluates state.scope initializer (.ok value)) :
      Executes (.variableDeclaration (.identifier name) initializer) state
        (.ok { state with scope := state.scope.bind key value })
  | duplicateFunction {name : Datum} {key : Key} {value : Value} {parameters : List Node}
      {body : Node} {state : State} (named : name.key? = some key)
      (bound : state.scope.find? key = some value) :
      Executes (.functionDeclaration (.identifier name) parameters body) state
        (.error (.alreadyDeclared name))
  | repeatedParameter {name : Datum} {key : Key} {earlier later : List Text} {repeated : Text}
      {body : Node} {state : State} (named : name.key? = some key)
      (fresh : state.scope.find? key = none) (distinct : earlier.Nodup)
      (again : repeated ∈ earlier) :
      Executes
        (.functionDeclaration (.identifier name)
          ((earlier ++ repeated :: later).map parameterNode) body)
        state (.error (.repeatedParameter (.text repeated) name))
  | function {name : Datum} {key : Key} {parameters : List Text} {body : Node} {state : State}
      (named : name.key? = some key) (fresh : state.scope.find? key = none)
      (distinct : parameters.Nodup) :
      Executes (.functionDeclaration (.identifier name) (parameters.map parameterNode) body)
        state
        (.ok { state with
          scope := state.scope.bind key (.function name (parameters.map .text) body) })
  | unboundTarget {name : Datum} {key : Key} {source : Node} {state : State}
      (named : name.key? = some key) (unbound : state.scope.find? key = none) :
      Executes (.assignment (.identifier name) source) state (.error (.unbound name))
  | functionTarget {name : Datum} {key : Key} {value : Value} {source : Node} {state : State}
      (named : name.key? = some key) (bound : state.scope.find? key = some value)
      (function : value.isFunction = true) :
      Executes (.assignment (.identifier name) source) state (.error (.assignedFunction name))
  | constantTarget {name : Datum} {key : Key} {value : Value} {source : Node} {state : State}
      (named : name.key? = some key) (bound : state.scope.find? key = some value)
      (data : value.isFunction = false) (constant : key ∈ state.scope.constants) :
      Executes (.assignment (.identifier name) source) state (.error (.assignedConstant name))
  | sourceFails {name : Datum} {key : Key} {source : Node} {state : State} {misuse : Misuse}
      (named : name.key? = some key) (assignable : state.scope.Assignable key)
      (failed : Evaluates state.scope source (.error misuse)) :
      Executes (.assignment (.identifier name) source) state (.error misuse)
  | assignment {name : Datum} {key : Key} {source : Node} {state : State} {value : Value}
      (named : name.key? = some key) (assignable : state.scope.Assignable key)
      (evaluated : Evaluates state.scope source (.ok value)) :
      Executes (.assignment (.identifier name) source) state
        (.ok { state with scope := state.scope.bind key value })
  | printedFails {expression : Node} {state : State} {misuse : Misuse}
      (failed : Evaluates state.scope expression (.error misuse)) :
      Executes (.printStatement expression) state (.error misuse)
  | printStatement {expression : Node} {state : State} {value : Value}
      (evaluated : Evaluates state.scope expression (.ok value)) :
      Executes (.printStatement expression) state
        (.ok { state with output := state.output ++ [value] })
  | whileStatement {test : Node} {statements : List Node} {state : State}
      {outcome : Outcome State} (repeated : Repeats test statements state outcome) :
      Executes (.whileStatement test (.block statements)) state outcome
  | block {statements : List Node} {state : State} {outcome : Outcome State}
      (executed : ExecutesAll statements state outcome) :
      Executes (.block statements) state outcome

inductive ExecutesAll : List Node → State → Outcome State → Prop
  | nil {state : State} : ExecutesAll [] state (.ok state)
  | firstFails {statement : Node} {rest : List Node} {state : State} {misuse : Misuse}
      (failed : Executes statement state (.error misuse)) :
      ExecutesAll (statement :: rest) state (.error misuse)
  | cons {statement : Node} {rest : List Node} {state next : State} {outcome : Outcome State}
      (first : Executes statement state (.ok next)) (others : ExecutesAll rest next outcome) :
      ExecutesAll (statement :: rest) state outcome

inductive Repeats : Node → List Node → State → Outcome State → Prop
  | testFails {test : Node} {statements : List Node} {state : State} {misuse : Misuse}
      (failed : Evaluates state.scope test (.error misuse)) :
      Repeats test statements state (.error misuse)
  | stops {test : Node} {statements : List Node} {state : State} {value : Value}
      (tested : Evaluates state.scope test (.ok value)) (untrue : value ≠ .boolean true) :
      Repeats test statements state (.ok state)
  | bodyFails {test : Node} {statements : List Node} {state : State} {misuse : Misuse}
      (tested : Evaluates state.scope test (.ok (.boolean true)))
      (failed : ExecutesAll statements state (.error misuse)) :
      Repeats test statements state (.error misuse)
  | turns {test : Node} {statements : List Node} {state next : State} {outcome : Outcome State}
      (tested : Evaluates state.scope test (.ok (.boolean true)))
      (taken : ExecutesAll statements state (.ok next))
      (again : Repeats test statements next outcome) :
      Repeats test statements state outcome

end

end Bella
