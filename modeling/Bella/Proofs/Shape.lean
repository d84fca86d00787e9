import Bella.Proofs.Rules.Judgement
import Mathlib.Data.Set.Basic

/-! The trees of the language: expressions and statements in their places, names that can be looked
up, numerals that can be read. A value is sound if the functions inside it are. -/

namespace Bella

structure Vocabulary where
  unary : Datum → Prop
  binary : Datum → Prop

def unaryOperators : List String :=
  ["-", "!"]

namespace Vocabulary

def unrestricted : Vocabulary :=
  ⟨fun _ => True, fun _ => True⟩

def known : Vocabulary :=
  ⟨fun operator => ∃ symbol ∈ unaryOperators, operator = .text symbol,
    fun operator => ∃ symbol ∈ numericOperators ++ booleanOperators, operator = .text symbol⟩

def Allows (vocabulary : Vocabulary) : Misuse → Prop
  | .unknownUnary operator =>
      vocabulary.unary operator ∧ ∀ symbol ∈ unaryOperators, operator ≠ .text symbol
  | .unknownBinary operator =>
      vocabulary.binary operator ∧
        ∀ symbol ∈ numericOperators ++ booleanOperators, operator ≠ .text symbol
  | _ => True

theorem kind_of_known {misuse : Misuse} (allowed : known.Allows misuse) :
    misuse.kind ≠ "UnknownOperator" := by
  cases misuse with
  | unknownUnary operator =>
      obtain ⟨⟨symbol, listed, same⟩, foreign⟩ := allowed
      exact absurd same (foreign symbol listed)
  | unknownBinary operator =>
      obtain ⟨⟨symbol, listed, same⟩, foreign⟩ := allowed
      exact absurd same (foreign symbol listed)
  | _ => simp [Misuse.kind]

end Vocabulary

section

variable (vocabulary : Vocabulary)

inductive Node.IsExpression : Node → Prop
  | numeral {datum : Datum} {number : Number} (read : numeralValue datum = .ok number) :
      IsExpression (.numeral datum)
  | booleanLiteral (truth : Bool) : IsExpression (.booleanLiteral truth)
  | identifier {name : Datum} {key : Key} (named : name.key? = some key) :
      IsExpression (.identifier name)
  | unaryExpression {operator : Datum} {expression : Node}
      (listed : vocabulary.unary operator) (operand : IsExpression expression) :
      IsExpression (.unaryExpression operator expression)
  | binaryExpression {operator : Datum} {left right : Node}
      (listed : vocabulary.binary operator) (first : IsExpression left)
      (second : IsExpression right) : IsExpression (.binaryExpression operator left right)
  | conditionalExpression {test consequent alternate : Node} (tested : IsExpression test)
      (positive : IsExpression consequent) (negative : IsExpression alternate) :
      IsExpression (.conditionalExpression test consequent alternate)
  | arrayLiteral {elements : List Node} (each : ∀ element ∈ elements, IsExpression element) :
      IsExpression (.arrayLiteral elements)
  | subscriptExpression {array subscript : Node} (first : IsExpression array)
      (second : IsExpression subscript) : IsExpression (.subscriptExpression array subscript)
  | call {name : Datum} {key : Key} {arguments : List Node} (named : name.key? = some key)
      (each : ∀ argument ∈ arguments, IsExpression argument) :
      IsExpression (.call (.identifier name) arguments)

inductive Node.IsStatement : Node → Prop
  | variableDeclaration {name : Datum} {key : Key} {initializer : Node}
      (named : name.key? = some key) (initial : initializer.IsExpression vocabulary) :
      IsStatement (.variableDeclaration (.identifier name) initializer)
  | functionDeclaration {name : Datum} {key : Key} (parameters : List Text) {body : Node}
      (named : name.key? = some key) (result : body.IsExpression vocabulary) :
      IsStatement (.functionDeclaration (.identifier name) (parameters.map parameterNode) body)
  | assignment {name : Datum} {key : Key} {source : Node} (named : name.key? = some key)
      (assigned : source.IsExpression vocabulary) :
      IsStatement (.assignment (.identifier name) source)
  | printStatement {expression : Node} (printed : expression.IsExpression vocabulary) :
      IsStatement (.printStatement expression)
  | whileStatement {test : Node} {statements : List Node}
      (tested : test.IsExpression vocabulary)
      (each : ∀ statement ∈ statements, IsStatement statement) :
      IsStatement (.whileStatement test (.block statements))
  | block {statements : List Node} (each : ∀ statement ∈ statements, IsStatement statement) :
      IsStatement (.block statements)

inductive Node.IsProgram : Node → Prop
  | program {statements : List Node}
      (each : ∀ statement ∈ statements, statement.IsStatement vocabulary) :
      IsProgram (.program (.block statements))

end

inductive Value.Every (holds : Datum → List Datum → Node → Prop) : Value → Prop
  | number (value : Number) : Every holds (.number value)
  | boolean (value : Bool) : Every holds (.boolean value)
  | array {items : List Value} (each : ∀ item ∈ items, Every holds item) :
      Every holds (.array items)
  | builtin (function : Builtin) : Every holds (.builtin function)
  | function {name : Datum} {parameters : List Datum} {body : Node}
      (holding : holds name parameters body) : Every holds (.function name parameters body)
  | foreign (text : Option Text) : Every holds (.foreign text)

def Scope.EveryAt (scope : Scope) (names : Set Key)
    (holds : Datum → List Datum → Node → Prop) : Prop :=
  ∀ key ∈ names, ∀ value, scope.find? key = some value → value.Every holds

end Bella
