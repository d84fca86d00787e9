import Bella.Proofs.Lookup
import Bella.Proofs.Shape

/-! The names in a tree, and the functions that its statements may declare. -/

namespace Bella

mutual

def Node.names : Node → List Key
  | .identifier name => name.key?.toList
  | .numeral _ | .booleanLiteral _ => []
  | .unaryExpression _ expression => expression.names
  | .binaryExpression _ left right => left.names ++ right.names
  | .conditionalExpression test consequent alternate =>
      test.names ++ consequent.names ++ alternate.names
  | .arrayLiteral elements => namesOfAll elements
  | .subscriptExpression array subscript => array.names ++ subscript.names
  | .call callee arguments => callee.names ++ namesOfAll arguments
  | .variableDeclaration id initializer => id.names ++ initializer.names
  | .functionDeclaration id parameters body => id.names ++ namesOfAll parameters ++ body.names
  | .assignment target source => target.names ++ source.names
  | .printStatement expression => expression.names
  | .whileStatement test body => test.names ++ body.names
  | .block statements => namesOfAll statements
  | .program block => block.names

def namesOfAll : List Node → List Key
  | [] => []
  | node :: rest => node.names ++ namesOfAll rest

end

mutual

/-- The values that the function declarations of a statement bind, at any depth of blocks and
loops. -/
def Node.functions : Node → List Value
  | .functionDeclaration id parameters body =>
      [.function (id.name?.getD .null) (parameters.filterMap Node.name?) body]
  | .whileStatement _ body => body.functions
  | .block statements => functionsOfAll statements
  | .program block => block.functions
  | _ => []

def functionsOfAll : List Node → List Value
  | [] => []
  | node :: rest => node.functions ++ functionsOfAll rest

end

def Node.Within (node : Node) (names : Set Key) : Prop :=
  ∀ key ∈ node.names, key ∈ names

theorem mem_namesOfAll {nodes : List Node} {key : Key} :
    key ∈ namesOfAll nodes ↔ ∃ node ∈ nodes, key ∈ node.names := by
  induction nodes with
  | nil => simp [namesOfAll]
  | cons node rest ih => simp [namesOfAll, ih]

theorem parameterNames_cons_ok {function : Datum} {seen : List Key} {parameter : Node}
    {rest : List Node} {names : List Datum}
    (bound : parameterNames function seen (parameter :: rest) = .ok names) :
    ∃ name key others, nameOf parameter = .ok name ∧ Scope.keyOf name = .ok key ∧ key ∉ seen ∧
      parameterNames function (key :: seen) rest = .ok others ∧ names = name :: others := by
  rw [parameterNames] at bound
  cases named : nameOf parameter with
  | error fault => simp [named] at bound
  | ok name =>
      cases known : Scope.keyOf name with
      | error fault => simp [named, known] at bound
      | ok key =>
          simp only [named, known, ok_bind, except_throw] at bound
          split at bound
          · cases bound
          · rename_i fresh
            cases later : parameterNames function (key :: seen) rest with
            | error fault => simp [later] at bound
            | ok others =>
                simp only [later, ok_bind, except_pure, Except.ok.injEq] at bound
                exact ⟨name, key, others, rfl, known, by simpa using fresh, later, bound.symm⟩

theorem parameterNames_ok {function : Datum} {seen : List Key} {parameters : List Node}
    {names : List Datum} (bound : parameterNames function seen parameters = .ok names) :
    parameters = names.map .identifier := by
  induction parameters generalizing seen names with
  | nil =>
      obtain rfl := Except.ok.inj bound
      rfl
  | cons parameter rest ih =>
      obtain ⟨name, key, others, named, -, -, later, rfl⟩ := parameterNames_cons_ok bound
      rw [List.map_cons, ← ih later, nameOf_ok named]

mutual

theorem mem_functions : ∀ (statement : Node) (value : Value), value ∈ statement.functions →
    ∃ id parameters body,
      value = .function (id.name?.getD .null) (parameters.filterMap Node.name?) body ∧
        ∀ key ∈ (Node.functionDeclaration id parameters body).names, key ∈ statement.names
  | .functionDeclaration id parameters body, value, member => by
      simp only [Node.functions, List.mem_singleton] at member
      exact ⟨id, parameters, body, member, fun _ named => named⟩
  | .whileStatement test body, value, member => by
      obtain ⟨id, parameters, result, same, names⟩ := mem_functions body value member
      exact ⟨id, parameters, result, same, fun key named =>
        List.mem_append_right _ (names key named)⟩
  | .block statements, value, member => mem_functionsOfAll statements value member
  | .program block, value, member => mem_functions block value member
  | .numeral _, _, member | .booleanLiteral _, _, member | .identifier _, _, member
  | .unaryExpression _ _, _, member | .binaryExpression _ _ _, _, member
  | .conditionalExpression _ _ _, _, member | .arrayLiteral _, _, member
  | .subscriptExpression _ _, _, member | .call _ _, _, member
  | .variableDeclaration _ _, _, member | .assignment _ _, _, member
  | .printStatement _, _, member => by simp [Node.functions] at member

theorem mem_functionsOfAll : ∀ (statements : List Node) (value : Value),
    value ∈ functionsOfAll statements →
    ∃ id parameters body,
      value = .function (id.name?.getD .null) (parameters.filterMap Node.name?) body ∧
        ∀ key ∈ (Node.functionDeclaration id parameters body).names, key ∈ namesOfAll statements
  | [], _, member => by simp [functionsOfAll] at member
  | statement :: rest, value, member => by
      rcases List.mem_append.mp member with first | later
      · obtain ⟨id, parameters, body, same, names⟩ := mem_functions statement value first
        exact ⟨id, parameters, body, same, fun key named =>
          List.mem_append_left _ (names key named)⟩
      · obtain ⟨id, parameters, body, same, names⟩ := mem_functionsOfAll rest value later
        exact ⟨id, parameters, body, same, fun key named =>
          List.mem_append_right _ (names key named)⟩

end

end Bella
