import Bella.Proofs.Grammar.Reading
import Bella.Proofs.Shape

/-! What source text means is of the language: its expressions and statements stand in their places,
its numerals can be read, and its operators are known. -/

namespace Bella.Source

open Construction

def Symbol.Shaped : (symbol : Symbol) → symbol.Meaning → Prop
  | .program => fun node => node.IsProgram .known
  | .statements => fun nodes => ∀ node ∈ nodes, node.IsStatement .known
  | .statement => fun node => node.IsStatement .known
  | .expression | .level _ | .subscripted | .primary => fun node => node.IsExpression .known
  | .arguments | .moreArguments => fun nodes => ∀ node ∈ nodes, node.IsExpression .known
  | .tail _ | .subscripts => fun next =>
      ∀ node : Node, node.IsExpression .known → (next node).IsExpression .known

theorem operator_listed (strength : Strength) {lexeme : List Char}
    (spelled : strength.terminal.Matches lexeme) :
    String.ofList lexeme ∈ numericOperators ++ booleanOperators := by
  cases strength with
  | disjunction | conjunction | power =>
      obtain rfl := spelled
      decide
  | relation | sum | product =>
      simp only [Strength.terminal, Terminal.Matches, List.mem_cons, List.not_mem_nil,
        or_false] at spelled
      rcases spelled with rfl | rfl | rfl | rfl | rfl | rfl <;> decide

theorem sign_listed {lexeme : List Char} (spelled : Terminal.sign.Matches lexeme) :
    String.ofList lexeme ∈ unaryOperators := by
  simp only [Terminal.Matches, List.mem_cons, List.not_mem_nil, or_false] at spelled
  rcases spelled with rfl | rfl <;> decide

theorem isStatement_function {name : String} {parameters : List (List Char)} {body : Node}
    (shaped : body.IsExpression .known) :
    (Node.functionDeclaration (.identifier (.text name))
      (parameters.map fun parameter => .identifier (.text (String.ofList parameter)))
      body).IsStatement .known := by
  have texts : parameters.map (fun parameter => Node.identifier (.text (String.ofList parameter))) =
      (parameters.map fun parameter => (String.ofList parameter : Text)).map parameterNode := by
    rw [List.map_map]
    rfl
  rw [texts]
  exact .functionDeclaration _ rfl shaped

theorem Derivation.shaped {symbol : Symbol} (derivation : Derivation symbol)
    (spelled : ∀ token ∈ derivation.tokens, token.terminal.Matches token.lexeme) :
    symbol.Shaped derivation.meaning := by
  induction derivation <;>
    simp only [tokens, List.forall_mem_append, List.forall_mem_cons, List.not_mem_nil,
      false_implies, implies_true, and_true] at spelled <;>
    simp only [Symbol.Shaped, meaning]
  case program first rest firstShaped restShaped =>
    exact .program (List.forall_mem_cons.mpr ⟨firstShaped spelled.1, restShaped spelled.2⟩)
  case noStatements | noArguments | lastArgument => simp
  case nextStatement first rest firstShaped restShaped | arguments first rest firstShaped restShaped =>
    exact List.forall_mem_cons.mpr ⟨firstShaped spelled.1, restShaped spelled.2⟩
  case nextArgument next rest nextShaped restShaped =>
    exact List.forall_mem_cons.mpr ⟨nextShaped spelled.2.1, restShaped spelled.2.2⟩
  case declaration name value valueShaped =>
    exact .variableDeclaration rfl (valueShaped spelled.2.2.2.1)
  case function name parameters body bodyShaped =>
    exact isStatement_function (bodyShaped spelled.2.2.2.2.2.2.1)
  case assignment name value valueShaped => exact .assignment rfl (valueShaped spelled.2.2.1)
  case print value valueShaped => exact .printStatement (valueShaped spelled.2.1)
  case loop guard body guardShaped bodyShaped =>
    exact .whileStatement (guardShaped spelled.2.1) (bodyShaped spelled.2.2.2.1)
  case conditional test consequent alternate testShaped consequentShaped alternateShaped =>
    exact .conditionalExpression (testShaped spelled.1) (consequentShaped spelled.2.2.1)
      (alternateShaped spelled.2.2.2.2)
  case unconditional value valueShaped | unsigned value valueShaped => exact valueShaped spelled
  case operation strength first rest firstShaped restShaped |
      subscripted first rest firstShaped restShaped =>
    exact restShaped spelled.2 _ (firstShaped spelled.1)
  case noOperator strength | noSubscript => exact fun _ shaped => shaped
  case repeated strength repeats operator right rest rightShaped restShaped =>
    intro left shaped
    refine restShaped spelled.2.2 _ (.binaryExpression ?_ shaped (rightShaped spelled.2.1))
    exact ⟨_, operator_listed strength spelled.1, rfl⟩
  case related operator right rightShaped =>
    intro left shaped
    have listed := operator_listed .relation spelled.1
    exact .binaryExpression ⟨_, listed, rfl⟩ shaped (rightShaped spelled.2)
  case raised operator exponent exponentShaped =>
    intro left shaped
    have listed := operator_listed .power spelled.1
    exact .binaryExpression ⟨_, listed, rfl⟩ shaped (exponentShaped spelled.2)
  case signed operator operand operandShaped =>
    exact .unaryExpression ⟨_, sign_listed spelled.1, rfl⟩ (operandShaped spelled.2)
  case nextSubscript subscript rest subscriptShaped restShaped =>
    intro operand shaped
    exact restShaped spelled.2.2.2 _ (.subscriptExpression shaped (subscriptShaped spelled.2.1))
  case number lexeme => exact .numeral rfl
  case «true» | «false» => exact .booleanLiteral _
  case call callee given givenShaped => exact .call rfl (givenShaped spelled.2.2.1)
  case identifier name => exact .identifier rfl
  case group inner innerShaped => exact innerShaped spelled.2.1
  case array elements elementsShaped => exact .arrayLiteral (elementsShaped spelled.2.1)

theorem Reading.spelled {before tokens : List Token} {text : List Char}
    (reading : Reading before text tokens) :
    ∀ token ∈ tokens, token.terminal.Matches token.lexeme := by
  induction reading with
  | finish => simp
  | next _ longest _ _ ih => exact List.forall_mem_cons.mpr ⟨longest.spelled, ih⟩

theorem parse_shaped {source : String} {program : Node} (parsed : parse source = .ok program) :
    program.IsProgram .known := by
  rw [parse, parseFrom_ok_iff reached_empty] at parsed
  obtain ⟨tokens, reading, completes⟩ := parsed
  obtain ⟨derivation, rfl, rfl⟩ := completes_empty.mp completes
  exact derivation.shaped reading.spelled

end Bella.Source
