import Bella.Proofs.Shape

/-! One expression put in the place of another, in some places of a program and at any depth. What
comes of it is an expression, a statement or a program again. -/

namespace Bella

section

variable (first second : Node)

mutual

/-- The second expression stands in some of the places where the first one stood. -/
inductive Exchanged : Node → Node → Prop
  | here : Exchanged first second
  | within {node other : Node} (inside : ExchangedWithin node other) : Exchanged node other

/-- The root is kept, and so is the callee of a call. -/
inductive ExchangedWithin : Node → Node → Prop
  | numeral (datum : Datum) : ExchangedWithin (.numeral datum) (.numeral datum)
  | booleanLiteral (truth : Bool) : ExchangedWithin (.booleanLiteral truth) (.booleanLiteral truth)
  | identifier (name : Datum) : ExchangedWithin (.identifier name) (.identifier name)
  | unaryExpression (operator : Datum) {expression other : Node}
      (operand : Exchanged expression other) :
      ExchangedWithin (.unaryExpression operator expression) (.unaryExpression operator other)
  | binaryExpression (operator : Datum) {left right otherLeft otherRight : Node}
      (one : Exchanged left otherLeft) (two : Exchanged right otherRight) :
      ExchangedWithin (.binaryExpression operator left right)
        (.binaryExpression operator otherLeft otherRight)
  | conditionalExpression {test consequent alternate otherTest positive negative : Node}
      (tested : Exchanged test otherTest) (one : Exchanged consequent positive)
      (two : Exchanged alternate negative) :
      ExchangedWithin (.conditionalExpression test consequent alternate)
        (.conditionalExpression otherTest positive negative)
  | arrayLiteral {elements others : List Node} (each : ExchangedAll elements others) :
      ExchangedWithin (.arrayLiteral elements) (.arrayLiteral others)
  | subscriptExpression {array subscript otherArray otherSubscript : Node}
      (one : Exchanged array otherArray) (two : Exchanged subscript otherSubscript) :
      ExchangedWithin (.subscriptExpression array subscript)
        (.subscriptExpression otherArray otherSubscript)
  | call (callee : Node) {arguments others : List Node} (each : ExchangedAll arguments others) :
      ExchangedWithin (.call callee arguments) (.call callee others)

inductive ExchangedAll : List Node → List Node → Prop
  | nil : ExchangedAll [] []
  | cons {node other : Node} {rest others : List Node} (one : Exchanged node other)
      (more : ExchangedAll rest others) : ExchangedAll (node :: rest) (other :: others)

end

mutual

inductive ExchangedStatement : Node → Node → Prop
  | variableDeclaration (id : Node) {initializer other : Node}
      (initial : Exchanged first second initializer other) :
      ExchangedStatement (.variableDeclaration id initializer) (.variableDeclaration id other)
  | functionDeclaration (id : Node) (parameters : List Node) {body other : Node}
      (result : Exchanged first second body other) :
      ExchangedStatement (.functionDeclaration id parameters body)
        (.functionDeclaration id parameters other)
  | assignment (target : Node) {source other : Node}
      (assigned : Exchanged first second source other) :
      ExchangedStatement (.assignment target source) (.assignment target other)
  | printStatement {expression other : Node} (printed : Exchanged first second expression other) :
      ExchangedStatement (.printStatement expression) (.printStatement other)
  | whileStatement {test otherTest : Node} {statements others : List Node}
      (tested : Exchanged first second test otherTest)
      (each : ExchangedStatements statements others) :
      ExchangedStatement (.whileStatement test (.block statements))
        (.whileStatement otherTest (.block others))
  | block {statements others : List Node} (each : ExchangedStatements statements others) :
      ExchangedStatement (.block statements) (.block others)

inductive ExchangedStatements : List Node → List Node → Prop
  | nil : ExchangedStatements [] []
  | cons {statement other : Node} {rest others : List Node}
      (one : ExchangedStatement statement other) (more : ExchangedStatements rest others) :
      ExchangedStatements (statement :: rest) (other :: others)

end

inductive ExchangedProgram : Node → Node → Prop
  | program {statements others : List Node}
      (each : ExchangedStatements first second statements others) :
      ExchangedProgram (.program (.block statements)) (.program (.block others))

end

section

variable {first second : Node}

mutual

theorem Exchanged.symm {node other : Node} (exchanged : Exchanged first second node other) :
    Exchanged second first other node := by
  match exchanged with
  | .here => exact .here
  | .within inside => exact .within inside.symm

theorem ExchangedWithin.symm {node other : Node}
    (exchanged : ExchangedWithin first second node other) :
    ExchangedWithin second first other node := by
  match exchanged with
  | .numeral datum => exact .numeral datum
  | .booleanLiteral truth => exact .booleanLiteral truth
  | .identifier name => exact .identifier name
  | .unaryExpression operator operand => exact .unaryExpression operator operand.symm
  | .binaryExpression operator one two => exact .binaryExpression operator one.symm two.symm
  | .conditionalExpression tested one two =>
      exact .conditionalExpression tested.symm one.symm two.symm
  | .arrayLiteral each => exact .arrayLiteral each.symm
  | .subscriptExpression one two => exact .subscriptExpression one.symm two.symm
  | .call callee each => exact .call callee each.symm

theorem ExchangedAll.symm {nodes others : List Node}
    (exchanged : ExchangedAll first second nodes others) :
    ExchangedAll second first others nodes := by
  match exchanged with
  | .nil => exact .nil
  | .cons one more => exact .cons one.symm more.symm

end

mutual

theorem ExchangedStatement.symm {statement other : Node}
    (exchanged : ExchangedStatement first second statement other) :
    ExchangedStatement second first other statement := by
  match exchanged with
  | .variableDeclaration id initial => exact .variableDeclaration id initial.symm
  | .functionDeclaration id parameters result =>
      exact .functionDeclaration id parameters result.symm
  | .assignment target assigned => exact .assignment target assigned.symm
  | .printStatement printed => exact .printStatement printed.symm
  | .whileStatement tested each => exact .whileStatement tested.symm each.symm
  | .block each => exact .block each.symm

theorem ExchangedStatements.symm {statements others : List Node}
    (exchanged : ExchangedStatements first second statements others) :
    ExchangedStatements second first others statements := by
  match exchanged with
  | .nil => exact .nil
  | .cons one more => exact .cons one.symm more.symm

end

theorem ExchangedProgram.symm {program other : Node}
    (exchanged : ExchangedProgram first second program other) :
    ExchangedProgram second first other program := by
  obtain ⟨each⟩ := exchanged
  exact .program each.symm

variable {vocabulary : Vocabulary}

theorem exchangedAll_self {nodes : List Node}
    (each : ∀ node ∈ nodes, Exchanged first second node node) :
    ExchangedAll first second nodes nodes := by
  induction nodes with
  | nil => exact .nil
  | cons node rest ih =>
      rw [List.forall_mem_cons] at each
      exact .cons each.1 (ih each.2)

theorem exchangedWithin_self {node : Node} (shaped : node.IsExpression vocabulary) :
    ExchangedWithin first second node node := by
  induction shaped with
  | numeral => exact .numeral _
  | booleanLiteral truth => exact .booleanLiteral truth
  | identifier => exact .identifier _
  | unaryExpression _ _ operand => exact .unaryExpression _ (.within operand)
  | binaryExpression _ _ _ one two => exact .binaryExpression _ (.within one) (.within two)
  | conditionalExpression _ _ _ tested one two =>
      exact .conditionalExpression (.within tested) (.within one) (.within two)
  | arrayLiteral _ each =>
      exact .arrayLiteral (exchangedAll_self fun node member => .within (each node member))
  | subscriptExpression _ _ one two => exact .subscriptExpression (.within one) (.within two)
  | call _ _ each =>
      exact .call _ (exchangedAll_self fun node member => .within (each node member))

theorem ExchangedAll.forall {nodes others : List Node} {holds : Node → Prop}
    (exchanged : ExchangedAll first second nodes others)
    (each : ∀ node ∈ nodes, ∀ other, Exchanged first second node other → holds other) :
    ∀ other ∈ others, holds other := by
  induction nodes generalizing others with
  | nil =>
      cases exchanged
      simp
  | cons node rest ih =>
      cases exchanged with
      | cons one more =>
          rw [List.forall_mem_cons] at each ⊢
          exact ⟨each.1 _ one, ih more each.2⟩

theorem Exchanged.elim {node other : Node} {holds : Node → Prop}
    (exchanged : Exchanged first second node other) (replaced : holds second)
    (kept : ∀ other, ExchangedWithin first second node other → holds other) : holds other := by
  cases exchanged with
  | here => exact replaced
  | within inside => exact kept other inside

theorem Exchanged.isExpression (two : second.IsExpression vocabulary) {node other : Node}
    (shaped : node.IsExpression vocabulary) (exchanged : Exchanged first second node other) :
    other.IsExpression vocabulary := by
  induction shaped generalizing other with
  | numeral read =>
      refine exchanged.elim two fun _ inside => ?_
      cases inside
      exact .numeral read
  | booleanLiteral truth =>
      refine exchanged.elim two fun _ inside => ?_
      cases inside
      exact .booleanLiteral truth
  | identifier named =>
      refine exchanged.elim two fun _ inside => ?_
      cases inside
      exact .identifier named
  | unaryExpression listed _ ih =>
      refine exchanged.elim two fun _ inside => ?_
      cases inside with
      | unaryExpression _ operand => exact .unaryExpression listed (ih operand)
  | binaryExpression listed _ _ left right =>
      refine exchanged.elim two fun _ inside => ?_
      cases inside with
      | binaryExpression _ one other => exact .binaryExpression listed (left one) (right other)
  | conditionalExpression _ _ _ test consequent alternate =>
      refine exchanged.elim two fun _ inside => ?_
      cases inside with
      | conditionalExpression tested one other =>
          exact .conditionalExpression (test tested) (consequent one) (alternate other)
  | arrayLiteral _ ih =>
      refine exchanged.elim two fun _ inside => ?_
      cases inside with
      | arrayLiteral each => exact .arrayLiteral (each.forall fun node member _ => ih node member)
  | subscriptExpression _ _ array subscript =>
      refine exchanged.elim two fun _ inside => ?_
      cases inside with
      | subscriptExpression one other => exact .subscriptExpression (array one) (subscript other)
  | call named _ ih =>
      refine exchanged.elim two fun _ inside => ?_
      cases inside with
      | call _ each => exact .call named (each.forall fun node member _ => ih node member)

theorem ExchangedStatements.forall {statements others : List Node} {holds : Node → Prop}
    (exchanged : ExchangedStatements first second statements others)
    (each : ∀ statement ∈ statements, ∀ other,
      ExchangedStatement first second statement other → holds other) :
    ∀ other ∈ others, holds other := by
  induction statements generalizing others with
  | nil =>
      cases exchanged
      simp
  | cons statement rest ih =>
      cases exchanged with
      | cons one more =>
          rw [List.forall_mem_cons] at each ⊢
          exact ⟨each.1 _ one, ih more each.2⟩

theorem ExchangedStatement.isStatement (two : second.IsExpression vocabulary)
    {statement other : Node} (shaped : statement.IsStatement vocabulary)
    (exchanged : ExchangedStatement first second statement other) :
    other.IsStatement vocabulary := by
  induction shaped generalizing other with
  | variableDeclaration named initial =>
      cases exchanged with
      | variableDeclaration _ one => exact .variableDeclaration named (one.isExpression two initial)
  | functionDeclaration parameters named result =>
      cases exchanged with
      | functionDeclaration _ _ one =>
          exact .functionDeclaration parameters named (one.isExpression two result)
  | assignment named assigned =>
      cases exchanged with
      | assignment _ one => exact .assignment named (one.isExpression two assigned)
  | printStatement printed =>
      cases exchanged with
      | printStatement one => exact .printStatement (one.isExpression two printed)
  | whileStatement tested _ ih =>
      cases exchanged with
      | whileStatement one each =>
          exact .whileStatement (one.isExpression two tested)
            (each.forall fun statement member _ => ih statement member)
  | block _ ih =>
      cases exchanged with
      | block each => exact .block (each.forall fun statement member _ => ih statement member)

theorem ExchangedProgram.isProgram (two : second.IsExpression vocabulary) {program other : Node}
    (shaped : program.IsProgram vocabulary)
    (exchanged : ExchangedProgram first second program other) : other.IsProgram vocabulary := by
  obtain ⟨each⟩ := exchanged
  obtain ⟨shaped⟩ := shaped
  exact .program (each.forall fun statement member _ one => one.isStatement two (shaped _ member))

end

end Bella
