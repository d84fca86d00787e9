import Bella.Proofs.Exchange.Values

/-! Evaluation and execution after an exchange of expressions. Whatever the rules derive of a tree, they
derive the like of it with equal expressions exchanged. -/

namespace Bella

/-- Whatever the first expression ends with in native scopes, the second one ends with. -/
structure Replaceable (vocabulary : Vocabulary) (first second : Node) : Prop where
  itself : ExchangedWithin first second first first
  equal : ∀ scope : Scope, scope.Native vocabulary → ∀ outcome, Evaluates scope first outcome →
    ∃ following, Evaluates scope second following ∧ outcome.Alike Eq following

section

variable (vocabulary : Vocabulary) (first second : Node)

def Carries (scope : Scope) (node : Node) (outcome : Outcome Value) : Prop :=
  ∀ (two : Scope) (other : Node), scope.Matches vocabulary first second two →
    ExchangedWithin first second node other →
    ∃ following, Evaluates two other following ∧
      outcome.Alike (Value.Matches vocabulary first second) following

end

section

variable {vocabulary : Vocabulary} {first second : Node}

theorem Outcome.Alike.then_eq {outcome middle following : Outcome Value}
    (alike : outcome.Alike (Value.Matches vocabulary first second) middle)
    (same : middle.Alike Eq following) :
    outcome.Alike (Value.Matches vocabulary first second) following := by
  cases alike with
  | ok corresponding =>
      cases same with
      | ok equal => exact .ok (equal ▸ corresponding)
  | error kind message =>
      cases same with
      | error otherKind otherMessage =>
          exact .error (kind.trans otherKind) (message.trans otherMessage)

/-- At the place of an exchange the first expression is carried to the other scope, and the second one
is equal to it there. -/
theorem Carries.exchanged (replaceable : Replaceable vocabulary first second) {one two : Scope}
    {node other : Node} {outcome : Outcome Value}
    (carries : Carries vocabulary first second one node outcome)
    (matched : one.Matches vocabulary first second two)
    (exchanged : Exchanged first second node other) :
    ∃ following, Evaluates two other following ∧
      outcome.Alike (Value.Matches vocabulary first second) following := by
  cases exchanged with
  | within inside => exact carries two _ matched inside
  | here =>
      obtain ⟨middle, evaluated, alike⟩ := carries two _ matched replaceable.itself
      obtain ⟨following, replaced, same⟩ :=
        replaceable.equal two matched.native middle evaluated
      exact ⟨following, replaced, alike.then_eq same⟩

mutual

theorem Evaluates.carries (replaceable : Replaceable vocabulary first second) {one : Scope} {node : Node}
    {outcome : Outcome Value} (derived : Evaluates one node outcome) :
    Carries vocabulary first second one node outcome := by
  intro two other matched inside
  match derived, inside with
  | .numeral read, .numeral _ => exact ⟨_, .numeral read, .ok (.number _)⟩
  | .booleanLiteral truth, .booleanLiteral _ =>
      exact ⟨_, .booleanLiteral truth, .ok (.boolean truth)⟩
  | .identifier named bound, .identifier _ =>
      obtain ⟨value, found, corresponding⟩ := matched.bound bound
      exact ⟨_, .identifier named found, .ok corresponding⟩
  | .unboundIdentifier named unbound, .identifier _ =>
      exact ⟨_, .unboundIdentifier named (matched.unbound unbound), .error rfl rfl⟩
  | .operandFails failed, .unaryExpression _ operand =>
      obtain ⟨_, evaluated, ⟨⟩ | ⟨kind, message⟩⟩ :=
        (failed.carries replaceable).exchanged replaceable matched operand
      exact ⟨_, .operandFails evaluated, .error kind message⟩
  | .unary evaluated rule, .unaryExpression _ operand =>
      obtain ⟨_, again, corresponding | _⟩ :=
        (evaluated.carries replaceable).exchanged replaceable matched operand
      obtain ⟨following, applied, alike⟩ := rule.matched corresponding
      exact ⟨following, .unary again applied, alike⟩
  | .leftFails failed, .binaryExpression _ left _ =>
      obtain ⟨_, evaluated, ⟨⟩ | ⟨kind, message⟩⟩ :=
        (failed.carries replaceable).exchanged replaceable matched left
      exact ⟨_, .leftFails evaluated, .error kind message⟩
  | .rightFails before failed, .binaryExpression _ left right =>
      obtain ⟨_, again, corresponding | _⟩ :=
        (before.carries replaceable).exchanged replaceable matched left
      obtain ⟨_, evaluated, ⟨⟩ | ⟨kind, message⟩⟩ :=
        (failed.carries replaceable).exchanged replaceable matched right
      exact ⟨_, .rightFails again evaluated, .error kind message⟩
  | .binary before after rule, .binaryExpression _ left right =>
      obtain ⟨_, one, corresponding | _⟩ :=
        (before.carries replaceable).exchanged replaceable matched left
      obtain ⟨_, other, matching | _⟩ :=
        (after.carries replaceable).exchanged replaceable matched right
      obtain ⟨following, applied, alike⟩ := rule.matched corresponding matching
      exact ⟨following, .binary one other applied, alike⟩
  | .testFails failed, .conditionalExpression test _ _ =>
      obtain ⟨_, evaluated, ⟨⟩ | ⟨kind, message⟩⟩ :=
        (failed.carries replaceable).exchanged replaceable matched test
      exact ⟨_, .testFails evaluated, .error kind message⟩
  | .consequent tested branch, .conditionalExpression test positive _ =>
      obtain ⟨_, again, ⟨⟨⟩⟩ | _⟩ :=
        (tested.carries replaceable).exchanged replaceable matched test
      obtain ⟨following, evaluated, alike⟩ :=
        (branch.carries replaceable).exchanged replaceable matched positive
      exact ⟨following, .consequent again evaluated, alike⟩
  | .alternate tested branch, .conditionalExpression test _ negative =>
      obtain ⟨_, again, ⟨⟨⟩⟩ | _⟩ :=
        (tested.carries replaceable).exchanged replaceable matched test
      obtain ⟨following, evaluated, alike⟩ :=
        (branch.carries replaceable).exchanged replaceable matched negative
      exact ⟨following, .alternate again evaluated, alike⟩
  | .testMismatch tested mismatch, .conditionalExpression test _ _ =>
      obtain ⟨_, again, corresponding | _⟩ :=
        (tested.carries replaceable).exchanged replaceable matched test
      rw [corresponding.kind_eq] at mismatch ⊢
      exact ⟨_, .testMismatch again mismatch, .error rfl rfl⟩
  | .elementFails failed, .arrayLiteral each =>
      obtain ⟨_, evaluated, ⟨⟩ | ⟨kind, message⟩⟩ := failed.carries replaceable matched each
      exact ⟨_, .elementFails evaluated, .error kind message⟩
  | .arrayLiteral evaluated, .arrayLiteral each =>
      obtain ⟨_, again, corresponding | _⟩ := evaluated.carries replaceable matched each
      exact ⟨_, .arrayLiteral again, .ok (matches_array_iff.mpr corresponding)⟩
  | .arrayFails failed, .subscriptExpression array _ =>
      obtain ⟨_, evaluated, ⟨⟩ | ⟨kind, message⟩⟩ :=
        (failed.carries replaceable).exchanged replaceable matched array
      exact ⟨_, .arrayFails evaluated, .error kind message⟩
  | .subscriptFails before failed, .subscriptExpression array subscript =>
      obtain ⟨_, again, corresponding | _⟩ :=
        (before.carries replaceable).exchanged replaceable matched array
      obtain ⟨_, evaluated, ⟨⟩ | ⟨kind, message⟩⟩ :=
        (failed.carries replaceable).exchanged replaceable matched subscript
      exact ⟨_, .subscriptFails again evaluated, .error kind message⟩
  | .subscript before after rule, .subscriptExpression array subscript =>
      obtain ⟨_, one, corresponding | _⟩ :=
        (before.carries replaceable).exchanged replaceable matched array
      obtain ⟨_, other, matching | _⟩ :=
        (after.carries replaceable).exchanged replaceable matched subscript
      obtain ⟨following, applied, alike⟩ := rule.matched corresponding matching
      exact ⟨following, .subscript one other applied, alike⟩
  | .argumentFails named failed, .call _ each =>
      obtain ⟨_, evaluated, ⟨⟩ | ⟨kind, message⟩⟩ := failed.carries replaceable matched each
      exact ⟨_, .argumentFails named evaluated, .error kind message⟩
  | .unboundCallee named evaluated unbound, .call _ each =>
      obtain ⟨_, again, corresponding | _⟩ := evaluated.carries replaceable matched each
      exact ⟨_, .unboundCallee named again (matched.unbound unbound), .error rfl rfl⟩
  | .call named evaluated bound applied, .call _ each =>
      obtain ⟨_, again, corresponding | _⟩ := evaluated.carries replaceable matched each
      obtain ⟨function, found, callee⟩ := matched.bound bound
      obtain ⟨following, called, alike⟩ :=
        applied.carries replaceable matched callee corresponding
      exact ⟨following, .call named again found called, alike⟩

theorem EvaluatesAll.carries (replaceable : Replaceable vocabulary first second) {one two : Scope} {nodes others : List Node}
    {outcome : Outcome (List Value)} (derived : EvaluatesAll one nodes outcome)
    (matched : one.Matches vocabulary first second two)
    (exchanged : ExchangedAll first second nodes others) :
    ∃ following, EvaluatesAll two others following ∧
      outcome.Alike (List.Forall₂ (Value.Matches vocabulary first second)) following := by
  match derived, exchanged with
  | .nil, .nil => exact ⟨_, .nil, .ok .nil⟩
  | .firstFails failed, .cons head _ =>
      obtain ⟨_, evaluated, ⟨⟩ | ⟨kind, message⟩⟩ :=
        (failed.carries replaceable).exchanged replaceable matched head
      exact ⟨_, .firstFails evaluated, .error kind message⟩
  | .restFails before failed, .cons head tail =>
      obtain ⟨_, again, corresponding | _⟩ :=
        (before.carries replaceable).exchanged replaceable matched head
      obtain ⟨_, evaluated, ⟨⟩ | ⟨kind, message⟩⟩ := failed.carries replaceable matched tail
      exact ⟨_, .restFails again evaluated, .error kind message⟩
  | .cons before after, .cons head tail =>
      obtain ⟨_, one, corresponding | _⟩ :=
        (before.carries replaceable).exchanged replaceable matched head
      obtain ⟨_, rest, matching | _⟩ := after.carries replaceable matched tail
      exact ⟨_, .cons one rest, .ok (.cons corresponding matching)⟩

theorem Applies.carries (replaceable : Replaceable vocabulary first second) {one two : Scope} {function callee : Value}
    {arguments others : List Value} {outcome : Outcome Value}
    (derived : Applies function arguments one outcome)
    (matched : one.Matches vocabulary first second two)
    (called : function.Matches vocabulary first second callee)
    (given : List.Forall₂ (Value.Matches vocabulary first second) arguments others) :
    ∃ following, Applies callee others two following ∧
      outcome.Alike (Value.Matches vocabulary first second) following := by
  match derived, called with
  | .builtinArity mismatch, .builtin _ =>
      rw [given.length_eq] at mismatch ⊢
      exact ⟨_, .builtinArity mismatch, .error rfl rfl⟩
  | .builtinMismatch arity mismatch, .builtin _ =>
      have same := given.length_eq
      obtain ⟨other, rest, rfl, corresponding⟩ := forall_matches_mismatch given
      rw [corresponding.kind_eq] at mismatch ⊢
      exact ⟨_, .builtinMismatch (same ▸ arity) mismatch, .error rfl rfl⟩
  | .builtin rule, .builtin _ =>
      obtain rfl := forall_matches_numbers given
      exact ⟨_, .builtin rule, .ok (.number _)⟩
  | .functionArity mismatch, .function _ _ _ =>
      rw [given.length_eq] at mismatch ⊢
      exact ⟨_, .functionArity mismatch, .error rfl rfl⟩
  | .function arity named evaluated, .function _ _ body =>
      obtain ⟨following, again, alike⟩ := (evaluated.carries replaceable).exchanged replaceable
        (matched.extend _ given) body
      exact ⟨following, .function (given.length_eq ▸ arity) named again, alike⟩
  | .notCallable data, called =>
      have known := called.isFunction_eq
      refine ⟨_, .notCallable (known ▸ data), .error rfl ?_⟩
      rw [Misuse.message, Misuse.message, called.text_eq]

end

theorem parameters_admitted (vocabulary : Vocabulary) (name : Datum) (parameters : List Text)
    {body : Node} (shaped : body.IsExpression vocabulary) :
    vocabulary.Admits name (parameters.map .text) body := by
  refine ⟨⟨parameters.map .text, ?_⟩, shaped⟩
  simp [Function.comp_def, Datum.key?]

theorem declared_isExpression {id body : Node} {parameters : List Node}
    (shaped : (Node.functionDeclaration id parameters body).IsStatement vocabulary) :
    body.IsExpression vocabulary := by
  cases shaped with
  | functionDeclaration _ _ result => exact result

mutual

theorem Executes.carries (replaceable : Replaceable vocabulary first second)
    (two : second.IsExpression vocabulary) {statement other : Node} {state following : State}
    {outcome : Outcome State} (shaped : statement.IsStatement vocabulary)
    (derived : Executes statement state outcome)
    (matched : state.Matches vocabulary first second following)
    (exchanged : ExchangedStatement first second statement other) :
    ∃ ending, Executes other following ending ∧
      outcome.Alike (State.Matches vocabulary first second) ending := by
  match derived, exchanged with
  | .duplicateVariable named bound, .variableDeclaration _ _ =>
      obtain ⟨value, found, -⟩ := matched.scope.bound bound
      exact ⟨_, .duplicateVariable named found, .error rfl rfl⟩
  | .initializerFails named fresh failed, .variableDeclaration _ initial =>
      obtain ⟨_, evaluated, ⟨⟩ | ⟨kind, message⟩⟩ :=
        (failed.carries replaceable).exchanged replaceable matched.scope initial
      exact ⟨_, .initializerFails named (matched.scope.unbound fresh) evaluated,
        .error kind message⟩
  | .variable named fresh evaluated, .variableDeclaration _ initial =>
      obtain ⟨_, again, corresponding | _⟩ :=
        (evaluated.carries replaceable).exchanged replaceable matched.scope initial
      exact ⟨_, .variable named (matched.scope.unbound fresh) again,
        .ok ⟨matched.scope.bind _ corresponding, matched.output⟩⟩
  | .duplicateFunction named bound, .functionDeclaration _ _ _ =>
      obtain ⟨value, found, -⟩ := matched.scope.bound bound
      exact ⟨_, .duplicateFunction named found, .error rfl rfl⟩
  | .repeatedParameter named fresh distinct again, .functionDeclaration _ _ _ =>
      exact ⟨_, .repeatedParameter named (matched.scope.unbound fresh) distinct again,
        .error rfl rfl⟩
  | .function named fresh distinct, .functionDeclaration _ _ result =>
      have body := declared_isExpression shaped
      refine ⟨_, .function named (matched.scope.unbound fresh) distinct,
        .ok ⟨matched.scope.bind _ ?_, matched.output⟩⟩
      exact .function (parameters_admitted _ _ _ body)
        (parameters_admitted _ _ _ (result.isExpression two body)) result
  | .unboundTarget named unbound, .assignment _ _ =>
      exact ⟨_, .unboundTarget named (matched.scope.unbound unbound), .error rfl rfl⟩
  | .functionTarget named bound function, .assignment _ _ =>
      obtain ⟨value, found, corresponding⟩ := matched.scope.bound bound
      exact ⟨_, .functionTarget named found (corresponding.isFunction_eq ▸ function),
        .error rfl rfl⟩
  | .constantTarget named bound data constant, .assignment _ _ =>
      obtain ⟨value, found, corresponding⟩ := matched.scope.bound bound
      exact ⟨_, .constantTarget named found (corresponding.isFunction_eq ▸ data)
        (matched.scope.constants ▸ constant), .error rfl rfl⟩
  | .sourceFails named assignable failed, .assignment _ assigned =>
      obtain ⟨_, evaluated, ⟨⟩ | ⟨kind, message⟩⟩ :=
        (failed.carries replaceable).exchanged replaceable matched.scope assigned
      exact ⟨_, .sourceFails named (matched.scope.assignable assignable) evaluated,
        .error kind message⟩
  | .assignment named assignable evaluated, .assignment _ assigned =>
      obtain ⟨_, again, corresponding | _⟩ :=
        (evaluated.carries replaceable).exchanged replaceable matched.scope assigned
      exact ⟨_, .assignment named (matched.scope.assignable assignable) again,
        .ok ⟨matched.scope.bind _ corresponding, matched.output⟩⟩
  | .printedFails failed, .printStatement printed =>
      obtain ⟨_, evaluated, ⟨⟩ | ⟨kind, message⟩⟩ :=
        (failed.carries replaceable).exchanged replaceable matched.scope printed
      exact ⟨_, .printedFails evaluated, .error kind message⟩
  | .printStatement evaluated, .printStatement printed =>
      obtain ⟨_, again, corresponding | _⟩ :=
        (evaluated.carries replaceable).exchanged replaceable matched.scope printed
      exact ⟨_, .printStatement again, .ok ⟨matched.scope,
        List.rel_append matched.output (.cons corresponding .nil)⟩⟩
  | .whileStatement repeated, .whileStatement tested each =>
      cases shaped with
      | whileStatement _ inner =>
          obtain ⟨ending, again, alike⟩ :=
            repeated.carries replaceable two inner matched tested each
          exact ⟨ending, .whileStatement again, alike⟩
  | .block executed, .block each =>
      cases shaped with
      | block inner =>
          obtain ⟨ending, again, alike⟩ := executed.carries replaceable two inner matched each
          exact ⟨ending, .block again, alike⟩

theorem ExecutesAll.carries (replaceable : Replaceable vocabulary first second)
    (two : second.IsExpression vocabulary) {statements others : List Node}
    {state following : State} {outcome : Outcome State}
    (shaped : ∀ statement ∈ statements, statement.IsStatement vocabulary)
    (derived : ExecutesAll statements state outcome)
    (matched : state.Matches vocabulary first second following)
    (exchanged : ExchangedStatements first second statements others) :
    ∃ ending, ExecutesAll others following ending ∧
      outcome.Alike (State.Matches vocabulary first second) ending := by
  match derived, exchanged with
  | .nil, .nil => exact ⟨_, .nil, .ok matched⟩
  | .firstFails failed, .cons head _ =>
      rw [List.forall_mem_cons] at shaped
      obtain ⟨_, again, ⟨⟩ | ⟨kind, message⟩⟩ :=
        failed.carries replaceable two shaped.1 matched head
      exact ⟨_, .firstFails again, .error kind message⟩
  | .cons before after, .cons head tail =>
      rw [List.forall_mem_cons] at shaped
      obtain ⟨_, one, reached | _⟩ := before.carries replaceable two shaped.1 matched head
      obtain ⟨ending, rest, alike⟩ := after.carries replaceable two shaped.2 reached tail
      exact ⟨ending, .cons one rest, alike⟩

theorem Repeats.carries (replaceable : Replaceable vocabulary first second)
    (two : second.IsExpression vocabulary) {test otherTest : Node} {statements others : List Node}
    {state following : State} {outcome : Outcome State}
    (shaped : ∀ statement ∈ statements, statement.IsStatement vocabulary)
    (derived : Repeats test statements state outcome)
    (matched : state.Matches vocabulary first second following)
    (tested : Exchanged first second test otherTest)
    (exchanged : ExchangedStatements first second statements others) :
    ∃ ending, Repeats otherTest others following ending ∧
      outcome.Alike (State.Matches vocabulary first second) ending := by
  match derived with
  | .testFails failed =>
      obtain ⟨_, evaluated, ⟨⟩ | ⟨kind, message⟩⟩ :=
        (failed.carries replaceable).exchanged replaceable matched.scope tested
      exact ⟨_, .testFails evaluated, .error kind message⟩
  | .stops before untrue =>
      obtain ⟨_, again, corresponding | _⟩ :=
        (before.carries replaceable).exchanged replaceable matched.scope tested
      exact ⟨_, .stops again (corresponding.untrue untrue), .ok matched⟩
  | .bodyFails before failed =>
      obtain ⟨_, again, ⟨⟨⟩⟩ | _⟩ :=
        (before.carries replaceable).exchanged replaceable matched.scope tested
      obtain ⟨_, executed, ⟨⟩ | ⟨kind, message⟩⟩ :=
        failed.carries replaceable two shaped matched exchanged
      exact ⟨_, .bodyFails again executed, .error kind message⟩
  | .turns before taken further =>
      obtain ⟨_, again, ⟨⟨⟩⟩ | _⟩ :=
        (before.carries replaceable).exchanged replaceable matched.scope tested
      obtain ⟨_, executed, reached | _⟩ :=
        taken.carries replaceable two shaped matched exchanged
      obtain ⟨ending, rest, alike⟩ :=
        further.carries replaceable two shaped reached tested exchanged
      exact ⟨ending, .turns again executed rest, alike⟩

end

end

end Bella
