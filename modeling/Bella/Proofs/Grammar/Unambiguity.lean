import Bella.Proofs.Grammar.Derivation

/-! Tokens have at most one derivation. Two derivations of one symbol that start together are the
same as long as neither is followed by a token that could prolong it, and what may follow a part is
settled by the level that the part stands at. -/

namespace Bella.Source

/-- A terminal with a joint prolongs what stands at that level or at a weaker one. -/
def Terminal.joint? : Terminal → Option Nat
  | .leftParenthesis => some 0
  | .leftBracket => some 1
  | .power => some 2
  | .product => some 3
  | .sum => some 4
  | .relation => some 5
  | .conjunction => some 6
  | .disjunction => some 7
  | .question => some 8
  | _ => none

def Strength.reach : Strength → Nat
  | .power => 3
  | .product => 4
  | .sum => 5
  | .relation => 6
  | .conjunction => 7
  | .disjunction => 8

def Level.reach : Level → Nat
  | .signed => 2
  | .binary strength => strength.reach

/-- The joints below the reach of a symbol are those that may prolong it. -/
def Symbol.reach : Symbol → Nat
  | .primary => 1
  | .subscripts | .subscripted => 2
  | .level place => place.reach
  | .tail strength => strength.reach
  | .expression => 9
  | _ => 0

theorem Strength.reach_operands (strength : Strength) :
    strength.operands.reach + 1 = strength.reach := by
  cases strength <;> rfl

theorem Strength.joint?_terminal (strength : Strength) :
    strength.terminal.joint? = some strength.operands.reach := by
  cases strength <;> rfl

def Symbol.StopsBefore (symbol : Symbol) (rest : List Token) : Prop :=
  match symbol with
  | .program | .statements => ∀ token ∈ rest.head?, token.terminal = .rightBrace
  | .arguments | .moreArguments =>
      ∃ token ∈ rest.head?, token.terminal = .rightParenthesis ∨ token.terminal = .rightBracket
  | _ => ∀ token ∈ rest.head?, ∀ joint ∈ token.terminal.joint?, symbol.reach ≤ joint

def Symbol.mayBeEmpty : Symbol → Bool
  | .statements | .tail _ | .subscripts | .arguments | .moreArguments => true
  | _ => false

def Symbol.starters : Symbol → List Terminal
  | .program | .statement => [.letKeyword, .funKeyword, .printKeyword, .whileKeyword, .name]
  | _ => [.number, .trueKeyword, .falseKeyword, .name, .sign, .leftParenthesis, .leftBracket]

namespace Derivation

theorem starts {symbol : Symbol} (derivation : Derivation symbol)
    (filled : symbol.mayBeEmpty = Bool.false) :
    ∃ first rest, derivation.tokens = first :: rest ∧ first.terminal ∈ symbol.starters := by
  induction derivation with
  | program first _ ih | conditional first _ _ ih | unconditional first ih
  | operation _ first _ ih | unsigned first ih | subscripted first _ ih =>
      obtain ⟨token, rest, split, starter⟩ := ih rfl
      simp only [tokens, split, List.cons_append]
      exact ⟨token, _, rfl, starter⟩
  | noStatements | nextStatement | noOperator | repeated | related | raised | noSubscript
  | nextSubscript | noArguments | arguments | lastArgument | nextArgument =>
      simp [Symbol.mayBeEmpty] at filled
  | _ =>
      refine ⟨_, _, rfl, ?_⟩
      simp [Symbol.starters, Terminal.token, nameToken]

variable {rest : List Token}

theorem not_statements_stopsBefore (first : Derivation .statement) :
    ¬Symbol.statements.StopsBefore (first.tokens ++ rest) := by
  obtain ⟨token, others, split, starter⟩ := first.starts rfl
  intro stops
  have brace : token.terminal = .rightBrace := stops token (by simp [split])
  rw [brace] at starter
  exact absurd starter (by decide)

theorem not_arguments_stopsBefore (first : Derivation .expression) :
    ¬Symbol.arguments.StopsBefore (first.tokens ++ rest) := by
  obtain ⟨token, others, split, starter⟩ := first.starts rfl
  rintro ⟨same, found, closes⟩
  obtain rfl : token = same := by simpa [split] using found
  rcases closes with closes | closes
  · rw [closes] at starter
    exact absurd starter (by decide)
  · rw [closes] at starter
    exact absurd starter (by decide)

theorem stopsBefore_tail {strength : Strength} (tail : Derivation (.tail strength))
    (stops : (Symbol.level (.binary strength)).StopsBefore rest) :
    (Symbol.level strength.operands).StopsBefore (tail.tokens ++ rest) := by
  have joint := strength.joint?_terminal
  cases tail with
  | noOperator =>
      intro token found joint joined
      have bound : strength.reach ≤ joint := stops token found joint joined
      have step := strength.reach_operands
      change strength.operands.reach ≤ joint
      omega
  | repeated | related | raised =>
      simp [tokens, Symbol.StopsBefore, Symbol.reach, Strength.terminal] at joint ⊢
      simp [joint]

theorem stopsBefore_subscripts (subscripts : Derivation .subscripts)
    (stops : Symbol.subscripted.StopsBefore rest) :
    Symbol.primary.StopsBefore (subscripts.tokens ++ rest) := by
  cases subscripts with
  | noSubscript =>
      intro token found joint joined
      have bound : 2 ≤ joint := stops token found joint joined
      exact Nat.le_of_succ_le bound
  | nextSubscript =>
      simp [tokens, Symbol.StopsBefore, Symbol.reach, Terminal.token, Terminal.joint?]

theorem stopsBefore_moreArguments (more : Derivation .moreArguments)
    (stops : Symbol.moreArguments.StopsBefore rest) :
    Symbol.expression.StopsBefore (more.tokens ++ rest) := by
  cases more with
  | lastArgument =>
      obtain ⟨token, found, closes⟩ := stops
      intro same sameFound joint joined
      obtain rfl : token = same := Option.mem_unique found sameFound
      rcases closes with closes | closes <;> simp [closes, Terminal.joint?] at joined
  | nextArgument => simp [tokens, Symbol.StopsBefore, Terminal.token, Terminal.joint?]

theorem moreParameterTokens_inj {first second : List (List Char)} {rest other : List Token}
    (same : moreParameterTokens first ++ Terminal.rightParenthesis.token :: rest =
      moreParameterTokens second ++ Terminal.rightParenthesis.token :: other) :
    first = second ∧ rest = other := by
  induction first generalizing second with
  | nil =>
      cases second with
      | nil => simpa [moreParameterTokens] using same
      | cons => simp [moreParameterTokens, Terminal.token] at same
  | cons name names ih =>
      cases second with
      | nil => simp [moreParameterTokens, Terminal.token] at same
      | cons name' names' =>
          simp only [moreParameterTokens, nameToken, List.cons_append, List.cons.injEq,
            Token.mk.injEq, true_and] at same
          obtain ⟨rfl, later⟩ := same
          obtain ⟨rfl, rfl⟩ := ih later
          exact ⟨rfl, rfl⟩

theorem parameterTokens_inj {first second : List (List Char)} {rest other : List Token}
    (same : parameterTokens first ++ Terminal.rightParenthesis.token :: rest =
      parameterTokens second ++ Terminal.rightParenthesis.token :: other) :
    first = second ∧ rest = other := by
  cases first with
  | nil =>
      cases second with
      | nil => simpa [parameterTokens] using same
      | cons => simp [parameterTokens, nameToken, Terminal.token] at same
  | cons name names =>
      cases second with
      | nil => simp [parameterTokens, nameToken, Terminal.token] at same
      | cons name' names' =>
          simp only [parameterTokens, nameToken, List.cons_append, List.cons.injEq,
            Token.mk.injEq, true_and] at same
          obtain ⟨rfl, later⟩ := same
          obtain ⟨rfl, rfl⟩ := moreParameterTokens_inj later
          exact ⟨rfl, rfl⟩

theorem statement_stopsBefore (rest : List Token) : Symbol.statement.StopsBefore rest := by
  simp [Symbol.StopsBefore, Symbol.reach]

theorem statements_stopsBefore_brace (rest : List Token) :
    Symbol.statements.StopsBefore (Terminal.rightBrace.token :: rest) := by
  simp [Symbol.StopsBefore, Terminal.token]

theorem arguments_stopsBefore_parenthesis (rest : List Token) :
    Symbol.arguments.StopsBefore (Terminal.rightParenthesis.token :: rest) :=
  ⟨_, rfl, .inl rfl⟩

theorem arguments_stopsBefore_bracket (rest : List Token) :
    Symbol.arguments.StopsBefore (Terminal.rightBracket.token :: rest) :=
  ⟨_, rfl, .inr rfl⟩

theorem disjunction_stopsBefore_question (rest : List Token) :
    (Symbol.level (.binary .disjunction)).StopsBefore (Terminal.question.token :: rest) := by
  simp [Symbol.StopsBefore, Symbol.reach, Level.reach, Strength.reach, Terminal.token,
    Terminal.joint?]

theorem disjunction_stopsBefore_expression (stops : Symbol.expression.StopsBefore rest) :
    (Symbol.level (.binary .disjunction)).StopsBefore rest := by
  intro token found joint joined
  have bound : 9 ≤ joint := stops token found joint joined
  exact Nat.le_of_succ_le bound

theorem not_expression_stopsBefore_question (rest : List Token) :
    ¬Symbol.expression.StopsBefore (Terminal.question.token :: rest) := by
  simp [Symbol.StopsBefore, Symbol.reach, Terminal.token, Terminal.joint?]

theorem not_tail_stopsBefore (strength : Strength) (operator : List Char) (rest : List Token) :
    ¬(Symbol.tail strength).StopsBefore (⟨strength.terminal, operator⟩ :: rest) := by
  intro stops
  have bound : strength.reach ≤ strength.operands.reach :=
    stops _ rfl _ strength.joint?_terminal
  have step := strength.reach_operands
  omega

theorem not_subscripts_stopsBefore (rest : List Token) :
    ¬Symbol.subscripts.StopsBefore (Terminal.leftBracket.token :: rest) := by
  simp [Symbol.StopsBefore, Symbol.reach, Terminal.token, Terminal.joint?]

theorem not_primary_stopsBefore (rest : List Token) :
    ¬Symbol.primary.StopsBefore (Terminal.leftParenthesis.token :: rest) := by
  simp [Symbol.StopsBefore, Symbol.reach, Terminal.token, Terminal.joint?]

theorem not_moreArguments_stopsBefore (rest : List Token) :
    ¬Symbol.moreArguments.StopsBefore (Terminal.comma.token :: rest) := by
  simp [Symbol.StopsBefore, Terminal.token]

theorem unsigned_ne_signed {operator : List Char} {other : List Token}
    (operand : Derivation .subscripted) :
    (unsigned operand).tokens ++ rest ≠ ⟨.sign, operator⟩ :: other := by
  cases operand with
  | subscripted operand more => cases operand <;> simp [tokens, Terminal.token, nameToken]

theorem stopsBefore_token {symbol : Symbol} {terminal : Terminal} (rest : List Token)
    (level : symbol.mayBeEmpty = Bool.false) (inner : symbol ≠ .program)
    (closes : terminal.joint? = none) : symbol.StopsBefore (terminal.token :: rest) := by
  cases symbol <;> simp_all [Symbol.StopsBefore, Symbol.mayBeEmpty, Terminal.token]

/-- Another derivation that starts with the same tokens is the same, as long as neither is followed
by a token that could prolong it. -/
def Unique {symbol : Symbol} (first : Derivation symbol) : Prop :=
  ∀ (second : Derivation symbol) (rest other : List Token), symbol.StopsBefore rest →
    symbol.StopsBefore other → first.tokens ++ rest = second.tokens ++ other →
    first = second ∧ rest = other

namespace Unique

variable {other : List Token} {symbol next : Symbol}

/-- A part ends at the token that is expected after it. -/
theorem ended {first second : Derivation symbol} {token : Token} (unique : first.Unique)
    (stops : ∀ rest, symbol.StopsBefore (token :: rest))
    (same : first.tokens ++ token :: rest = second.tokens ++ token :: other) :
    first = second ∧ rest = other := by
  obtain ⟨rfl, later⟩ := unique second _ _ (stops rest) (stops other) same
  exact ⟨rfl, (List.cons.inj later).2⟩

/-- A part ends where the next one starts, and that one ends where the rest does. -/
theorem followed {first second : Derivation symbol} {more others : Derivation next}
    (unique : first.Unique) (moreUnique : more.Unique)
    (begins : ∀ (more : Derivation next) (rest : List Token), next.StopsBefore rest →
      symbol.StopsBefore (more.tokens ++ rest))
    (stops : next.StopsBefore rest) (stopsToo : next.StopsBefore other)
    (same : first.tokens ++ (more.tokens ++ rest) = second.tokens ++ (others.tokens ++ other)) :
    first = second ∧ more = others ∧ rest = other := by
  obtain ⟨rfl, later⟩ :=
    unique second _ _ (begins more rest stops) (begins others other stopsToo) same
  obtain ⟨rfl, rfl⟩ := moreUnique others _ _ stops stopsToo later
  exact ⟨rfl, rfl, rfl⟩

/-! Each rule of the grammar keeps derivations unique. What a part is followed by stops it, so the
parts of two derivations end at the same tokens one after the other. -/

theorem program {first : Derivation .statement} {more : Derivation .statements}
    (firstUnique : first.Unique) (moreUnique : more.Unique) :
    (Derivation.program first more).Unique := by
  intro second rest other stops stopsToo same
  cases second with
  | program first' more' =>
      simp only [tokens, List.append_assoc] at same
      obtain ⟨rfl, rfl, rfl⟩ := firstUnique.followed moreUnique
        (fun _ _ _ => statement_stopsBefore _) stops stopsToo same
      exact ⟨rfl, rfl⟩

theorem noStatements : Derivation.noStatements.Unique := by
  intro second rest other stops stopsToo same
  cases second with
  | noStatements => exact ⟨rfl, same⟩
  | nextStatement first' more' =>
      simp only [tokens, List.nil_append, List.append_assoc] at same
      exact absurd (same ▸ stops) (not_statements_stopsBefore first')

theorem nextStatement {first : Derivation .statement} {more : Derivation .statements}
    (firstUnique : first.Unique) (moreUnique : more.Unique) :
    (Derivation.nextStatement first more).Unique := by
  intro second rest other stops stopsToo same
  cases second with
  | noStatements =>
      simp only [tokens, List.nil_append, List.append_assoc] at same
      exact absurd (same ▸ stopsToo) (not_statements_stopsBefore first)
  | nextStatement first' more' =>
      simp only [tokens, List.append_assoc] at same
      obtain ⟨rfl, rfl, rfl⟩ := firstUnique.followed moreUnique
        (fun _ _ _ => statement_stopsBefore _) stops stopsToo same
      exact ⟨rfl, rfl⟩

theorem declaration (name : List Char) {value : Derivation .expression}
    (valueUnique : value.Unique) : (Derivation.declaration name value).Unique := by
  intro second rest other stops stopsToo same
  cases second with
  | declaration name' value' =>
      simp only [tokens, nameToken, List.cons_append, List.append_assoc, List.cons.injEq,
        Token.mk.injEq, true_and, List.nil_append] at same
      obtain ⟨rfl, later⟩ := same
      obtain ⟨rfl, rfl⟩ := valueUnique.ended (stopsBefore_token · rfl (by simp) rfl) later
      exact ⟨rfl, rfl⟩
  | _ => simp [tokens, Terminal.token, nameToken] at same

theorem function (name : List Char) (parameters : List (List Char)) {value : Derivation .expression}
    (valueUnique : value.Unique) : (Derivation.function name parameters value).Unique := by
  intro second rest other stops stopsToo same
  cases second with
  | function name' parameters' value' =>
      simp only [tokens, nameToken, List.cons_append, List.append_assoc, List.cons.injEq,
        Token.mk.injEq, true_and, List.nil_append] at same
      obtain ⟨rfl, later⟩ := same
      obtain ⟨rfl, afterParameters⟩ := parameterTokens_inj later
      obtain ⟨rfl, rfl⟩ := valueUnique.ended (stopsBefore_token · rfl (by simp) rfl)
        (List.cons.inj afterParameters).2
      exact ⟨rfl, rfl⟩
  | _ => simp [tokens, Terminal.token, nameToken] at same

theorem assignment (name : List Char) {value : Derivation .expression}
    (valueUnique : value.Unique) : (Derivation.assignment name value).Unique := by
  intro second rest other stops stopsToo same
  cases second with
  | assignment name' value' =>
      simp only [tokens, nameToken, List.cons_append, List.append_assoc, List.cons.injEq,
        Token.mk.injEq, true_and, List.nil_append] at same
      obtain ⟨rfl, later⟩ := same
      obtain ⟨rfl, rfl⟩ := valueUnique.ended (stopsBefore_token · rfl (by simp) rfl) later
      exact ⟨rfl, rfl⟩
  | _ => simp [tokens, Terminal.token, nameToken] at same

theorem print {value : Derivation .expression} (valueUnique : value.Unique) :
    (Derivation.print value).Unique := by
  intro second rest other stops stopsToo same
  cases second with
  | print value' =>
      simp only [tokens, List.cons_append, List.append_assoc, List.cons.injEq, true_and,
        List.nil_append] at same
      obtain ⟨rfl, rfl⟩ := valueUnique.ended (stopsBefore_token · rfl (by simp) rfl) same
      exact ⟨rfl, rfl⟩
  | _ => simp [tokens, Terminal.token, nameToken] at same

theorem loop {guard : Derivation .expression} {body : Derivation .statements}
    (guardUnique : guard.Unique) (bodyUnique : body.Unique) :
    (Derivation.loop guard body).Unique := by
  intro second rest other stops stopsToo same
  cases second with
  | loop guard' body' =>
      simp only [tokens, List.cons_append, List.append_assoc, List.cons.injEq, true_and,
        List.nil_append] at same
      obtain ⟨rfl, later⟩ := guardUnique.ended (stopsBefore_token · rfl (by simp) rfl) same
      obtain ⟨rfl, rfl⟩ := bodyUnique.ended statements_stopsBefore_brace later
      exact ⟨rfl, rfl⟩
  | _ => simp [tokens, Terminal.token, nameToken] at same

theorem conditional {test consequent : Derivation (.level (.binary .disjunction))}
    {alternate : Derivation .expression} (testUnique : test.Unique)
    (consequentUnique : consequent.Unique) (alternateUnique : alternate.Unique) :
    (Derivation.conditional test consequent alternate).Unique := by
  intro second rest other stops stopsToo same
  cases second with
  | conditional test' consequent' alternate' =>
      simp only [tokens, List.cons_append, List.append_assoc] at same
      obtain ⟨rfl, later⟩ := testUnique.ended disjunction_stopsBefore_question same
      obtain ⟨rfl, last⟩ := consequentUnique.ended (stopsBefore_token · rfl (by simp) rfl) later
      obtain ⟨rfl, rfl⟩ := alternateUnique alternate' _ _ stops stopsToo last
      exact ⟨rfl, rfl⟩
  | unconditional value' =>
      simp only [tokens, List.cons_append, List.append_assoc] at same
      obtain ⟨rfl, rfl⟩ := testUnique value' _ _ (disjunction_stopsBefore_question _)
        (disjunction_stopsBefore_expression stopsToo) same
      exact absurd stopsToo (not_expression_stopsBefore_question _)

theorem unconditional {value : Derivation (.level (.binary .disjunction))}
    (valueUnique : value.Unique) : (Derivation.unconditional value).Unique := by
  intro second rest other stops stopsToo same
  cases second with
  | conditional test' consequent' alternate' =>
      simp only [tokens, List.cons_append, List.append_assoc] at same
      obtain ⟨rfl, rfl⟩ := valueUnique test' _ _ (disjunction_stopsBefore_expression stops)
        (disjunction_stopsBefore_question _) same
      exact absurd stops (not_expression_stopsBefore_question _)
  | unconditional value' =>
      obtain ⟨rfl, rfl⟩ := valueUnique value' _ _ (disjunction_stopsBefore_expression stops)
        (disjunction_stopsBefore_expression stopsToo) same
      exact ⟨rfl, rfl⟩

theorem operation {strength : Strength} {first : Derivation (.level strength.operands)}
    {tail : Derivation (.tail strength)} (firstUnique : first.Unique) (tailUnique : tail.Unique) :
    (Derivation.operation strength first tail).Unique := by
  intro second rest other stops stopsToo same
  cases second with
  | operation _ first' tail' =>
      simp only [tokens, List.append_assoc] at same
      obtain ⟨rfl, rfl, rfl⟩ := firstUnique.followed tailUnique
        (fun more _ => stopsBefore_tail more) stops stopsToo same
      exact ⟨rfl, rfl⟩

theorem noOperator (strength : Strength) : (Derivation.noOperator strength).Unique := by
  intro second rest other stops stopsToo same
  cases second with
  | noOperator => exact ⟨rfl, same⟩
  | _ =>
      simp only [tokens, List.nil_append, List.cons_append] at same
      exact absurd (same ▸ stops) (not_tail_stopsBefore _ _ _)

theorem repeated {strength : Strength} (repeats : strength.Repeats) (operator : List Char)
    {right : Derivation (.level strength.operands)} {tail : Derivation (.tail strength)}
    (rightUnique : right.Unique) (tailUnique : tail.Unique) :
    (Derivation.repeated strength repeats operator right tail).Unique := by
  intro second rest other stops stopsToo same
  cases second with
  | noOperator =>
      simp only [tokens, List.nil_append, List.cons_append] at same
      exact absurd (same ▸ stopsToo) (not_tail_stopsBefore _ _ _)
  | repeated _ repeats' operator' right' tail' =>
      simp only [tokens, List.cons_append, List.append_assoc, List.cons.injEq, Token.mk.injEq,
        true_and] at same
      obtain ⟨rfl, later⟩ := same
      obtain ⟨rfl, rfl, rfl⟩ := rightUnique.followed tailUnique
        (fun more _ => stopsBefore_tail more) stops stopsToo later
      exact ⟨rfl, rfl⟩
  | related | raised => exact repeats.elim

theorem related (operator : List Char) {right : Derivation (.level (.binary .sum))}
    (rightUnique : right.Unique) : (Derivation.related operator right).Unique := by
  intro second rest other stops stopsToo same
  cases second with
  | noOperator =>
      simp only [tokens, List.nil_append, List.cons_append] at same
      exact absurd (same ▸ stopsToo) (not_tail_stopsBefore .relation _ _)
  | repeated _ repeats => exact repeats.elim
  | related operator' right' =>
      simp only [tokens, List.cons_append, List.cons.injEq, Token.mk.injEq, true_and] at same
      obtain ⟨rfl, later⟩ := same
      obtain ⟨rfl, rfl⟩ := rightUnique right' _ _ (stopsBefore_tail (.noOperator .relation) stops)
        (stopsBefore_tail (.noOperator .relation) stopsToo) later
      exact ⟨rfl, rfl⟩

theorem raised (operator : List Char) {exponent : Derivation (.level (.binary .power))}
    (exponentUnique : exponent.Unique) : (Derivation.raised operator exponent).Unique := by
  intro second rest other stops stopsToo same
  cases second with
  | noOperator =>
      simp only [tokens, List.nil_append, List.cons_append] at same
      exact absurd (same ▸ stopsToo) (not_tail_stopsBefore .power _ _)
  | repeated _ repeats => exact repeats.elim
  | raised operator' exponent' =>
      simp only [tokens, List.cons_append, List.cons.injEq, Token.mk.injEq, true_and] at same
      obtain ⟨rfl, later⟩ := same
      obtain ⟨rfl, rfl⟩ := exponentUnique exponent' _ _ stops stopsToo later
      exact ⟨rfl, rfl⟩

theorem signed (operator : List Char) {operand : Derivation (.level .signed)}
    (operandUnique : operand.Unique) : (Derivation.signed operator operand).Unique := by
  intro second rest other stops stopsToo same
  cases second with
  | signed operator' operand' =>
      simp only [tokens, List.cons_append, List.cons.injEq, Token.mk.injEq, true_and] at same
      obtain ⟨rfl, later⟩ := same
      obtain ⟨rfl, rfl⟩ := operandUnique operand' _ _ stops stopsToo later
      exact ⟨rfl, rfl⟩
  | unsigned operand' => exact absurd same.symm (unsigned_ne_signed operand')

theorem unsigned {operand : Derivation .subscripted} (operandUnique : operand.Unique) :
    (Derivation.unsigned operand).Unique := by
  intro second rest other stops stopsToo same
  cases second with
  | signed operator' operand' => exact absurd same (unsigned_ne_signed operand)
  | unsigned operand' =>
      obtain ⟨rfl, rfl⟩ := operandUnique operand' _ _ stops stopsToo same
      exact ⟨rfl, rfl⟩

theorem subscripted {operand : Derivation .primary} {more : Derivation .subscripts}
    (operandUnique : operand.Unique) (moreUnique : more.Unique) :
    (Derivation.subscripted operand more).Unique := by
  intro second rest other stops stopsToo same
  cases second with
  | subscripted operand' more' =>
      simp only [tokens, List.append_assoc] at same
      obtain ⟨rfl, rfl, rfl⟩ := operandUnique.followed moreUnique
        (fun more _ => stopsBefore_subscripts more) stops stopsToo same
      exact ⟨rfl, rfl⟩

theorem noSubscript : Derivation.noSubscript.Unique := by
  intro second rest other stops stopsToo same
  cases second with
  | noSubscript => exact ⟨rfl, same⟩
  | nextSubscript =>
      simp only [tokens, List.nil_append, List.cons_append] at same
      exact absurd (same ▸ stops) (not_subscripts_stopsBefore _)

theorem nextSubscript {subscript : Derivation .expression} {more : Derivation .subscripts}
    (subscriptUnique : subscript.Unique) (moreUnique : more.Unique) :
    (Derivation.nextSubscript subscript more).Unique := by
  intro second rest other stops stopsToo same
  cases second with
  | noSubscript =>
      simp only [tokens, List.nil_append, List.cons_append] at same
      exact absurd (same ▸ stopsToo) (not_subscripts_stopsBefore _)
  | nextSubscript subscript' more' =>
      simp only [tokens, List.cons_append, List.append_assoc, List.cons.injEq, true_and] at same
      obtain ⟨rfl, later⟩ := subscriptUnique.ended (stopsBefore_token · rfl (by simp) rfl) same
      obtain ⟨rfl, rfl⟩ := moreUnique more' _ _ stops stopsToo later
      exact ⟨rfl, rfl⟩

theorem number (lexeme : List Char) : (Derivation.number lexeme).Unique := by
  intro second rest other stops stopsToo same
  cases second with
  | number lexeme' => simpa [tokens] using same
  | _ => simp [tokens, Terminal.token, nameToken] at same

theorem trueKeyword : Derivation.true.Unique := by
  intro second rest other stops stopsToo same
  cases second with
  | true => exact ⟨rfl, (List.cons.inj same).2⟩
  | _ => simp [tokens, Terminal.token, nameToken] at same

theorem falseKeyword : Derivation.false.Unique := by
  intro second rest other stops stopsToo same
  cases second with
  | false => exact ⟨rfl, (List.cons.inj same).2⟩
  | _ => simp [tokens, Terminal.token, nameToken] at same

theorem call (callee : List Char) {given : Derivation .arguments} (givenUnique : given.Unique) :
    (Derivation.call callee given).Unique := by
  intro second rest other stops stopsToo same
  cases second with
  | call callee' given' =>
      simp only [tokens, nameToken, List.cons_append, List.append_assoc, List.cons.injEq,
        Token.mk.injEq, true_and, List.nil_append] at same
      obtain ⟨rfl, later⟩ := same
      obtain ⟨rfl, rfl⟩ := givenUnique.ended arguments_stopsBefore_parenthesis later
      exact ⟨rfl, rfl⟩
  | identifier name' =>
      simp only [tokens, List.cons_append, List.nil_append, List.cons.injEq] at same
      exact absurd (same.2 ▸ stopsToo) (not_primary_stopsBefore _)
  | _ => simp [tokens, Terminal.token, nameToken] at same

theorem identifier (name : List Char) : (Derivation.identifier name).Unique := by
  intro second rest other stops stopsToo same
  cases second with
  | call callee' given' =>
      simp only [tokens, List.cons_append, List.nil_append, List.cons.injEq] at same
      exact absurd (same.2 ▸ stops) (not_primary_stopsBefore _)
  | identifier name' => simpa [tokens, nameToken] using same
  | _ => simp [tokens, Terminal.token, nameToken] at same

theorem group {inner : Derivation .expression} (innerUnique : inner.Unique) :
    (Derivation.group inner).Unique := by
  intro second rest other stops stopsToo same
  cases second with
  | group inner' =>
      simp only [tokens, List.cons_append, List.append_assoc, List.cons.injEq, true_and,
        List.nil_append] at same
      obtain ⟨rfl, rfl⟩ := innerUnique.ended (stopsBefore_token · rfl (by simp) rfl) same
      exact ⟨rfl, rfl⟩
  | _ => simp [tokens, Terminal.token, nameToken] at same

theorem array {elements : Derivation .arguments} (elementsUnique : elements.Unique) :
    (Derivation.array elements).Unique := by
  intro second rest other stops stopsToo same
  cases second with
  | array elements' =>
      simp only [tokens, List.cons_append, List.append_assoc, List.cons.injEq, true_and,
        List.nil_append] at same
      obtain ⟨rfl, rfl⟩ := elementsUnique.ended arguments_stopsBefore_bracket same
      exact ⟨rfl, rfl⟩
  | _ => simp [tokens, Terminal.token, nameToken] at same

theorem noArguments : Derivation.noArguments.Unique := by
  intro second rest other stops stopsToo same
  cases second with
  | noArguments => exact ⟨rfl, same⟩
  | arguments first' more' =>
      simp only [tokens, List.nil_append, List.append_assoc] at same
      exact absurd (same ▸ stops) (not_arguments_stopsBefore first')

theorem arguments {first : Derivation .expression} {more : Derivation .moreArguments}
    (firstUnique : first.Unique) (moreUnique : more.Unique) :
    (Derivation.arguments first more).Unique := by
  intro second rest other stops stopsToo same
  cases second with
  | noArguments =>
      simp only [tokens, List.nil_append, List.append_assoc] at same
      exact absurd (same ▸ stopsToo) (not_arguments_stopsBefore first)
  | arguments first' more' =>
      simp only [tokens, List.append_assoc] at same
      obtain ⟨rfl, rfl, rfl⟩ := firstUnique.followed moreUnique
        (fun more _ => stopsBefore_moreArguments more) stops stopsToo same
      exact ⟨rfl, rfl⟩

theorem lastArgument : Derivation.lastArgument.Unique := by
  intro second rest other stops stopsToo same
  cases second with
  | lastArgument => exact ⟨rfl, same⟩
  | nextArgument =>
      simp only [tokens, List.nil_append, List.cons_append] at same
      exact absurd (same ▸ stops) (not_moreArguments_stopsBefore _)

theorem nextArgument {next : Derivation .expression} {more : Derivation .moreArguments}
    (nextUnique : next.Unique) (moreUnique : more.Unique) :
    (Derivation.nextArgument next more).Unique := by
  intro second rest other stops stopsToo same
  cases second with
  | lastArgument =>
      simp only [tokens, List.nil_append, List.cons_append] at same
      exact absurd (same ▸ stopsToo) (not_moreArguments_stopsBefore _)
  | nextArgument next' more' =>
      simp only [tokens, List.cons_append, List.append_assoc, List.cons.injEq, true_and] at same
      obtain ⟨rfl, rfl, rfl⟩ := nextUnique.followed moreUnique
        (fun more _ => stopsBefore_moreArguments more) stops stopsToo same
      exact ⟨rfl, rfl⟩

end Unique

/-- The induction is on the first derivation, by the rule that it ends with. -/
theorem unambiguous {symbol : Symbol} (derivation : Derivation symbol) : derivation.Unique := by
  induction derivation with
  | program _ _ first more => exact .program first more
  | noStatements => exact .noStatements
  | nextStatement _ _ first more => exact .nextStatement first more
  | declaration name _ value => exact .declaration name value
  | function name parameters _ value => exact .function name parameters value
  | assignment name _ value => exact .assignment name value
  | print _ value => exact .print value
  | loop _ _ guard body => exact .loop guard body
  | conditional _ _ _ test consequent alternate => exact .conditional test consequent alternate
  | unconditional _ value => exact .unconditional value
  | operation _ _ _ first tail => exact .operation first tail
  | noOperator strength => exact .noOperator strength
  | repeated _ repeats operator _ _ right tail => exact .repeated repeats operator right tail
  | related operator _ right => exact .related operator right
  | raised operator _ exponent => exact .raised operator exponent
  | signed operator _ operand => exact .signed operator operand
  | unsigned _ operand => exact .unsigned operand
  | subscripted _ _ operand more => exact .subscripted operand more
  | noSubscript => exact .noSubscript
  | nextSubscript _ _ subscript more => exact .nextSubscript subscript more
  | number lexeme => exact .number lexeme
  | true => exact .trueKeyword
  | false => exact .falseKeyword
  | call callee _ given => exact .call callee given
  | identifier name => exact .identifier name
  | group _ inner => exact .group inner
  | array _ elements => exact .array elements
  | noArguments => exact .noArguments
  | arguments _ _ first more => exact .arguments first more
  | lastArgument => exact .lastArgument
  | nextArgument _ _ next more => exact .nextArgument next more

end Derivation

end Bella.Source
