import Bella.Proofs.Grammar.Derivation

/-! The grammar read forwards. A goal says what is wanted of a meaning and of the tokens that come
after it; a symbol is read before a goal when some derivation of it can be split off the tokens so
that the goal holds. Each symbol has one equation, which follows its alternatives. -/

namespace Bella.Source

abbrev Goal (α : Type) := α → List Token → Prop

def Reads (symbol : Symbol) (goal : Goal symbol.Meaning) (tokens : List Token) : Prop :=
  ∃ (derivation : Derivation symbol) (rest : List Token),
    tokens = derivation.tokens ++ rest ∧ goal derivation.meaning rest

def Meets (terminal : Terminal) (goal : List Token → Prop) (tokens : List Token) : Prop :=
  ∃ rest, tokens = terminal.token :: rest ∧ goal rest

def Takes (terminal : Terminal) (goal : Goal (List Char)) (tokens : List Token) : Prop :=
  ∃ lexeme rest, tokens = ⟨terminal, lexeme⟩ :: rest ∧ goal lexeme rest

def ReadsParameters (goal : Goal (List (List Char))) (tokens : List Token) : Prop :=
  ∃ parameters rest,
    tokens = parameterTokens parameters ++ Terminal.rightParenthesis.token :: rest ∧
      goal parameters rest

theorem meets_cons {terminal : Terminal} {goal : List Token → Prop} {token : Token}
    {tokens : List Token} (spelled : token.WellSpelled) (single : terminal.spelling?.isSome) :
    Meets terminal goal (token :: tokens) ↔ token.terminal = terminal ∧ goal tokens := by
  constructor
  · rintro ⟨rest, same, reached⟩
    obtain ⟨rfl, rfl⟩ := List.cons.inj same
    exact ⟨rfl, reached⟩
  · rintro ⟨rfl, reached⟩
    exact ⟨tokens, by rw [← spelled.eq_token single], reached⟩

theorem takes_cons {terminal : Terminal} {goal : Goal (List Char)} {token : Token}
    {tokens : List Token} :
    Takes terminal goal (token :: tokens) ↔
      token.terminal = terminal ∧ goal token.lexeme tokens := by
  constructor
  · rintro ⟨lexeme, rest, same, reached⟩
    obtain ⟨rfl, rfl⟩ := List.cons.inj same
    exact ⟨rfl, reached⟩
  · rintro ⟨rfl, reached⟩
    exact ⟨token.lexeme, tokens, rfl, reached⟩

section

variable {tokens : List Token}

theorem reads_statements {goal : Goal (List Node)} :
    Reads .statements goal tokens ↔
      goal [] tokens ∨
        Reads .statement (fun first => Reads .statements fun rest => goal (first :: rest))
          tokens := by
  constructor
  · rintro ⟨derivation, rest, rfl, reached⟩
    cases derivation with
    | noStatements => exact .inl reached
    | nextStatement first more =>
        exact .inr ⟨first, _, List.append_assoc _ _ _, more, rest, rfl, reached⟩
  · rintro (reached | ⟨first, _, rfl, more, rest, rfl, reached⟩)
    · exact ⟨.noStatements, tokens, rfl, reached⟩
    · exact ⟨.nextStatement first more, rest, (List.append_assoc _ _ _).symm, reached⟩

def ReadsStatement (goal : Goal Node) (token : Token) : List Token → Prop :=
  match token.terminal with
  | .letKeyword => Takes .name fun name => Meets .equal <| Reads .expression fun value =>
      Meets .semicolon <|
        goal (.variableDeclaration (.identifier (.text (String.ofList name))) value)
  | .funKeyword => Takes .name fun name => Meets .leftParenthesis <|
      ReadsParameters fun parameters => Meets .equal <| Reads .expression fun body =>
        Meets .semicolon <|
          goal (.functionDeclaration (.identifier (.text (String.ofList name)))
            (parameters.map fun parameter => .identifier (.text (String.ofList parameter))) body)
  | .name => Meets .equal <| Reads .expression fun value => Meets .semicolon <|
      goal (.assignment (.identifier (.text (String.ofList token.lexeme))) value)
  | .printKeyword => Reads .expression fun value => Meets .semicolon <|
      goal (.printStatement value)
  | .whileKeyword => Reads .expression fun guard => Meets .leftBrace <|
      Reads .statements fun body => Meets .rightBrace <|
        goal (.whileStatement guard (.block body))
  | _ => fun _ => False

theorem reads_statement_cons {goal : Goal Node} {token : Token} (spelled : token.WellSpelled) :
    Reads .statement goal (token :: tokens) ↔ ReadsStatement goal token tokens := by
  constructor
  · rintro ⟨derivation, rest, same, reached⟩
    cases derivation with
    | declaration name value =>
        obtain ⟨rfl, rfl⟩ := List.cons.inj same
        exact ⟨name, _, rfl, _, rfl, value, _, List.append_assoc _ _ _, rest, rfl, reached⟩
    | function name parameters body =>
        obtain ⟨rfl, rfl⟩ := List.cons.inj same
        refine ⟨name, _, rfl, _, rfl, parameters, _, List.append_assoc _ _ _, _, rfl, body, _,
          List.append_assoc _ _ _, rest, rfl, reached⟩
    | assignment name value =>
        obtain ⟨rfl, rfl⟩ := List.cons.inj same
        exact ⟨_, rfl, value, _, List.append_assoc _ _ _, rest, rfl, reached⟩
    | print value =>
        obtain ⟨rfl, rfl⟩ := List.cons.inj same
        exact ⟨value, _, List.append_assoc _ _ _, rest, rfl, reached⟩
    | loop guard body =>
        obtain ⟨rfl, rfl⟩ := List.cons.inj same
        exact ⟨guard, _, List.append_assoc _ _ _, _, rfl, body, _, List.append_assoc _ _ _,
          rest, rfl, reached⟩
  · intro reached
    obtain ⟨terminal, lexeme⟩ := token
    cases terminal
    case letKeyword =>
      obtain ⟨name, _, rfl, _, rfl, value, _, rfl, rest, rfl, reached⟩ := reached
      refine ⟨.declaration name value, rest, ?_, reached⟩
      rw [spelled.eq_token rfl]
      simp [Derivation.tokens, nameToken]
    case funKeyword =>
      obtain ⟨name, _, rfl, _, rfl, parameters, _, rfl, _, rfl, body, _, rfl, rest, rfl,
        reached⟩ := reached
      refine ⟨.function name parameters body, rest, ?_, reached⟩
      rw [spelled.eq_token rfl]
      simp [Derivation.tokens, nameToken]
    case name =>
      obtain ⟨_, rfl, value, _, rfl, rest, rfl, reached⟩ := reached
      exact ⟨.assignment lexeme value, rest, by simp [Derivation.tokens, nameToken], reached⟩
    case printKeyword =>
      obtain ⟨value, _, rfl, rest, rfl, reached⟩ := reached
      refine ⟨.print value, rest, ?_, reached⟩
      rw [spelled.eq_token rfl]
      simp [Derivation.tokens]
    case whileKeyword =>
      obtain ⟨guard, _, rfl, _, rfl, body, _, rfl, rest, rfl, reached⟩ := reached
      refine ⟨.loop guard body, rest, ?_, reached⟩
      rw [spelled.eq_token rfl]
      simp [Derivation.tokens]
    all_goals exact reached.elim

theorem not_reads_statement_nil {goal : Goal Node} : ¬Reads .statement goal [] := by
  rintro ⟨derivation, rest, same, -⟩
  cases derivation <;> simp [Derivation.tokens] at same

def OrCondition (goal : Goal Node) : Goal Node := fun test tokens =>
  goal test tokens ∨
    Meets .question (Reads (.level (.binary .disjunction)) fun consequent =>
      Meets .colon <| Reads .expression fun alternate =>
        goal (.conditionalExpression test consequent alternate)) tokens

theorem reads_expression {goal : Goal Node} :
    Reads .expression goal tokens ↔
      Reads (.level (.binary .disjunction)) (OrCondition goal) tokens := by
  constructor
  · rintro ⟨derivation, rest, rfl, reached⟩
    cases derivation with
    | conditional test consequent alternate =>
        exact ⟨test, _, List.append_assoc _ _ _, .inr ⟨_, rfl, consequent, _,
          List.append_assoc _ _ _, _, rfl, alternate, rest, rfl, reached⟩⟩
    | unconditional value => exact ⟨value, rest, rfl, .inl reached⟩
  · rintro ⟨value, rest, rfl, reached |
      ⟨_, rfl, consequent, _, rfl, _, rfl, alternate, rest, rfl, reached⟩⟩
    · exact ⟨.unconditional value, rest, rfl, reached⟩
    · exact ⟨.conditional value consequent alternate, rest, by simp [Derivation.tokens], reached⟩

def Extended (strength : Strength) (goal : Goal Node) : Goal Node := fun first =>
  Reads (.tail strength) fun finish => goal (finish first)

theorem reads_level {strength : Strength} {goal : Goal Node} :
    Reads (.level (.binary strength)) goal tokens ↔
      Reads (.level strength.operands) (Extended strength goal) tokens := by
  constructor
  · rintro ⟨derivation, rest, rfl, reached⟩
    cases derivation with
    | operation strength first tail =>
        exact ⟨first, _, List.append_assoc _ _ _, tail, rest, rfl, reached⟩
  · rintro ⟨first, _, rfl, tail, rest, rfl, reached⟩
    exact ⟨.operation strength first tail, rest, (List.append_assoc _ _ _).symm, reached⟩

def Operated (strength : Strength) (operator : List Char) (left : Node) (goal : Goal Node) :
    List Token → Prop :=
  match strength with
  | .power => Reads (.level (.binary .power)) fun right =>
      goal (Construction.binary (String.ofList operator) left right)
  | .relation => Reads (.level (.binary .sum)) fun right =>
      goal (Construction.binary (String.ofList operator) left right)
  | other => Reads (.level other.operands) fun right =>
      Extended other goal (Construction.binary (String.ofList operator) left right)

theorem extended_iff {strength : Strength} {goal : Goal Node} {first : Node} :
    Extended strength goal first tokens ↔
      goal first tokens ∨
        Takes strength.terminal (fun operator => Operated strength operator first goal)
          tokens := by
  constructor
  · rintro ⟨derivation, rest, rfl, reached⟩
    cases derivation with
    | noOperator => exact .inl reached
    | repeated strength repeats operator right tail =>
        refine .inr ⟨operator, _, rfl, ?_⟩
        cases strength <;> first
          | exact repeats.elim
          | exact ⟨right, _, List.append_assoc _ _ _, tail, rest, rfl, reached⟩
    | related operator right => exact .inr ⟨operator, _, rfl, right, rest, rfl, reached⟩
    | raised operator exponent => exact .inr ⟨operator, _, rfl, exponent, rest, rfl, reached⟩
  · rintro (reached | ⟨operator, _, rfl, reached⟩)
    · exact ⟨.noOperator strength, tokens, rfl, reached⟩
    · cases strength
      case relation =>
        obtain ⟨right, rest, rfl, reached⟩ := reached
        exact ⟨.related operator right, rest, rfl, reached⟩
      case power =>
        obtain ⟨exponent, rest, rfl, reached⟩ := reached
        exact ⟨.raised operator exponent, rest, rfl, reached⟩
      all_goals
        obtain ⟨right, _, rfl, tail, rest, rfl, reached⟩ := reached
        refine ⟨.repeated _ trivial operator right tail, rest, ?_, reached⟩
        simp [Derivation.tokens, Strength.terminal]

theorem reads_signed {goal : Goal Node} :
    Reads (.level .signed) goal tokens ↔
      Takes .sign (fun operator => Reads (.level .signed) fun operand =>
        goal (.unaryExpression (.text (String.ofList operator)) operand)) tokens ∨
      Reads .subscripted goal tokens := by
  constructor
  · rintro ⟨derivation, rest, rfl, reached⟩
    cases derivation with
    | signed operator operand => exact .inl ⟨operator, _, rfl, operand, rest, rfl, reached⟩
    | unsigned operand => exact .inr ⟨operand, rest, rfl, reached⟩
  · rintro (⟨operator, _, rfl, operand, rest, rfl, reached⟩ | ⟨operand, rest, rfl, reached⟩)
    · exact ⟨.signed operator operand, rest, rfl, reached⟩
    · exact ⟨.unsigned operand, rest, rfl, reached⟩

def Subscripted (goal : Goal Node) : Goal Node := fun operand =>
  Reads .subscripts fun finish => goal (finish operand)

theorem reads_subscripted {goal : Goal Node} :
    Reads .subscripted goal tokens ↔ Reads .primary (Subscripted goal) tokens := by
  constructor
  · rintro ⟨derivation, rest, rfl, reached⟩
    cases derivation with
    | subscripted operand more =>
        exact ⟨operand, _, List.append_assoc _ _ _, more, rest, rfl, reached⟩
  · rintro ⟨operand, _, rfl, more, rest, rfl, reached⟩
    exact ⟨.subscripted operand more, rest, (List.append_assoc _ _ _).symm, reached⟩

theorem subscripted_iff {goal : Goal Node} {operand : Node} :
    Subscripted goal operand tokens ↔
      goal operand tokens ∨
        Meets .leftBracket (Reads .expression fun subscript => Meets .rightBracket <|
          Subscripted goal (.subscriptExpression operand subscript)) tokens := by
  constructor
  · rintro ⟨derivation, rest, rfl, reached⟩
    cases derivation with
    | noSubscript => exact .inl reached
    | nextSubscript subscript more =>
        exact .inr ⟨_, rfl, subscript, _, List.append_assoc _ _ _, _, rfl, more, rest, rfl,
          reached⟩
  · rintro (reached | ⟨_, rfl, subscript, _, rfl, _, rfl, more, rest, rfl, reached⟩)
    · exact ⟨.noSubscript, tokens, rfl, reached⟩
    · exact ⟨.nextSubscript subscript more, rest, by simp [Derivation.tokens], reached⟩

def ReadsPrimary (goal : Goal Node) (token : Token) : List Token → Prop :=
  match token.terminal with
  | .number => goal (.numeral (.real (Number.ofNumeral token.lexeme)))
  | .trueKeyword => goal (.booleanLiteral true)
  | .falseKeyword => goal (.booleanLiteral false)
  | .name => fun tokens =>
      goal (.identifier (.text (String.ofList token.lexeme))) tokens ∨
        Meets .leftParenthesis (Reads .arguments fun given => Meets .rightParenthesis <|
          goal (.call (.identifier (.text (String.ofList token.lexeme))) given)) tokens
  | .leftParenthesis => Reads .expression fun inner => Meets .rightParenthesis <| goal inner
  | .leftBracket => Reads .arguments fun elements => Meets .rightBracket <|
      goal (.arrayLiteral elements)
  | _ => fun _ => False

theorem reads_primary_cons {goal : Goal Node} {token : Token} (spelled : token.WellSpelled) :
    Reads .primary goal (token :: tokens) ↔ ReadsPrimary goal token tokens := by
  constructor
  · rintro ⟨derivation, rest, same, reached⟩
    cases derivation with
    | number | true | false =>
        obtain ⟨rfl, rfl⟩ := List.cons.inj same
        exact reached
    | call callee given =>
        obtain ⟨rfl, rfl⟩ := List.cons.inj same
        exact .inr ⟨_, rfl, given, _, List.append_assoc _ _ _, rest, rfl, reached⟩
    | identifier name =>
        obtain ⟨rfl, rfl⟩ := List.cons.inj same
        exact .inl reached
    | group inner =>
        obtain ⟨rfl, rfl⟩ := List.cons.inj same
        exact ⟨inner, _, List.append_assoc _ _ _, rest, rfl, reached⟩
    | array elements =>
        obtain ⟨rfl, rfl⟩ := List.cons.inj same
        exact ⟨elements, _, List.append_assoc _ _ _, rest, rfl, reached⟩
  · intro reached
    obtain ⟨terminal, lexeme⟩ := token
    cases terminal
    case number => exact ⟨.number lexeme, tokens, rfl, reached⟩
    case trueKeyword => exact ⟨.true, tokens, by rw [spelled.eq_token rfl]; rfl, reached⟩
    case falseKeyword => exact ⟨.false, tokens, by rw [spelled.eq_token rfl]; rfl, reached⟩
    case name =>
      rcases reached with reached | ⟨_, rfl, given, _, rfl, rest, rfl, reached⟩
      · exact ⟨.identifier lexeme, tokens, rfl, reached⟩
      · exact ⟨.call lexeme given, rest, by simp [Derivation.tokens, nameToken], reached⟩
    case leftParenthesis =>
      obtain ⟨inner, _, rfl, rest, rfl, reached⟩ := reached
      refine ⟨.group inner, rest, ?_, reached⟩
      rw [spelled.eq_token rfl]
      simp [Derivation.tokens]
    case leftBracket =>
      obtain ⟨elements, _, rfl, rest, rfl, reached⟩ := reached
      refine ⟨.array elements, rest, ?_, reached⟩
      rw [spelled.eq_token rfl]
      simp [Derivation.tokens]
    all_goals exact reached.elim

theorem reads_arguments {goal : Goal (List Node)} :
    Reads .arguments goal tokens ↔
      goal [] tokens ∨
        Reads .expression (fun first => Reads .moreArguments fun rest => goal (first :: rest))
          tokens := by
  constructor
  · rintro ⟨derivation, rest, rfl, reached⟩
    cases derivation with
    | noArguments => exact .inl reached
    | arguments first more =>
        exact .inr ⟨first, _, List.append_assoc _ _ _, more, rest, rfl, reached⟩
  · rintro (reached | ⟨first, _, rfl, more, rest, rfl, reached⟩)
    · exact ⟨.noArguments, tokens, rfl, reached⟩
    · exact ⟨.arguments first more, rest, (List.append_assoc _ _ _).symm, reached⟩

theorem reads_moreArguments {goal : Goal (List Node)} :
    Reads .moreArguments goal tokens ↔
      goal [] tokens ∨
        Meets .comma (Reads .expression fun next =>
          Reads .moreArguments fun rest => goal (next :: rest)) tokens := by
  constructor
  · rintro ⟨derivation, rest, rfl, reached⟩
    cases derivation with
    | lastArgument => exact .inl reached
    | nextArgument next more =>
        exact .inr ⟨_, rfl, next, _, List.append_assoc _ _ _, more, rest, rfl, reached⟩
  · rintro (reached | ⟨_, rfl, next, _, rfl, more, rest, rfl, reached⟩)
    · exact ⟨.lastArgument, tokens, rfl, reached⟩
    · exact ⟨.nextArgument next more, rest, by simp [Derivation.tokens], reached⟩

theorem reads_congr {symbol : Symbol} {first second : Goal symbol.Meaning}
    (same : ∀ meaning rest, first meaning rest ↔ second meaning rest) :
    Reads symbol first tokens ↔ Reads symbol second tokens := by
  constructor
  · rintro ⟨derivation, rest, split, reached⟩
    exact ⟨derivation, rest, split, (same _ _).mp reached⟩
  · rintro ⟨derivation, rest, split, reached⟩
    exact ⟨derivation, rest, split, (same _ _).mpr reached⟩

end

end Bella.Source
