import Bella.Source.Construction

/-! The grammar of source text, apart from any way of reading it. A derivation has one constructor
for each alternative of the grammar, so it is the tree that the grammar assigns to its tokens. What
it means is the tree that evaluation works on. -/

namespace Bella.Source

structure Token where
  terminal : Terminal
  lexeme : List Char
deriving DecidableEq

def Terminal.spelling? : Terminal → Option (List Char)
  | .letKeyword => some ['l', 'e', 't']
  | .funKeyword => some ['f', 'u', 'n']
  | .printKeyword => some ['p', 'r', 'i', 'n', 't']
  | .whileKeyword => some ['w', 'h', 'i', 'l', 'e']
  | .trueKeyword => some ['t', 'r', 'u', 'e']
  | .falseKeyword => some ['f', 'a', 'l', 's', 'e']
  | .colon => some [':']
  | .comma => some [',']
  | .equal => some ['=']
  | .leftBrace => some ['\x7b']
  | .leftParenthesis => some ['(']
  | .leftBracket => some ['[']
  | .question => some ['?']
  | .rightBrace => some ['\x7d']
  | .rightParenthesis => some [')']
  | .rightBracket => some [']']
  | .semicolon => some [';']
  | .name | .number | .relation | .conjunction | .disjunction | .power | .product | .sum
  | .sign => none

def Terminal.token (terminal : Terminal) : Token :=
  ⟨terminal, terminal.spelling?.getD []⟩

def Token.WellSpelled (token : Token) : Prop :=
  ∀ spelling, token.terminal.spelling? = some spelling → token.lexeme = spelling

theorem Token.WellSpelled.eq_token {token : Token} (spelled : token.WellSpelled)
    (single : token.terminal.spelling?.isSome) : token = token.terminal.token := by
  obtain ⟨spelling, found⟩ := Option.isSome_iff_exists.mp single
  have lexeme := spelled spelling found
  simp only [Terminal.token, found, Option.getD_some, ← lexeme]

theorem token_wellSpelled (terminal : Terminal) : terminal.token.WellSpelled := by
  intro spelling found
  simp only [Terminal.token] at found ⊢
  rw [found, Option.getD_some]

theorem free_wellSpelled {terminal : Terminal} {lexeme : List Char}
    (free : terminal.spelling? = none) : Token.WellSpelled ⟨terminal, lexeme⟩ := by
  intro spelling found
  rw [free] at found
  exact nomatch found

def Strength.terminal : Strength → Terminal
  | .disjunction => .disjunction
  | .conjunction => .conjunction
  | .relation => .relation
  | .sum => .sum
  | .product => .product
  | .power => .power

/-- The levels of expressions without conditions: one for each strength, and the signed operands
of powers. -/
inductive Level where
  | binary (strength : Strength)
  | signed
deriving DecidableEq

def Strength.operands : Strength → Level
  | .disjunction => .binary .conjunction
  | .conjunction => .binary .relation
  | .relation => .binary .sum
  | .sum => .binary .product
  | .product => .binary .power
  | .power => .signed

def Strength.Repeats : Strength → Prop
  | .relation | .power => False
  | _ => True

inductive Symbol where
  | program
  | statements
  | statement
  | expression
  | level (level : Level)
  | tail (strength : Strength)
  | subscripted
  | subscripts
  | primary
  | arguments
  | moreArguments

inductive Derivation : Symbol → Type where
  | program (first : Derivation .statement) (rest : Derivation .statements) :
      Derivation .program
  | noStatements : Derivation .statements
  | nextStatement (first : Derivation .statement) (rest : Derivation .statements) :
      Derivation .statements
  | declaration (name : List Char) (value : Derivation .expression) : Derivation .statement
  | function (name : List Char) (parameters : List (List Char))
      (body : Derivation .expression) : Derivation .statement
  | assignment (name : List Char) (value : Derivation .expression) : Derivation .statement
  | print (value : Derivation .expression) : Derivation .statement
  | loop (guard : Derivation .expression) (body : Derivation .statements) :
      Derivation .statement
  | conditional (test consequent : Derivation (.level (.binary .disjunction)))
      (alternate : Derivation .expression) : Derivation .expression
  | unconditional (value : Derivation (.level (.binary .disjunction))) : Derivation .expression
  | operation (strength : Strength) (first : Derivation (.level strength.operands))
      (rest : Derivation (.tail strength)) : Derivation (.level (.binary strength))
  | noOperator (strength : Strength) : Derivation (.tail strength)
  | repeated (strength : Strength) (repeats : strength.Repeats) (operator : List Char)
      (right : Derivation (.level strength.operands)) (rest : Derivation (.tail strength)) :
      Derivation (.tail strength)
  | related (operator : List Char) (right : Derivation (.level (.binary .sum))) :
      Derivation (.tail .relation)
  | raised (operator : List Char) (exponent : Derivation (.level (.binary .power))) :
      Derivation (.tail .power)
  | signed (operator : List Char) (operand : Derivation (.level .signed)) :
      Derivation (.level .signed)
  | unsigned (operand : Derivation .subscripted) : Derivation (.level .signed)
  | subscripted (operand : Derivation .primary) (rest : Derivation .subscripts) :
      Derivation .subscripted
  | noSubscript : Derivation .subscripts
  | nextSubscript (subscript : Derivation .expression) (rest : Derivation .subscripts) :
      Derivation .subscripts
  | number (lexeme : List Char) : Derivation .primary
  | true : Derivation .primary
  | false : Derivation .primary
  | call (callee : List Char) (given : Derivation .arguments) : Derivation .primary
  | identifier (name : List Char) : Derivation .primary
  | group (inner : Derivation .expression) : Derivation .primary
  | array (elements : Derivation .arguments) : Derivation .primary
  | noArguments : Derivation .arguments
  | arguments (first : Derivation .expression) (rest : Derivation .moreArguments) :
      Derivation .arguments
  | lastArgument : Derivation .moreArguments
  | nextArgument (next : Derivation .expression) (rest : Derivation .moreArguments) :
      Derivation .moreArguments

def nameToken (name : List Char) : Token :=
  ⟨.name, name⟩

def moreParameterTokens : List (List Char) → List Token
  | [] => []
  | name :: rest => Terminal.comma.token :: nameToken name :: moreParameterTokens rest

def parameterTokens : List (List Char) → List Token
  | [] => []
  | first :: rest => nameToken first :: moreParameterTokens rest

theorem parameterTokens_wellSpelled (parameters : List (List Char)) :
    ∀ token ∈ parameterTokens parameters, token.WellSpelled := by
  have named (name : List Char) : (nameToken name).WellSpelled := free_wellSpelled rfl
  have more (parameters : List (List Char)) :
      ∀ token ∈ moreParameterTokens parameters, token.WellSpelled := by
    induction parameters with
    | nil => exact List.forall_mem_nil _
    | cons name rest ih =>
        simp only [moreParameterTokens, List.forall_mem_cons]
        exact ⟨token_wellSpelled .comma, named name, ih⟩
  cases parameters with
  | nil => exact List.forall_mem_nil _
  | cons first rest =>
      simp only [parameterTokens, List.forall_mem_cons]
      exact ⟨named first, more rest⟩

namespace Derivation

def tokens {symbol : Symbol} : Derivation symbol → List Token
  | program first rest => first.tokens ++ rest.tokens
  | noStatements => []
  | nextStatement first rest => first.tokens ++ rest.tokens
  | declaration name value =>
      Terminal.letKeyword.token :: nameToken name :: Terminal.equal.token ::
        (value.tokens ++ [Terminal.semicolon.token])
  | function name parameters body =>
      Terminal.funKeyword.token :: nameToken name :: Terminal.leftParenthesis.token ::
        (parameterTokens parameters ++ Terminal.rightParenthesis.token ::
          Terminal.equal.token :: (body.tokens ++ [Terminal.semicolon.token]))
  | assignment name value =>
      nameToken name :: Terminal.equal.token :: (value.tokens ++ [Terminal.semicolon.token])
  | print value =>
      Terminal.printKeyword.token :: (value.tokens ++ [Terminal.semicolon.token])
  | loop guard body =>
      Terminal.whileKeyword.token :: (guard.tokens ++ Terminal.leftBrace.token ::
        (body.tokens ++ [Terminal.rightBrace.token]))
  | conditional test consequent alternate =>
      test.tokens ++ Terminal.question.token :: (consequent.tokens ++ Terminal.colon.token ::
        alternate.tokens)
  | unconditional value => value.tokens
  | operation _ first rest => first.tokens ++ rest.tokens
  | noOperator _ => []
  | repeated strength _ operator right rest =>
      ⟨strength.terminal, operator⟩ :: (right.tokens ++ rest.tokens)
  | related operator right => ⟨.relation, operator⟩ :: right.tokens
  | raised operator exponent => ⟨.power, operator⟩ :: exponent.tokens
  | signed operator operand => ⟨.sign, operator⟩ :: operand.tokens
  | unsigned operand => operand.tokens
  | subscripted operand rest => operand.tokens ++ rest.tokens
  | noSubscript => []
  | nextSubscript subscript rest =>
      Terminal.leftBracket.token :: (subscript.tokens ++ Terminal.rightBracket.token ::
        rest.tokens)
  | number lexeme => [⟨.number, lexeme⟩]
  | Derivation.true => [Terminal.trueKeyword.token]
  | Derivation.false => [Terminal.falseKeyword.token]
  | call callee given =>
      nameToken callee :: Terminal.leftParenthesis.token ::
        (given.tokens ++ [Terminal.rightParenthesis.token])
  | identifier name => [nameToken name]
  | group inner =>
      Terminal.leftParenthesis.token :: (inner.tokens ++ [Terminal.rightParenthesis.token])
  | array elements =>
      Terminal.leftBracket.token :: (elements.tokens ++ [Terminal.rightBracket.token])
  | noArguments => []
  | arguments first rest => first.tokens ++ rest.tokens
  | lastArgument => []
  | nextArgument next rest => Terminal.comma.token :: (next.tokens ++ rest.tokens)

theorem tokens_wellSpelled {symbol : Symbol} (derivation : Derivation symbol) :
    ∀ token ∈ derivation.tokens, token.WellSpelled := by
  have operator (strength : Strength) : strength.terminal.spelling? = none := by
    cases strength <;> rfl
  induction derivation <;>
    simp only [tokens, List.forall_mem_append, List.forall_mem_cons, List.not_mem_nil,
      false_implies, implies_true, and_true, token_wellSpelled, true_and]
  case number | identifier => exact free_wellSpelled rfl
  case print value | unconditional value | unsigned value | group value | array value => exact value
  case declaration value | assignment value | related value | raised value | signed value |
      call value => exact ⟨free_wellSpelled rfl, value⟩
  case program first rest | nextStatement first rest | operation first rest |
      subscripted first rest | nextSubscript first rest | arguments first rest |
      nextArgument first rest | loop first rest => exact ⟨first, rest⟩
  case function parameters body value =>
    exact ⟨free_wellSpelled rfl, parameterTokens_wellSpelled parameters, value⟩
  case conditional test consequent alternate => exact ⟨test, consequent, alternate⟩
  case repeated right rest => exact ⟨free_wellSpelled (operator _), right, rest⟩

end Derivation

abbrev Symbol.Meaning : Symbol → Type
  | .program | .statement | .expression | .level _ | .subscripted | .primary => Node
  | .statements | .arguments | .moreArguments => List Node
  | .tail _ | .subscripts => Node → Node

namespace Derivation

/-- Repeated operators associate to the left and powers to the right; parentheses leave no node. -/
def meaning {symbol : Symbol} : Derivation symbol → symbol.Meaning
  | program first rest => Node.program (.block (first.meaning :: rest.meaning))
  | noStatements => []
  | nextStatement first rest => first.meaning :: rest.meaning
  | declaration name value =>
      Node.variableDeclaration (.identifier (.text (String.ofList name))) value.meaning
  | function name parameters body =>
      Node.functionDeclaration (.identifier (.text (String.ofList name)))
        (parameters.map fun parameter => .identifier (.text (String.ofList parameter)))
        body.meaning
  | assignment name value =>
      Node.assignment (.identifier (.text (String.ofList name))) value.meaning
  | print value => Node.printStatement value.meaning
  | loop guard body => Node.whileStatement guard.meaning (.block body.meaning)
  | conditional test consequent alternate =>
      Node.conditionalExpression test.meaning consequent.meaning alternate.meaning
  | unconditional value => value.meaning
  | operation _ first rest => rest.meaning first.meaning
  | noOperator _ => fun left => left
  | repeated _ _ operator right rest => fun left =>
      rest.meaning (.binaryExpression (.text (String.ofList operator)) left right.meaning)
  | related operator right => fun left =>
      .binaryExpression (.text (String.ofList operator)) left right.meaning
  | raised operator exponent => fun left =>
      .binaryExpression (.text (String.ofList operator)) left exponent.meaning
  | signed operator operand =>
      Node.unaryExpression (.text (String.ofList operator)) operand.meaning
  | unsigned operand => operand.meaning
  | subscripted operand rest => rest.meaning operand.meaning
  | noSubscript => fun operand => operand
  | nextSubscript subscript rest => fun operand =>
      rest.meaning (.subscriptExpression operand subscript.meaning)
  | number lexeme => Node.numeral (.real (Number.ofNumeral lexeme))
  | Derivation.true => Node.booleanLiteral .true
  | Derivation.false => Node.booleanLiteral .false
  | call callee given =>
      Node.call (.identifier (.text (String.ofList callee))) given.meaning
  | identifier name => Node.identifier (.text (String.ofList name))
  | group inner => inner.meaning
  | array elements => Node.arrayLiteral elements.meaning
  | noArguments => []
  | arguments first rest => first.meaning :: rest.meaning
  | lastArgument => []
  | nextArgument next rest => next.meaning :: rest.meaning

end Derivation

end Bella.Source
