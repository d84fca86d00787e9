import Bella.Proofs.Grammar.SourceTree

/-! Every tree of source text has a text. Each token is written with a space after it, and expressions
that no sign of their own finishes stand in parentheses, so the text of a part leads over the part
wherever it stands. Main statement: the trees that parsing makes are the trees of source text. -/

namespace Bella.Source

open Construction

def Construction.CanReach (construction next : Construction) : Prop :=
  ∃ text, ∀ rest, Passes construction text rest next

def Stage.CanReach (stage next : Stage) : Prop :=
  ∀ construction : Construction, (construction.atStage stage).CanReach (construction.atStage next)

def Writable (node : Node) : Prop :=
  ∀ purpose frames,
    Stage.CanReach (.operand purpose frames) (.operator purpose frames node none)

def WritableStatement (node : Node) : Prop :=
  ∀ loops statements, Construction.CanReach ⟨loops, statements, .statement⟩
    ⟨loops, node :: statements, .statement⟩

section

variable {construction next last : Construction} {terminal : Terminal} {lexeme : List Char}

theorem canReach_self : construction.CanReach construction :=
  ⟨[], fun _ => .stay⟩

theorem Construction.CanReach.trans (first : construction.CanReach next)
    (second : next.CanReach last) : construction.CanReach last := by
  obtain ⟨text, leads⟩ := first
  obtain ⟨more, further⟩ := second
  exact ⟨text ++ more, fun rest => (leads (more ++ rest)).append (further rest)⟩

theorem canReach_token (spells : construction.stage.place.Spells terminal lexeme)
    (added : construction.add terminal lexeme = some next) : construction.CanReach next := by
  obtain ⟨character, others, rfl⟩ := List.exists_cons_of_ne_nil spells.spelled.ne_nil
  have admitted : terminal ∈ construction.stage.place.admits :=
    Construction.Accepts.admitted ⟨_, by rw [added]; rfl⟩
  refine ⟨character :: (others ++ [' ']), fun rest => ?_⟩
  have halted : Halted ([' '] ++ rest) := halted_cons rfl rest
  exact .token (spells.spelled.bare halted) (Place.scan_of_spells admitted spells halted) added
    (.blank rfl .stay)

theorem spells_of_spelling {place : Place} (terminal : Terminal)
    (spelled : terminal.spelling? = some lexeme) : place.Spells terminal lexeme := by
  refine ⟨matches_of_spelling spelled, ?_⟩
  rintro rfl
  exact nomatch spelled

theorem exists_lexeme (name : String) : ∃ lexeme, name = String.ofList lexeme :=
  ⟨name.toList, String.ofList_toList.symm⟩

end

section

variable {purpose : Purpose} {frames pending : List Frame} {value inner node : Node}
  {callee : Option String} {terminal : Terminal} {lexeme : List Char} {stage next last : Stage}

namespace Stage.CanReach

theorem trans (first : stage.CanReach next) (second : next.CanReach last) : stage.CanReach last :=
  fun construction => (first construction).trans (second construction)

theorem spelling (terminal : Terminal) (spelled : terminal.spelling? = some lexeme)
    (added : ∀ construction : Construction, (construction.atStage stage).add terminal lexeme =
      some (construction.atStage next)) : stage.CanReach next :=
  fun construction => canReach_token (spells_of_spelling terminal spelled) (added construction)

theorem operand (spells : Place.operand.Spells terminal lexeme)
    (added : addOperand purpose frames terminal lexeme = some next) :
    Stage.CanReach (.operand purpose frames) next :=
  fun construction => canReach_token spells (congrArg (Option.map construction.atStage) added)

theorem operator (spells : Place.other.Spells terminal lexeme)
    (within : terminal ≠ .semicolon ∧ terminal ≠ .leftBrace)
    (added : addOperator purpose frames value callee terminal lexeme = some next) :
    Stage.CanReach (.operator purpose frames value callee) next := by
  intro construction
  refine canReach_token spells ?_
  simp only [add, atStage]
  rw [if_neg (not_or.mpr within), added]
  rfl

theorem group
    (leads : Stage.CanReach (.operand purpose (.group :: frames))
      (.operator purpose pending value callee))
    (ends : endExpression pending value = (.group :: frames, inner)) :
    Stage.CanReach (.operand purpose frames) (.operator purpose frames inner none) := by
  have opens : Stage.CanReach (.operand purpose frames) (.operand purpose (.group :: frames)) :=
    spelling .leftParenthesis rfl fun _ => rfl
  have closes : Stage.CanReach (.operator purpose pending value callee)
      (.operator purpose frames inner none) := by
    refine operator (spells_of_spelling .rightParenthesis rfl) (by decide) ?_
    simp only [addOperator, Terminal.strength?, ends]
  exact (opens.trans leads).trans closes

theorem name {name : String} (named : IsOperandName name) :
    Stage.CanReach (.operand purpose frames)
      (.operator purpose frames (.identifier (.text name)) (some name)) := by
  obtain ⟨lexeme, rfl⟩ := exists_lexeme name
  exact operand (isOperandName_ofList.mp named) rfl

theorem items {frame : List Node → Frame} {whole : List Node → Node}
    (comma : ∀ earlier item, Stage.CanReach (.operator purpose (frame earlier :: frames) item none)
      (.operand purpose (frame (item :: earlier) :: frames)))
    (closes : ∀ earlier item, Stage.CanReach (.operator purpose (frame earlier :: frames) item none)
      (.operator purpose frames (whole (item :: earlier).reverse) none))
    (first : Node) (more earlier : List Node) (each : ∀ item ∈ first :: more, Writable item) :
    Stage.CanReach (.operand purpose (frame earlier :: frames))
      (.operator purpose frames (whole (earlier.reverse ++ first :: more)) none) := by
  induction more generalizing first earlier with
  | nil =>
      have written := each first (List.mem_cons_self ..)
      have ended := (written purpose _).trans (closes earlier first)
      rwa [List.reverse_cons] at ended
  | cons second more ih =>
      rw [List.forall_mem_cons] at each
      have separated := (each.1 purpose _).trans (comma earlier first)
      have later := ih second (first :: earlier) each.2
      rw [List.reverse_cons, List.append_assoc] at later
      exact separated.trans later

end Stage.CanReach

open Stage.CanReach

theorem writable_numeral {number : Number} (unsigned : number.IsUnsigned) :
    Writable (.numeral (.real number)) := by
  intro purpose frames
  obtain ⟨lexeme, numerical, rfl⟩ := exists_numeral unsigned
  have spells : Place.operand.Spells .number lexeme := ⟨numerical, nofun⟩
  exact .operand spells rfl

theorem writable_boolean (truth : Bool) : Writable (.booleanLiteral truth) := by
  intro purpose frames
  cases truth with
  | false => exact .spelling .falseKeyword rfl fun _ => rfl
  | true => exact .spelling .trueKeyword rfl fun _ => rfl

theorem sign_matches {operator : String} (listed : operator ∈ unaryOperators) :
    Terminal.sign.Matches operator.toList := by
  have spelled : ∀ operator ∈ unaryOperators, operator.toList ∈ [['-'], ['!']] := by decide
  exact spelled operator listed

theorem exists_strength {operator : String}
    (listed : operator ∈ numericOperators ++ booleanOperators) :
    ∃ strength : Strength, strength.terminal.Matches operator.toList := by
  have spelled : ∀ operator ∈ numericOperators ++ booleanOperators,
      operator.toList ∈ [['+'], ['-']] ∨ operator.toList ∈ [['*'], ['/'], ['%']] ∨
        operator.toList ∈ [['<', '='], ['>', '='], ['=', '='], ['!', '='], ['<'], ['>']] ∨
        operator.toList = ['*', '*'] ∨ operator.toList = ['&', '&'] ∨
        operator.toList = ['|', '|'] := by
    decide
  rcases spelled operator listed with is | is | is | is | is | is
  · exact ⟨.sum, is⟩
  · exact ⟨.product, is⟩
  · exact ⟨.relation, is⟩
  · exact ⟨.power, is⟩
  · exact ⟨.conjunction, is⟩
  · exact ⟨.disjunction, is⟩

theorem addOperator_strength (strength : Strength) :
    addOperator purpose (.group :: frames) value callee strength.terminal lexeme = some
      (.operand purpose (.binary strength (String.ofList lexeme) value :: .group :: frames)) := by
  cases strength <;> rfl

theorem writable_unary {operator : String} (listed : operator ∈ unaryOperators)
    (operand : Writable value) : Writable (.unaryExpression (.text operator) value) := by
  intro purpose frames
  have spells : Place.operand.Spells .sign operator.toList := ⟨sign_matches listed, nofun⟩
  have signed : Stage.CanReach (.operand purpose (.group :: frames))
      (.operand purpose (.unary operator :: .group :: frames)) := by
    refine .operand spells ?_
    rw [addOperand, String.ofList_toList]
  exact (signed.trans (operand purpose _)).group rfl

theorem writable_binary {operator : String} {left right : Node}
    (listed : operator ∈ numericOperators ++ booleanOperators) (first : Writable left)
    (second : Writable right) : Writable (.binaryExpression (.text operator) left right) := by
  intro purpose frames
  obtain ⟨strength, spelled⟩ := exists_strength listed
  -- Right after the parenthesis there is no earlier operator that this one could end.
  have joined : Stage.CanReach (.operator purpose (.group :: frames) left none)
      (.operand purpose (.binary strength operator left :: .group :: frames)) := by
    refine .operator ⟨spelled, fun _ _ => nofun⟩ (by cases strength <;> decide) ?_
    rw [addOperator_strength, String.ofList_toList]
  have leads := ((first purpose _).trans joined).trans (second purpose _)
  exact leads.group rfl

theorem writable_conditional {test consequent alternate : Node} (tested : Writable test)
    (positive : Writable consequent) (negative : Writable alternate) :
    Writable (.conditionalExpression test consequent alternate) := by
  intro purpose frames
  have asked : Stage.CanReach (.operator purpose (.group :: frames) test none)
      (.operand purpose (.test test :: .group :: frames)) :=
    .operator (spells_of_spelling .question rfl) (by decide) rfl
  have otherwise :
      Stage.CanReach (.operator purpose (.test test :: .group :: frames) consequent none)
        (.operand purpose (.alternative test consequent :: .group :: frames)) :=
    .operator (spells_of_spelling .colon rfl) (by decide) rfl
  have chosen := ((tested purpose _).trans asked).trans (positive purpose _)
  have leads := (chosen.trans otherwise).trans (negative purpose _)
  exact leads.group rfl

theorem writable_subscript {array subscript : Node} (first : Writable array)
    (second : Writable subscript) : Writable (.subscriptExpression array subscript) := by
  intro purpose frames
  have opens : Stage.CanReach (.operator purpose frames array none)
      (.operand purpose (.subscript array :: frames)) :=
    .operator (spells_of_spelling .leftBracket rfl) (by decide) rfl
  have closes : Stage.CanReach (.operator purpose (.subscript array :: frames) subscript none)
      (.operator purpose frames (.subscriptExpression array subscript) none) :=
    .operator (spells_of_spelling .rightBracket rfl) (by decide) rfl
  exact (((first purpose _).trans opens).trans (second purpose _)).trans closes

theorem writable_array {elements : List Node} (each : ∀ element ∈ elements, Writable element) :
    Writable (.arrayLiteral elements) := by
  intro purpose frames
  have opens : Stage.CanReach (.operand purpose frames) (.operand purpose (.array [] :: frames)) :=
    .spelling .leftBracket rfl fun _ => rfl
  refine opens.trans ?_
  cases elements with
  | nil => exact .spelling .rightBracket rfl fun _ => rfl
  | cons first more =>
      refine items (fun earlier item => ?_) (fun earlier item => ?_) first more [] each
      · exact .operator (spells_of_spelling .comma rfl) (by decide) rfl
      · exact .operator (spells_of_spelling .rightBracket rfl) (by decide) rfl

theorem writable_call {callee : String} {arguments : List Node} (named : IsOperandName callee)
    (each : ∀ argument ∈ arguments, Writable argument) :
    Writable (.call (.identifier (.text callee)) arguments) := by
  intro purpose frames
  have opens : Stage.CanReach (.operator purpose frames (.identifier (.text callee)) (some callee))
      (.operand purpose (.call callee [] :: frames)) :=
    .operator (spells_of_spelling .leftParenthesis rfl) (by decide) rfl
  refine ((name named).trans opens).trans ?_
  cases arguments with
  | nil => exact .spelling .rightParenthesis rfl fun _ => rfl
  | cons first more =>
      refine items (fun earlier item => ?_) (fun earlier item => ?_) first more [] each
      · exact .operator (spells_of_spelling .comma rfl) (by decide) rfl
      · exact .operator (spells_of_spelling .rightParenthesis rfl) (by decide) rfl

theorem IsSourceExpression.writable (source : IsSourceExpression node) : Writable node := by
  induction source with
  | numeral unsigned => exact writable_numeral unsigned
  | booleanLiteral truth => exact writable_boolean truth
  | identifier named =>
      intro purpose frames
      exact (name named).group rfl
  | unaryExpression listed _ operand => exact writable_unary listed operand
  | binaryExpression listed _ _ first second => exact writable_binary listed first second
  | conditionalExpression _ _ _ tested positive negative =>
      exact writable_conditional tested positive negative
  | arrayLiteral _ each => exact writable_array each
  | subscriptExpression _ _ first second => exact writable_subscript first second
  | call named _ each => exact writable_call named each

end

section

variable {statements : List Node} {purpose : Purpose}
  {value statement test program : Node} {name function : String} {stage : Stage}

theorem Stage.CanReach.word (next : String → Stage) (word : IsWord name)
    (placed : stage.place = .name)
    (added : ∀ (construction : Construction) (lexeme : List Char),
      (construction.atStage stage).add .name lexeme =
        some (construction.atStage (next (String.ofList lexeme)))) :
    stage.CanReach (next name) := by
  intro construction
  have spells : (construction.atStage stage).stage.place.Spells .name name.toList := by
    refine Place.spells_name.mpr ⟨word, fun keyword listed => ?_⟩
    rw [atStage, placed] at listed
    exact nomatch listed
  refine canReach_token spells ?_
  rw [added, String.ofList_toList]

theorem writable_statement (leads : Stage.CanReach .statement (.operand purpose []))
    (written : Writable value) (finished : finishStatement purpose value = some statement) :
    WritableStatement statement := by
  intro loops statements
  have whole := leads.trans (written purpose []) ⟨loops, statements, .statement⟩
  refine whole.trans (canReach_token (spells_of_spelling .semicolon rfl) ?_)
  simp only [add, atStage, true_or, if_true, endStatement, endExpression, finished, Option.map_some]

theorem writable_declaration (word : IsWord name) (written : Writable value) :
    WritableStatement (.variableDeclaration (.identifier (.text name)) value) := by
  have opens : Stage.CanReach .statement .letName := .spelling .letKeyword rfl fun _ => rfl
  have named : Stage.CanReach .letName (.letEqual name) := .word .letEqual word rfl fun _ _ => rfl
  have equal : Stage.CanReach (.letEqual name) (.operand (.declaration name) []) :=
    .spelling .equal rfl fun _ => rfl
  exact writable_statement ((opens.trans named).trans equal) written rfl

theorem writable_assignment (named : IsTargetName name) (written : Writable value) :
    WritableStatement (.assignment (.identifier (.text name)) value) := by
  have target : Stage.CanReach .statement (.targetEqual name) := by
    intro construction
    obtain ⟨lexeme, rfl⟩ := exists_lexeme name
    exact canReach_token (isTargetName_ofList.mp named) rfl
  have equal : Stage.CanReach (.targetEqual name) (.operand (.assignment name) []) :=
    .spelling .equal rfl fun _ => rfl
  exact writable_statement (target.trans equal) written rfl

theorem writable_print (written : Writable value) : WritableStatement (.printStatement value) := by
  have opens : Stage.CanReach .statement (.operand .print []) :=
    .spelling .printKeyword rfl fun _ => rfl
  exact writable_statement opens written rfl

theorem canReach_moreParameters (more earlier : List String)
    (words : ∀ parameter ∈ more, IsWord parameter) :
    Stage.CanReach (.parameterEnd function earlier)
      (.funEqual function (earlier.reverse ++ more)) := by
  induction more generalizing earlier with
  | nil =>
      rw [List.append_nil]
      exact .spelling .rightParenthesis rfl fun _ => rfl
  | cons next more ih =>
      rw [List.forall_mem_cons] at words
      have comma : Stage.CanReach (.parameterEnd function earlier) (.parameter function earlier) :=
        .spelling .comma rfl fun _ => rfl
      have named : Stage.CanReach (.parameter function earlier)
          (.parameterEnd function (next :: earlier)) :=
        .word (fun name => .parameterEnd function (name :: earlier)) words.1 rfl fun _ _ => rfl
      have later := ih (next :: earlier) words.2
      rw [List.reverse_cons, List.append_assoc] at later
      exact (comma.trans named).trans later

theorem canReach_parameters {parameters : List String}
    (words : ∀ parameter ∈ parameters, IsWord parameter) :
    Stage.CanReach (.parameter function []) (.funEqual function parameters) := by
  cases parameters with
  | nil => exact .spelling .rightParenthesis rfl fun _ => rfl
  | cons first more =>
      rw [List.forall_mem_cons] at words
      have named : Stage.CanReach (.parameter function []) (.parameterEnd function [first]) :=
        .word (fun name => .parameterEnd function [name]) words.1 rfl fun _ _ => rfl
      exact named.trans (canReach_moreParameters more [first] words.2)

theorem writable_function {parameters : List String} (word : IsWord name)
    (words : ∀ parameter ∈ parameters, IsWord parameter) (written : Writable value) :
    WritableStatement (.functionDeclaration (.identifier (.text name))
      (parameters.map fun parameter : String => .identifier (.text parameter)) value) := by
  have opens : Stage.CanReach .statement .funName := .spelling .funKeyword rfl fun _ => rfl
  have named : Stage.CanReach .funName (.funOpening name) :=
    .word .funOpening word rfl fun _ _ => rfl
  have parenthesis : Stage.CanReach (.funOpening name) (.parameter name []) :=
    .spelling .leftParenthesis rfl fun _ => rfl
  have equal : Stage.CanReach (.funEqual name parameters)
      (.operand (.function name parameters) []) :=
    .spelling .equal rfl fun _ => rfl
  have leads := ((opens.trans named).trans parenthesis).trans (canReach_parameters words)
  exact writable_statement (leads.trans equal) written rfl

theorem canReach_statements {more : List Node} (loops : List OpenLoop) (before : List Node)
    (each : ∀ statement ∈ more, WritableStatement statement) :
    Construction.CanReach ⟨loops, before, .statement⟩
      ⟨loops, more.reverse ++ before, .statement⟩ := by
  induction more generalizing before with
  | nil => exact canReach_self
  | cons first more ih =>
      rw [List.forall_mem_cons] at each
      have later := ih (first :: before) each.2
      rw [List.reverse_cons, List.append_assoc]
      exact (each.1 loops before).trans later

theorem writable_loop (written : Writable test)
    (each : ∀ statement ∈ statements, WritableStatement statement) :
    WritableStatement (.whileStatement test (.block statements)) := by
  intro loops before
  have opens : Stage.CanReach .statement (.operand .guard []) :=
    .spelling .whileKeyword rfl fun _ => rfl
  have guarded : Construction.CanReach ⟨loops, before, .statement⟩
      ⟨loops, before, .operator .guard [] test none⟩ :=
    opens.trans (written .guard []) ⟨loops, before, .statement⟩
  have body : Construction.CanReach ⟨loops, before, .operator .guard [] test none⟩
      ⟨⟨test, before⟩ :: loops, [], .statement⟩ :=
    canReach_token (spells_of_spelling .leftBrace rfl) rfl
  have inside := canReach_statements (⟨test, before⟩ :: loops) [] each
  refine ((guarded.trans body).trans inside).trans
    (canReach_token (spells_of_spelling .rightBrace rfl) ?_)
  simp only [add, addStatement, List.append_nil, List.reverse_reverse]

theorem IsSourceStatement.writable (source : IsSourceStatement statement) :
    WritableStatement statement := by
  induction source with
  | variableDeclaration word initial => exact writable_declaration word initial.writable
  | functionDeclaration word words result => exact writable_function word words result.writable
  | assignment named assigned => exact writable_assignment named assigned.writable
  | printStatement printed => exact writable_print printed.writable
  | whileStatement tested _ each => exact writable_loop tested.writable each

theorem IsSourceProgram.exists_source (source : IsSourceProgram program) :
    ∃ text, parse text = .ok program := by
  cases source with
  | @program statements filled each =>
      have written : ∀ statement ∈ statements, WritableStatement statement :=
        fun statement found => (each statement found).writable
      obtain ⟨text, leads⟩ := canReach_statements [] [] written
      have passes := leads []
      rw [List.append_nil] at passes
      have finished : Construction.finish? ⟨[], statements.reverse, .statement⟩ =
          some (.program (.block statements)) := by
        refine finish?_eq_some.mpr ⟨_, List.reverse_ne_nil_iff.mpr filled, rfl, ?_⟩
        rw [List.reverse_reverse]
      refine ⟨String.ofList text, (parse_iff_passes _ _).mpr ⟨_, ?_, finished⟩⟩
      rw [String.toList_ofList]
      exact passes

end

/-- Parsing makes just the trees of source text. -/
theorem parsed_iff_isSourceProgram (program : Node) :
    (∃ source, parse source = .ok program) ↔ IsSourceProgram program := by
  constructor
  · rintro ⟨source, parsed⟩
    exact parse_isSourceProgram parsed
  · exact fun source => source.exists_source

end Bella.Source
