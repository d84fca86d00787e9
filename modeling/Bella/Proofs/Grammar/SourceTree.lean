import Bella.Proofs.Grammar.Joining
import Bella.Proofs.Grammar.Language
import Bella.Proofs.Grammar.Literal

/-! The trees of source text, and that parsing makes no others. What has been read so far is at
every moment made of parts of such trees: one terminal after another keeps it so. -/

namespace Bella.Source

open Construction

def IsWord (name : String) : Prop :=
  ∃ first others, name.toList = first :: others ∧ isNameStart first = true ∧
    ∀ character ∈ others, isNameCharacter character = true

def IsOperandName (name : String) : Prop :=
  IsWord name ∧ name ∉ ["true", "false"]

def IsTargetName (name : String) : Prop :=
  IsWord name ∧ name ∉ ["let", "fun", "print", "while"]

inductive IsSourceExpression : Node → Prop
  | numeral {value : Number} (unsigned : value.IsUnsigned) :
      IsSourceExpression (.numeral (.real value))
  | booleanLiteral (truth : Bool) : IsSourceExpression (.booleanLiteral truth)
  | identifier {name : String} (named : IsOperandName name) :
      IsSourceExpression (.identifier (.text name))
  | unaryExpression {operator : String} {operand : Node} (listed : operator ∈ unaryOperators)
      (inner : IsSourceExpression operand) :
      IsSourceExpression (.unaryExpression (.text operator) operand)
  | binaryExpression {operator : String} {left right : Node}
      (listed : operator ∈ numericOperators ++ booleanOperators)
      (first : IsSourceExpression left) (second : IsSourceExpression right) :
      IsSourceExpression (.binaryExpression (.text operator) left right)
  | conditionalExpression {test consequent alternate : Node} (tested : IsSourceExpression test)
      (positive : IsSourceExpression consequent) (negative : IsSourceExpression alternate) :
      IsSourceExpression (.conditionalExpression test consequent alternate)
  | arrayLiteral {elements : List Node} (each : ∀ element ∈ elements, IsSourceExpression element) :
      IsSourceExpression (.arrayLiteral elements)
  | subscriptExpression {array subscript : Node} (first : IsSourceExpression array)
      (second : IsSourceExpression subscript) :
      IsSourceExpression (.subscriptExpression array subscript)
  | call {callee : String} {arguments : List Node} (named : IsOperandName callee)
      (each : ∀ argument ∈ arguments, IsSourceExpression argument) :
      IsSourceExpression (.call (.identifier (.text callee)) arguments)

inductive IsSourceStatement : Node → Prop
  | variableDeclaration {name : String} {initializer : Node} (word : IsWord name)
      (initial : IsSourceExpression initializer) :
      IsSourceStatement (.variableDeclaration (.identifier (.text name)) initializer)
  | functionDeclaration {name : String} {parameters : List String} {body : Node}
      (word : IsWord name) (words : ∀ parameter ∈ parameters, IsWord parameter)
      (result : IsSourceExpression body) :
      IsSourceStatement (.functionDeclaration (.identifier (.text name))
        (parameters.map fun parameter : String => .identifier (.text parameter)) body)
  | assignment {name : String} {source : Node} (named : IsTargetName name)
      (assigned : IsSourceExpression source) :
      IsSourceStatement (.assignment (.identifier (.text name)) source)
  | printStatement {expression : Node} (printed : IsSourceExpression expression) :
      IsSourceStatement (.printStatement expression)
  | whileStatement {test : Node} {statements : List Node} (tested : IsSourceExpression test)
      (each : ∀ statement ∈ statements, IsSourceStatement statement) :
      IsSourceStatement (.whileStatement test (.block statements))

inductive IsSourceProgram : Node → Prop
  | program {statements : List Node} (filled : statements ≠ [])
      (each : ∀ statement ∈ statements, IsSourceStatement statement) :
      IsSourceProgram (.program (.block statements))

/-! The parts that a construction holds. -/

def Frame.IsSource : Frame → Prop
  | .unary operator => operator ∈ unaryOperators
  | .binary _ operator left =>
      operator ∈ numericOperators ++ booleanOperators ∧ IsSourceExpression left
  | .test condition => IsSourceExpression condition
  | .alternative condition consequent =>
      IsSourceExpression condition ∧ IsSourceExpression consequent
  | .group => True
  | .subscript subscripted => IsSourceExpression subscripted
  | .call callee arguments =>
      IsOperandName callee ∧ ∀ argument ∈ arguments, IsSourceExpression argument
  | .array elements => ∀ element ∈ elements, IsSourceExpression element

def Purpose.IsSource : Purpose → Prop
  | .declaration name => IsWord name
  | .function name parameters => IsWord name ∧ ∀ parameter ∈ parameters, IsWord parameter
  | .assignment name => IsTargetName name
  | .print | .guard => True

def IsPending (pending : List Frame × Node) : Prop :=
  (∀ frame ∈ pending.1, frame.IsSource) ∧ IsSourceExpression pending.2

def Stage.IsSource : Stage → Prop
  | .statement | .letName | .funName => True
  | .letEqual name | .funOpening name => IsWord name
  | .parameter name parameters | .parameterEnd name parameters | .funEqual name parameters =>
      IsWord name ∧ ∀ parameter ∈ parameters, IsWord parameter
  | .targetEqual name => IsTargetName name
  | .operand purpose frames => purpose.IsSource ∧ ∀ frame ∈ frames, frame.IsSource
  | .operator purpose frames value callee =>
      purpose.IsSource ∧ IsPending (frames, value) ∧ ∀ name ∈ callee, IsOperandName name

structure Construction.IsSource (construction : Construction) : Prop where
  loops : ∀ loop ∈ construction.loops, IsSourceExpression loop.test ∧
    ∀ statement ∈ loop.before, IsSourceStatement statement
  statements : ∀ statement ∈ construction.statements, IsSourceStatement statement
  stage : construction.stage.IsSource

section

variable {purpose : Purpose} {frames outer : List Frame} {frame : Frame} {operand inner : Node}
  {terminal : Terminal} {lexeme : List Char} {construction next : Construction} {stage : Stage}

theorem isPending_cons : IsPending (frame :: frames, operand) ↔
    frame.IsSource ∧ IsPending (frames, operand) := by
  simp only [IsPending, List.forall_mem_cons, and_assoc]

theorem IsPending.split {pending : List Frame × Node} (source : IsPending pending)
    (ended : pending = (frame :: outer, inner)) :
    frame.IsSource ∧ (∀ frame ∈ outer, frame.IsSource) ∧ IsSourceExpression inner := by
  subst ended
  exact isPending_cons.mp source

theorem Frame.IsSource.ended (source : frame.IsSource) (last : IsSourceExpression operand)
    (ends : frame.end? operand = some inner) : IsSourceExpression inner := by
  cases frame with
  | unary operator =>
      obtain rfl := Option.some.inj ends
      exact .unaryExpression source last
  | binary strength operator left =>
      obtain rfl := Option.some.inj ends
      exact .binaryExpression source.1 source.2 last
  | alternative condition consequent =>
      obtain rfl := Option.some.inj ends
      exact .conditionalExpression source.1 source.2 last
  | _ => exact nomatch ends

theorem Collapses.isPending {limit : Nat} {final : List Frame} {last : Node}
    (collapses : Collapses limit frames operand final last)
    (pending : IsPending (frames, operand)) : IsPending (final, last) := by
  induction collapses with
  | done => exact pending
  | step ends _ _ ih =>
      obtain ⟨head, tail⟩ := isPending_cons.mp pending
      exact ih ⟨tail.1, head.ended tail.2 ends⟩

theorem IsPending.endOperators (pending : IsPending (frames, operand)) :
    IsPending (endOperators frames operand) :=
  (endOperators_collapses frames operand).1.isPending pending

theorem IsPending.endExpression (pending : IsPending (frames, operand)) :
    IsPending (endExpression frames operand) :=
  (endExpression_collapses frames operand).1.isPending pending

theorem IsPending.endBefore (strength : Strength) (pending : IsPending (frames, operand)) :
    IsPending (endBefore strength frames operand) := by
  induction frames generalizing operand with
  | nil => exact pending
  | cons frame frames ih =>
      obtain ⟨head, tail⟩ := isPending_cons.mp pending
      cases frame with
      | unary operator => exact ih ⟨tail.1, head.ended tail.2 rfl⟩
      | binary earlier operator left =>
          rw [Construction.endBefore]
          split
          · exact ih ⟨tail.1, head.ended tail.2 rfl⟩
          · exact pending
      | _ => exact pending

theorem Place.spells_name {place : Place} : place.Spells .name lexeme ↔
    Terminal.name.Matches lexeme ∧ ∀ keyword ∈ place.keywords, ¬keyword.Matches lexeme :=
  ⟨fun spells => ⟨spells.spelled, spells.named rfl⟩, fun both => ⟨both.1, fun _ => both.2⟩⟩

theorem isWord_ofList : IsWord (String.ofList lexeme) ↔ Terminal.name.Matches lexeme := by
  rw [IsWord, String.toList_ofList]
  exact Iff.rfl

theorem ofList_eq_iff {word : String} : String.ofList lexeme = word ↔ word.toList = lexeme := by
  rw [← String.toList_inj, String.toList_ofList, eq_comm]

theorem isOperandName_ofList :
    IsOperandName (String.ofList lexeme) ↔ Place.operand.Spells .name lexeme := by
  have keywords : String.ofList lexeme ∉ ["true", "false"] ↔
      ∀ keyword ∈ Place.operand.keywords, ¬keyword.Matches lexeme := by
    simp [Place.keywords, Terminal.Matches, Terminal.spelling?, ofList_eq_iff]
  rw [IsOperandName, isWord_ofList, keywords, Place.spells_name]

theorem isTargetName_ofList :
    IsTargetName (String.ofList lexeme) ↔ Place.statement.Spells .name lexeme := by
  have keywords : String.ofList lexeme ∉ ["let", "fun", "print", "while"] ↔
      ∀ keyword ∈ Place.statement.keywords, ¬keyword.Matches lexeme := by
    simp [Place.keywords, Terminal.Matches, Terminal.spelling?, ofList_eq_iff]
  rw [IsTargetName, isWord_ofList, keywords, Place.spells_name]

theorem forall_mem_reverse {holds : Node → Prop} {last : Node} {earlier : List Node}
    (final : holds last) (each : ∀ node ∈ earlier, holds node) :
    ∀ node ∈ (last :: earlier).reverse, holds node := by
  intro node found
  exact List.forall_mem_cons.mpr ⟨final, each⟩ node (List.mem_reverse.mp found)

theorem isSource_opened (purposed : purpose.IsSource) (source : frame.IsSource)
    (within : ∀ frame ∈ outer, frame.IsSource) :
    Stage.IsSource (.operand purpose (frame :: outer)) :=
  ⟨purposed, List.forall_mem_cons.mpr ⟨source, within⟩⟩

theorem isSource_finished (purposed : purpose.IsSource) (within : ∀ frame ∈ outer, frame.IsSource)
    (whole : IsSourceExpression operand) : Stage.IsSource (.operator purpose outer operand none) :=
  ⟨purposed, ⟨within, whole⟩, fun _ callee => nomatch callee⟩

theorem addOperand_isSource (source : Stage.IsSource (.operand purpose frames))
    (spells : Place.operand.Spells terminal lexeme)
    (added : addOperand purpose frames terminal lexeme = some stage) : stage.IsSource := by
  obtain ⟨purposed, framed⟩ := source
  cases terminal
  case number =>
    obtain rfl := Option.some.inj added
    exact isSource_finished purposed framed (.numeral (ofNumeral_isUnsigned spells.spelled))
  case trueKeyword | falseKeyword =>
    obtain rfl := Option.some.inj added
    exact isSource_finished purposed framed (.booleanLiteral _)
  case name =>
    obtain rfl := Option.some.inj added
    have named := isOperandName_ofList.mpr spells
    refine ⟨purposed, ⟨framed, .identifier named⟩, fun name callee => ?_⟩
    obtain rfl := Option.some.inj callee
    exact named
  case sign =>
    obtain rfl := Option.some.inj added
    exact isSource_opened purposed (sign_listed spells.spelled) framed
  case leftParenthesis =>
    obtain rfl := Option.some.inj added
    exact isSource_opened purposed trivial framed
  case leftBracket =>
    obtain rfl := Option.some.inj added
    exact isSource_opened purposed (List.forall_mem_nil _) framed
  case rightParenthesis =>
    simp only [addOperand] at added
    split at added
    · obtain rfl := Option.some.inj added
      obtain ⟨⟨named, each⟩, within⟩ := List.forall_mem_cons.mp framed
      exact isSource_finished purposed within (.call named each)
    · cases added
  case rightBracket =>
    simp only [addOperand] at added
    split at added
    · obtain rfl := Option.some.inj added
      obtain ⟨each, within⟩ := List.forall_mem_cons.mp framed
      exact isSource_finished purposed within (.arrayLiteral each)
    · cases added
  all_goals cases added

theorem addBinary_isSource {strength : Strength} {operator : String} (purposed : purpose.IsSource)
    (pending : IsPending (frames, operand))
    (listed : operator ∈ numericOperators ++ booleanOperators)
    (added : addBinary purpose frames operand strength operator = some stage) :
    stage.IsSource := by
  obtain ⟨within, left⟩ := pending.endBefore strength
  simp only [addBinary] at added
  split at added
  · cases added
  · obtain rfl := Option.some.inj added
    exact isSource_opened purposed ⟨listed, left⟩ within

theorem Terminal.eq_of_strength? {strength : Strength}
    (strong : terminal.strength? = some strength) : terminal = strength.terminal := by
  cases terminal <;> cases strong <;> rfl

theorem addOperator_isSource {callee : Option String}
    (source : Stage.IsSource (.operator purpose frames operand callee))
    (spelled : terminal.Matches lexeme)
    (added : addOperator purpose frames operand callee terminal lexeme = some stage) :
    stage.IsSource := by
  obtain ⟨purposed, pending, called⟩ := source
  cases strong : terminal.strength? with
  | some strength =>
      obtain rfl := Terminal.eq_of_strength? strong
      simp only [addOperator, strong] at added
      exact addBinary_isSource purposed pending (operator_listed strength spelled) added
  | none =>
      have operators := pending.endOperators
      have expression := pending.endExpression
      simp only [addOperator, strong] at added
      split at added
      · obtain ⟨name, rfl, rfl⟩ := Option.map_eq_some_iff.mp added
        exact isSource_opened purposed ⟨called name rfl, List.forall_mem_nil _⟩ pending.1
      · obtain rfl := Option.some.inj added
        exact isSource_opened purposed pending.2 pending.1
      · -- A question mark.
        split at added
        · cases added
        · rename_i ended
          rw [ended] at operators
          obtain rfl := Option.some.inj added
          exact isSource_opened purposed operators.2 operators.1
      · -- A colon.
        split at added
        · rename_i ended
          obtain ⟨condition, within, consequent⟩ := operators.split ended
          obtain rfl := Option.some.inj added
          exact isSource_opened purposed ⟨condition, consequent⟩ within
        · cases added
      · -- A comma.
        split at added
        · rename_i ended
          obtain ⟨⟨named, each⟩, within, last⟩ := expression.split ended
          obtain rfl := Option.some.inj added
          exact isSource_opened purposed ⟨named, List.forall_mem_cons.mpr ⟨last, each⟩⟩ within
        · rename_i ended
          obtain ⟨each, within, last⟩ := expression.split ended
          obtain rfl := Option.some.inj added
          exact isSource_opened purposed (List.forall_mem_cons.mpr ⟨last, each⟩) within
        · cases added
      · -- A closing parenthesis.
        split at added
        · rename_i ended
          obtain ⟨-, within, inner⟩ := expression.split ended
          obtain rfl := Option.some.inj added
          exact isSource_finished purposed within inner
        · rename_i ended
          obtain ⟨⟨named, each⟩, within, last⟩ := expression.split ended
          obtain rfl := Option.some.inj added
          exact isSource_finished purposed within (.call named (forall_mem_reverse last each))
        · cases added
      · -- A closing bracket.
        split at added
        · rename_i ended
          obtain ⟨array, within, inner⟩ := expression.split ended
          obtain rfl := Option.some.inj added
          exact isSource_finished purposed within (.subscriptExpression array inner)
        · rename_i ended
          obtain ⟨each, within, last⟩ := expression.split ended
          obtain rfl := Option.some.inj added
          exact isSource_finished purposed within (.arrayLiteral (forall_mem_reverse last each))
        · cases added
      · cases added

theorem Construction.IsSource.atStage (source : construction.IsSource) (next : stage.IsSource) :
    (construction.atStage stage).IsSource :=
  ⟨source.loops, source.statements, next⟩

theorem addStatement_isSource (source : construction.IsSource)
    (spells : Place.statement.Spells terminal lexeme)
    (added : construction.addStatement terminal lexeme = some next) : next.IsSource := by
  cases terminal
  case letKeyword | funKeyword =>
    obtain rfl := Option.some.inj added
    exact source.atStage trivial
  case printKeyword | whileKeyword =>
    obtain rfl := Option.some.inj added
    exact source.atStage ⟨trivial, List.forall_mem_nil _⟩
  case name =>
    obtain rfl := Option.some.inj added
    exact source.atStage (isTargetName_ofList.mpr spells)
  case rightBrace =>
    simp only [addStatement] at added
    split at added
    · rename_i loop outer opened
      obtain rfl := Option.some.inj added
      have loops := source.loops
      rw [opened] at loops
      obtain ⟨⟨tested, before⟩, within⟩ := List.forall_mem_cons.mp loops
      have body : ∀ statement ∈ construction.statements.reverse, IsSourceStatement statement :=
        fun statement found => source.statements statement (List.mem_reverse.mp found)
      exact ⟨within, List.forall_mem_cons.mpr ⟨.whileStatement tested body, before⟩, trivial⟩
    · cases added
  all_goals cases added

theorem finishStatement_isSource {statement : Node} (purposed : purpose.IsSource)
    (whole : IsSourceExpression operand)
    (finished : finishStatement purpose operand = some statement) :
    IsSourceStatement statement := by
  cases purpose with
  | declaration name =>
      obtain rfl := Option.some.inj finished
      exact .variableDeclaration purposed whole
  | function name parameters =>
      obtain rfl := Option.some.inj finished
      exact .functionDeclaration purposed.1 purposed.2 whole
  | assignment name =>
      obtain rfl := Option.some.inj finished
      exact .assignment purposed whole
  | print =>
      obtain rfl := Option.some.inj finished
      exact .printStatement whole
  | guard => cases finished

theorem endStatement_isSource (source : construction.IsSource) (purposed : purpose.IsSource)
    (pending : IsPending (frames, operand))
    (added : construction.endStatement purpose frames operand terminal = some next) :
    next.IsSource := by
  have ended := pending.endExpression
  simp only [endStatement] at added
  split at added
  · rename_i same
    rw [same] at ended
    split at added
    · obtain rfl := Option.some.inj added
      exact ⟨List.forall_mem_cons.mpr ⟨⟨ended.2, source.statements⟩, source.loops⟩,
        List.forall_mem_nil _, trivial⟩
    · obtain ⟨statement, finished, rfl⟩ := Option.map_eq_some_iff.mp added
      have whole := finishStatement_isSource purposed ended.2 finished
      exact ⟨source.loops, List.forall_mem_cons.mpr ⟨whole, source.statements⟩, trivial⟩
    · cases added
  · cases added

theorem add_isSource (source : construction.IsSource)
    (spells : construction.stage.place.Spells terminal lexeme)
    (added : construction.add terminal lexeme = some next) : next.IsSource := by
  have staged := source.stage
  have word (name : terminal = .name) : IsWord (String.ofList lexeme) :=
    isWord_ofList.mpr (name ▸ spells.spelled)
  obtain ⟨loops, statements, stage⟩ := construction
  cases stage with
  | statement => exact addStatement_isSource source spells added
  | operand purpose frames =>
      obtain ⟨stage, placed, rfl⟩ := Option.map_eq_some_iff.mp added
      exact source.atStage (addOperand_isSource staged spells placed)
  | operator purpose frames operand callee =>
      simp only [add] at added
      split at added
      · exact endStatement_isSource source staged.1 staged.2.1 added
      · obtain ⟨stage, placed, rfl⟩ := Option.map_eq_some_iff.mp added
        exact source.atStage (addOperator_isSource staged spells.spelled placed)
  | letName | funName =>
      simp only [add] at added
      split at added
      · rename_i name
        obtain rfl := Option.some.inj added
        exact source.atStage (word name)
      · cases added
  | letEqual name | funOpening name | funEqual name parameters | targetEqual name =>
      simp only [add] at added
      split at added
      · obtain rfl := Option.some.inj added
        exact source.atStage ⟨staged, List.forall_mem_nil _⟩
      · cases added
  | parameter function parameters =>
      simp only [add] at added
      split at added
      · rename_i name
        obtain rfl := Option.some.inj added
        exact source.atStage ⟨staged.1, List.forall_mem_cons.mpr ⟨word name, staged.2⟩⟩
      · split at added
        · obtain rfl := Option.some.inj added
          exact source.atStage ⟨staged.1, List.forall_mem_nil _⟩
        · cases added
  | parameterEnd function parameters =>
      simp only [add] at added
      split at added
      · obtain rfl := Option.some.inj added
        exact source.atStage staged
      · split at added
        · obtain rfl := Option.some.inj added
          exact source.atStage ⟨staged.1, fun parameter found =>
            staged.2 parameter (List.mem_reverse.mp found)⟩
        · cases added

theorem Passes.isSource {read rest : List Char} {last : Construction}
    (passes : Passes construction read rest last) (source : construction.IsSource) :
    last.IsSource := by
  induction passes with
  | stay => exact source
  | blank _ _ ih | comment _ _ _ ih => exact ih source
  | token _ scanned added _ ih =>
      have spells := Place.scan_spells scanned
      rw [List.take_left] at spells
      exact ih (add_isSource source spells added)

theorem parse_isSourceProgram {source : String} {program : Node}
    (parsed : parse source = .ok program) : IsSourceProgram program := by
  obtain ⟨last, passes, finished⟩ := (parse_iff_passes source program).mp parsed
  have start : Construction.empty.IsSource :=
    ⟨List.forall_mem_nil _, List.forall_mem_nil _, trivial⟩
  obtain ⟨statements, filled, rfl, rfl⟩ := finish?_eq_some.mp finished
  have each := (passes.isSource start).statements
  exact .program (List.reverse_ne_nil_iff.mpr filled) fun statement found =>
    each statement (List.mem_reverse.mp found)

end

end Bella.Source
