import Bella.Proofs.Grammar.Ending

/-! What a construction does with a terminal inside an expression. The terminal first ends the frames
that cannot hold it, and what the grammar allows is then read off the frame that is left. -/

namespace Bella.Source

open Construction

variable {token : Token} {tokens : List Token}

/-- A list without items may end where its first item could start. -/
def ClosesEmpty (goal : Goal Node) : List Frame → List Token → Prop
  | .call callee [] :: outer =>
      Meets .rightParenthesis (after goal outer 1 (.call (identifier callee) []))
  | .array [] :: outer => Meets .rightBracket (after goal outer 1 (.arrayLiteral []))
  | _ => fun _ => False

def BeforeOperand (goal : Goal Node) (frames : List Frame) (tokens : List Token) : Prop :=
  Reads (.level .signed) (after goal frames 2) tokens ∨ ClosesEmpty goal frames tokens

def AfterOperand (goal : Goal Node) (frames : List Frame) (operand : Node)
    (callee : Option String) (tokens : List Token) : Prop :=
  after goal frames 1 operand tokens ∨
    ∃ name ∈ callee, Meets .leftParenthesis (Reads .arguments fun given =>
      Meets .rightParenthesis <| after goal frames 1 (.call (identifier name) given)) tokens

def ReadsMoreParameters (goal : Goal (List (List Char))) (tokens : List Token) : Prop :=
  ∃ parameters rest,
    tokens = moreParameterTokens parameters ++ Terminal.rightParenthesis.token :: rest ∧
      goal parameters rest

def ReadsBody (goal : Purpose → Goal Node) (name : String) (parameters : List String) :
    List Token → Prop :=
  Meets .equal <| Reads .expression <| goal (.function name parameters)

namespace Stage

def Inside : Stage → Prop
  | .statement => False
  | .parameterEnd _ parameters => parameters ≠ []
  | .operand _ frames | .operator _ frames _ _ => Nested frames
  | _ => True

def Completes (goal : Purpose → Goal Node) : Stage → List Token → Prop
  | .statement => fun _ => False
  | .letName => Takes .name fun name => Meets .equal <| Reads .expression <|
      goal (.declaration (String.ofList name))
  | .letEqual name => Meets .equal <| Reads .expression <| goal (.declaration name)
  | .funName => Takes .name fun name => Meets .leftParenthesis <| ReadsParameters fun parameters =>
      ReadsBody goal (String.ofList name) (parameters.map String.ofList)
  | .funOpening name => Meets .leftParenthesis <| ReadsParameters fun parameters =>
      ReadsBody goal name (parameters.map String.ofList)
  | .parameter name [] => ReadsParameters fun parameters =>
      ReadsBody goal name (parameters.map String.ofList)
  | .parameter name earlier => Takes .name fun next => ReadsMoreParameters fun later =>
      ReadsBody goal name (earlier.reverse ++ (next :: later).map String.ofList)
  | .parameterEnd name earlier => ReadsMoreParameters fun later =>
      ReadsBody goal name (earlier.reverse ++ later.map String.ofList)
  | .funEqual name parameters => ReadsBody goal name parameters
  | .targetEqual name => Meets .equal <| Reads .expression <| goal (.assignment name)
  | .operand purpose frames => BeforeOperand (goal purpose) frames
  | .operator purpose frames value callee => AfterOperand (goal purpose) frames value callee

/-- A terminal has been refused where no tokens could follow it, and otherwise has left what the
grammar leaves after it. -/
def Agrees (goal : Purpose → Goal Node) (stage? : Option Stage) (before : Prop)
    (tokens : List Token) : Prop :=
  match stage? with
  | none => ¬before
  | some stage => stage.Inside ∧ (before ↔ stage.Completes goal tokens)

end Stage

section

variable {goal : Purpose → Goal Node} {purpose : Purpose} {frames : List Frame} {operand : Node}
  {callee : Option String}

theorem afterOperand_iff {goal : Goal Node} (other : token.terminal ≠ .leftParenthesis) :
    AfterOperand goal frames operand callee (token :: tokens) ↔
      after goal frames 1 operand (token :: tokens) := by
  refine or_iff_left ?_
  rintro ⟨name, -, met⟩
  exact other met.terminal_eq

theorem afterOperand_collapses {goal : Goal Node} {limit : Nat} {final : List Frame} {last : Node}
    (collapse : Collapses limit frames operand final last) (nested : Nested frames)
    (reached : limit ≤ token.terminal.acts) (late : 2 ≤ token.terminal.acts) :
    AfterOperand goal frames operand callee (token :: tokens) ↔
      after goal final 2 last (token :: tokens) := by
  have other : token.terminal ≠ .leftParenthesis := by
    intro same
    rw [same] at late
    exact absurd late (by decide)
  rw [afterOperand_iff other, ← collapse.after_iff nested reached]
  exact after_skip (by decide) (two_le_expected frames) (.inr (.inl late))

theorem extended_operator {strength : Strength} {outer : List Frame} {left : Node}
    (operator : token.terminal = strength.terminal) (nested : Nested outer)
    (bounded : strength.reach ≤ expected outer)
    (idle : ∀ whole, ¬goal purpose whole (token :: tokens)) :
    Extended strength (after (goal purpose) outer strength.reach) left (token :: tokens) ↔
      BeforeOperand (goal purpose)
        (.binary strength (String.ofList token.lexeme) left :: outer) tokens := by
  have late : token.terminal.acts < strength.reach := by
    rw [operator, strength.acts_terminal, ← strength.reach_operands]
    exact Nat.lt_succ_self _
  rw [extended_iff, takes_cons, BeforeOperand, ← operated_iff]
  simp [not_after nested bounded late idle, operator, ClosesEmpty]

theorem addBinary_agrees {strength : Strength} (operator : token.terminal = strength.terminal)
    (nested : Nested frames) (idle : ∀ whole, ¬goal purpose whole (token :: tokens)) :
    Stage.Agrees goal
      (addBinary purpose frames operand strength (String.ofList token.lexeme))
      (AfterOperand (goal purpose) frames operand callee (token :: tokens)) tokens := by
  obtain ⟨final, last, collapse, ends⟩ := endBefore_collapses strength operand nested
  have acts : token.terminal.acts = strength.operands.reach := by
    rw [operator, strength.acts_terminal]
  have two : 2 ≤ strength.operands.reach := strength.operands.two_le_reach
  have meets : strength.operands.reach ≤ expected final →
      (AfterOperand (goal purpose) frames operand callee (token :: tokens) ↔
        after (goal purpose) final strength.operands.reach last (token :: tokens)) := by
    intro bounded
    rw [afterOperand_collapses collapse nested (by omega) (by omega)]
    exact after_skip two bounded (.inr (.inl (by omega)))
  have finalNested := collapse.nested nested
  rcases ends with ⟨earlier, left, outer, rfl, repeats, ends⟩ |
    ⟨earlier, left, outer, rfl, rfl, ends⟩ | ⟨bounded, ends⟩
  · have expects : expected (.binary strength earlier left :: outer) =
        strength.operands.reach := by
      cases strength <;> first
        | rfl
        | exact repeats.elim
    have closes : closing (goal purpose) (.binary strength earlier left :: outer) last =
        Extended strength (after (goal purpose) outer strength.reach)
          (binary earlier left last) := by
      cases strength <;> first
        | rfl
        | exact repeats.elim
    have accepted : addBinary purpose frames operand strength (String.ofList token.lexeme) =
        some (.operand purpose
          (.binary strength (String.ofList token.lexeme) (binary earlier left last) :: outer)) := by
      cases strength <;> first
        | exact repeats.elim
        | simp [addBinary, ends]
    rw [accepted]
    refine ⟨finalNested, ?_⟩
    rw [meets (Nat.le_of_eq expects.symm), ← expects, after_expected, closes]
    exact extended_operator operator finalNested.2 finalNested.1 idle
  · have refused : addBinary purpose frames operand .relation (String.ofList token.lexeme) =
        none := by
      simp [addBinary, ends]
    rw [refused]
    intro reached
    rw [meets (Nat.le_refl _)] at reached
    exact not_after finalNested.2 finalNested.1 (by rw [acts]; exact Nat.lt_succ_self _) idle reached
  · have accepted : addBinary purpose frames operand strength (String.ofList token.lexeme) =
        some (.operand purpose
          (.binary strength (String.ofList token.lexeme) last :: final)) := by
      simp only [addBinary, ends]
      split
      · simp [expected, Frame.expects, Strength.reach, Level.reach, Strength.operands] at bounded
      · rfl
    rw [accepted]
    refine ⟨⟨bounded, finalNested⟩, ?_⟩
    have step := strength.reach_operands
    rw [meets (by omega), after_succ (by omega), prolonged_operands, step]
    exact extended_operator operator finalNested bounded idle

theorem beforeOperand_whole {goal : Goal Node} {frame : Frame} {outer : List Frame}
    (whole : frame.expects = 9) (filled : ¬ClosesEmpty goal (frame :: outer) tokens) :
    BeforeOperand goal (frame :: outer) tokens ↔
      Reads .expression (frame.closes (after goal outer)) tokens := by
  have all : expected (frame :: outer) = 9 := whole
  rw [BeforeOperand, or_iff_left filled, reads_whole all, closing_cons]

theorem beforeOperand_nil {goal : Goal Node} :
    BeforeOperand goal [] tokens ↔ Reads .expression goal tokens := by
  have whole : expected [] = 9 := rfl
  exact (or_iff_left not_false).trans (reads_whole whole)

theorem addSubscript_agrees (terminal : token.terminal = .leftBracket)
    (spelled : token.WellSpelled) (nested : Nested frames)
    (idle : ∀ whole, ¬goal purpose whole (token :: tokens)) :
    Stage.Agrees goal (some (.operand purpose (.subscript operand :: frames)))
      (AfterOperand (goal purpose) frames operand callee (token :: tokens)) tokens := by
  have two := two_le_expected frames
  have acts : token.terminal.acts = 1 := by rw [terminal]; rfl
  have unprolonged : ¬after (goal purpose) frames 2 operand (token :: tokens) :=
    not_after nested two (by omega) idle
  have prolonged : after (goal purpose) frames 1 = Subscripted (after (goal purpose) frames 2) :=
    after_succ two
  refine ⟨⟨Nat.le_of_succ_le two, nested⟩, ?_⟩
  rw [afterOperand_iff (by rw [terminal]; decide), prolonged, subscripted_iff,
    or_iff_right unprolonged, meets_cons spelled (by decide), and_iff_right terminal, ← prolonged]
  have filled : ¬ClosesEmpty (goal purpose) (.subscript operand :: frames) tokens := id
  exact (beforeOperand_whole rfl filled).symm

theorem addCall_agrees (terminal : token.terminal = .leftParenthesis)
    (spelled : token.WellSpelled) (nested : Nested frames)
    (idle : ∀ whole, ¬goal purpose whole (token :: tokens)) :
    Stage.Agrees goal (callee.map fun name => .operand purpose (.call name [] :: frames))
      (AfterOperand (goal purpose) frames operand callee (token :: tokens)) tokens := by
  have one := Nat.le_of_succ_le (two_le_expected frames)
  have ended : ¬after (goal purpose) frames 1 operand (token :: tokens) :=
    not_after nested one (by rw [terminal]; decide) idle
  cases callee with
  | none => simp [Stage.Agrees, AfterOperand, ended]
  | some name =>
      refine ⟨⟨one, nested⟩, ?_⟩
      simp only [AfterOperand, or_iff_right ended, Option.mem_def, Option.some.injEq,
        exists_eq_left']
      rw [meets_cons spelled (by decide), and_iff_right terminal, reads_arguments, or_comm]
      have whole : expected (.call name [] :: frames) = 9 := rfl
      exact or_congr_left (reads_whole whole).symm

/-- Only a test waits for less than a whole expression after its operators are finished. -/
theorem test_or_whole {frames : List Frame} (bound : 8 ≤ expected frames) :
    (∃ condition outer, frames = .test condition :: outer) ∨ expected frames = 9 := by
  cases frames with
  | nil => exact .inr rfl
  | cons frame outer =>
      cases frame with
      | test condition => exact .inl ⟨condition, outer, rfl⟩
      | unary operator => simp [expected, Frame.expects] at bound
      | binary strength operator left =>
          cases strength <;>
            simp [expected, Frame.expects, Level.reach, Strength.operands, Strength.reach]
              at bound
      | _ => exact .inr rfl

theorem afterOperand_endOperators {goal : Goal Node} (nested : Nested frames) (acts : token.terminal.acts = 8) :
    AfterOperand goal frames operand callee (token :: tokens) ↔
      after goal (endOperators frames operand).1 8 (endOperators frames operand).2
        (token :: tokens) := by
  obtain ⟨collapse, bound⟩ := endOperators_collapses frames operand
  rw [afterOperand_collapses collapse nested (by omega) (by omega)]
  exact after_skip (by decide) bound (.inr (.inl (by omega)))

theorem addQuestion_agrees (terminal : token.terminal = .question)
    (spelled : token.WellSpelled) (nested : Nested frames)
    (idle : ∀ whole, ¬goal purpose whole (token :: tokens)) :
    Stage.Agrees goal (addOperator purpose frames operand callee .question token.lexeme)
      (AfterOperand (goal purpose) frames operand callee (token :: tokens)) tokens := by
  obtain ⟨collapse, bound⟩ := endOperators_collapses frames operand
  have finalNested := collapse.nested nested
  rw [afterOperand_endOperators nested (by rw [terminal]; rfl)]
  generalize ends : endOperators frames operand = ended at *
  obtain ⟨final, condition⟩ := ended
  rcases test_or_whole bound with ⟨earlier, outer, rfl⟩ | whole
  · simp only [addOperator, Terminal.strength?, ends]
    intro met
    have colon : token.terminal = .colon := Meets.terminal_eq met
    rw [terminal] at colon
    exact nomatch colon
  · have unconditional : ¬after (goal purpose) final 9 condition (token :: tokens) :=
      not_after finalNested (Nat.le_of_eq whole.symm) (by rw [terminal]; decide) idle
    have accepted : addOperator purpose frames operand callee .question token.lexeme =
        some (.operand purpose (.test condition :: final)) := by
      simp only [addOperator, Terminal.strength?, ends]
      split
      · rename_i same
        obtain ⟨rfl, -⟩ := Prod.mk.inj same
        exact nomatch whole
      · rename_i same
        obtain ⟨rfl, rfl⟩ := Prod.mk.inj same
        rfl
    rw [accepted]
    refine ⟨⟨Nat.le_of_eq whole.symm, finalNested⟩, ?_⟩
    rw [after_succ (Nat.lt_of_lt_of_eq (Nat.lt_succ_self 8) whole.symm)]
    simp only [prolonged, OrCondition]
    rw [or_iff_right unconditional, meets_cons spelled (by decide), and_iff_right terminal]
    exact reads_test.symm.trans (or_iff_left id).symm

theorem addColon_agrees (terminal : token.terminal = .colon)
    (spelled : token.WellSpelled) (nested : Nested frames)
    (idle : ∀ whole, ¬goal purpose whole (token :: tokens)) :
    Stage.Agrees goal (addOperator purpose frames operand callee .colon token.lexeme)
      (AfterOperand (goal purpose) frames operand callee (token :: tokens)) tokens := by
  obtain ⟨collapse, bound⟩ := endOperators_collapses frames operand
  have finalNested := collapse.nested nested
  rw [afterOperand_endOperators nested (by rw [terminal]; rfl)]
  generalize ends : endOperators frames operand = ended at *
  obtain ⟨final, consequent⟩ := ended
  rcases test_or_whole bound with ⟨condition, outer, rfl⟩ | whole
  · simp only [addOperator, Terminal.strength?, ends]
    refine ⟨finalNested, ?_⟩
    have closes : after (goal purpose) (.test condition :: outer) 8 consequent (token :: tokens) ↔
        Reads .expression (fun alternate => after (goal purpose) outer 9
          (.conditionalExpression condition consequent alternate)) tokens :=
      (meets_cons spelled (by decide)).trans (and_iff_right terminal)
    rw [closes]
    have filled : ¬ClosesEmpty (goal purpose) (.alternative condition consequent :: outer) tokens :=
      id
    exact (beforeOperand_whole rfl filled).symm
  · have refused : addOperator purpose frames operand callee .colon token.lexeme = none := by
      simp only [addOperator, Terminal.strength?, ends]
      split
      · rename_i same
        obtain ⟨rfl, -⟩ := Prod.mk.inj same
        exact nomatch whole
      · rfl
    rw [refused]
    have skips : after (goal purpose) final 8 consequent (token :: tokens) ↔
        after (goal purpose) final 9 consequent (token :: tokens) :=
      after_skip (Nat.le_succ 8) (Nat.le_of_eq whole.symm) (.inr (.inr terminal))
    rw [Stage.Agrees, skips]
    exact not_after finalNested (Nat.le_of_eq whole.symm) (by rw [terminal]; decide) idle

theorem expected_le_nine (frames : List Frame) : expected frames ≤ 9 := by
  cases frames with
  | nil => exact Nat.le_refl 9
  | cons frame outer =>
      cases frame with
      | binary strength operator left =>
          cases strength <;>
            simp [expected, Frame.expects, Level.reach, Strength.operands, Strength.reach]
      | _ => simp [expected, Frame.expects]

theorem afterOperand_endExpression {goal : Goal Node} (nested : Nested frames) (acts : token.terminal.acts = 9) :
    AfterOperand goal frames operand callee (token :: tokens) ↔
      closing goal (endExpression frames operand).1 (endExpression frames operand).2
        (token :: tokens) := by
  obtain ⟨collapse, -⟩ := endExpression_collapses frames operand
  rw [afterOperand_collapses collapse nested (by omega) (by omega), ← after_expected]
  refine after_skip (two_le_expected _) (Nat.le_refl _) (.inr (.inl ?_))
  rw [acts]
  exact expected_le_nine _

/-- A finished expression is all there is, or it is left to a frame that waits for it. -/
theorem endExpression_cases (nested : Nested frames) (operand : Node) :
    (∃ last, endExpression frames operand = ([], last)) ∨
      ∃ frame outer last, endExpression frames operand = (frame :: outer, last) ∧
        Nested (frame :: outer) ∧ frame.end? last = none := by
  obtain ⟨collapse, waits⟩ := endExpression_collapses frames operand
  have finalNested := collapse.nested nested
  generalize endExpression frames operand = ended at *
  obtain ⟨final, last⟩ := ended
  cases final with
  | nil => exact .inl ⟨last, rfl⟩
  | cons frame outer => exact .inr ⟨frame, outer, last, rfl, finalNested, waits frame rfl last⟩

theorem not_meets {terminal : Terminal} {goal : List Token → Prop}
    (other : token.terminal ≠ terminal) : ¬Meets terminal goal (token :: tokens) :=
  fun met => other met.terminal_eq

section

variable {closing : Terminal} {goal : List Node → List Token → Prop}

theorem reads_items_comma (spelled : token.WellSpelled) (terminal : token.terminal = .comma)
    (other : closing ≠ .comma) :
    Reads .moreArguments (fun items => Meets closing (goal items)) (token :: tokens) ↔
      Reads .expression (fun next =>
        Reads .moreArguments fun items => Meets closing (goal (next :: items))) tokens := by
  have unfinished : ¬Meets closing (goal []) (token :: tokens) :=
    not_meets (terminal ▸ other.symm)
  rw [reads_moreArguments, or_iff_right unfinished, meets_cons spelled (by rfl),
    and_iff_right terminal]

theorem reads_items_closing (spelled : token.WellSpelled) (terminal : token.terminal = closing)
    (single : closing.spelling?.isSome) (other : closing ≠ .comma) :
    Reads .moreArguments (fun items => Meets closing (goal items)) (token :: tokens) ↔
      goal [] tokens := by
  rw [reads_moreArguments, or_iff_left (not_meets (terminal ▸ other)), meets_cons spelled single,
    and_iff_right terminal]

end

theorem addComma_agrees (terminal : token.terminal = .comma)
    (spelled : token.WellSpelled) (nested : Nested frames)
    (idle : ∀ whole, ¬goal purpose whole (token :: tokens)) :
    Stage.Agrees goal (addOperator purpose frames operand callee .comma token.lexeme)
      (AfterOperand (goal purpose) frames operand callee (token :: tokens)) tokens := by
  rw [afterOperand_endExpression nested (by rw [terminal]; rfl)]
  simp only [addOperator, Terminal.strength?]
  rcases endExpression_cases nested operand with
    ⟨last, ends⟩ | ⟨frame, outer, last, ends, finalNested, stays⟩
  · rw [ends]
    exact idle last
  · rw [ends]
    cases frame with
    | unary | binary | alternative => exact nomatch stays
    | test | group | subscript => exact not_meets (by rw [terminal]; decide)
    | call name earlier =>
        have filled : ¬ClosesEmpty (goal purpose) (.call name (last :: earlier) :: outer) tokens :=
          id
        refine ⟨finalNested, ?_⟩
        rw [Stage.Completes, beforeOperand_whole rfl filled]
        change Reads .moreArguments (fun items => Meets .rightParenthesis
          (after (goal purpose) outer 1 (.call (identifier name) (earlier.reverse ++ last :: items)))) (token :: tokens) ↔ _
        rw [reads_items_comma spelled terminal (by decide)]
        refine reads_congr fun next rest => ?_
        simp only [Frame.closes, List.reverse_cons, List.append_assoc, List.singleton_append]
    | array earlier =>
        have filled : ¬ClosesEmpty (goal purpose) (.array (last :: earlier) :: outer) tokens := id
        refine ⟨finalNested, ?_⟩
        rw [Stage.Completes, beforeOperand_whole rfl filled]
        change Reads .moreArguments (fun items => Meets .rightBracket
          (after (goal purpose) outer 1 (.arrayLiteral (earlier.reverse ++ last :: items)))) (token :: tokens) ↔ _
        rw [reads_items_comma spelled terminal (by decide)]
        refine reads_congr fun next rest => ?_
        simp only [Frame.closes, List.reverse_cons, List.append_assoc, List.singleton_append]

/-- After its value a finished operand is no name that could be called. -/
theorem afterOperand_none {goal : Goal Node} :
    AfterOperand goal frames operand none tokens ↔ after goal frames 1 operand tokens := by
  simp [AfterOperand]

theorem addParenthesis_agrees (terminal : token.terminal = .rightParenthesis)
    (spelled : token.WellSpelled) (nested : Nested frames)
    (idle : ∀ whole, ¬goal purpose whole (token :: tokens)) :
    Stage.Agrees goal (addOperator purpose frames operand callee .rightParenthesis token.lexeme)
      (AfterOperand (goal purpose) frames operand callee (token :: tokens)) tokens := by
  rw [afterOperand_endExpression nested (by rw [terminal]; rfl)]
  simp only [addOperator, Terminal.strength?]
  rcases endExpression_cases nested operand with
    ⟨last, ends⟩ | ⟨frame, outer, last, ends, finalNested, stays⟩
  · rw [ends]
    exact idle last
  · rw [ends]
    cases frame with
    | unary | binary | alternative => exact nomatch stays
    | test | subscript => exact not_meets (by rw [terminal]; decide)
    | group =>
        refine ⟨finalNested.2, ?_⟩
        rw [Stage.Completes, afterOperand_none]
        exact (meets_cons spelled (by decide)).trans (and_iff_right terminal)
    | call name earlier =>
        refine ⟨finalNested.2, ?_⟩
        rw [Stage.Completes, afterOperand_none, List.reverse_cons]
        change Reads .moreArguments (fun items => Meets .rightParenthesis
          (after (goal purpose) outer 1 (.call (identifier name) (earlier.reverse ++ last :: items)))) (token :: tokens) ↔ _
        exact reads_items_closing spelled terminal rfl (by decide)
    | array earlier =>
        exact not_closes_array (by rw [terminal]; decide) (by rw [terminal]; decide)

theorem addBracket_agrees (terminal : token.terminal = .rightBracket)
    (spelled : token.WellSpelled) (nested : Nested frames)
    (idle : ∀ whole, ¬goal purpose whole (token :: tokens)) :
    Stage.Agrees goal (addOperator purpose frames operand callee .rightBracket token.lexeme)
      (AfterOperand (goal purpose) frames operand callee (token :: tokens)) tokens := by
  rw [afterOperand_endExpression nested (by rw [terminal]; rfl)]
  simp only [addOperator, Terminal.strength?]
  rcases endExpression_cases nested operand with
    ⟨last, ends⟩ | ⟨frame, outer, last, ends, finalNested, stays⟩
  · rw [ends]
    exact idle last
  · rw [ends]
    cases frame with
    | unary | binary | alternative => exact nomatch stays
    | test | group => exact not_meets (by rw [terminal]; decide)
    | subscript array =>
        refine ⟨finalNested.2, ?_⟩
        rw [Stage.Completes, afterOperand_none]
        exact (meets_cons spelled (by decide)).trans (and_iff_right terminal)
    | call name earlier =>
        exact not_closes_call (by rw [terminal]; decide) (by rw [terminal]; decide)
    | array earlier =>
        refine ⟨finalNested.2, ?_⟩
        rw [Stage.Completes, afterOperand_none, List.reverse_cons]
        change Reads .moreArguments (fun items => Meets .rightBracket
          (after (goal purpose) outer 1 (.arrayLiteral (earlier.reverse ++ last :: items)))) (token :: tokens) ↔ _
        exact reads_items_closing spelled terminal rfl (by decide)

/-- After an operand a construction accepts a terminal just where the grammar goes on with it. -/
theorem addOperator_agrees (spelled : token.WellSpelled) (nested : Nested frames)
    (inside : token.terminal ≠ .semicolon ∧ token.terminal ≠ .leftBrace)
    (idle : ∀ whole, ¬goal purpose whole (token :: tokens)) :
    Stage.Agrees goal (addOperator purpose frames operand callee token.terminal token.lexeme)
      (AfterOperand (goal purpose) frames operand callee (token :: tokens)) tokens := by
  cases terminal : token.terminal
  case disjunction | conjunction | relation | sum | product | power =>
    simp only [addOperator, Terminal.strength?]
    exact addBinary_agrees terminal nested idle
  case leftParenthesis => exact addCall_agrees terminal spelled nested idle
  case leftBracket => exact addSubscript_agrees terminal spelled nested idle
  case question => exact addQuestion_agrees terminal spelled nested idle
  case colon => exact addColon_agrees terminal spelled nested idle
  case comma => exact addComma_agrees terminal spelled nested idle
  case rightParenthesis => exact addParenthesis_agrees terminal spelled nested idle
  case rightBracket => exact addBracket_agrees terminal spelled nested idle
  case semicolon => exact absurd terminal inside.1
  case leftBrace => exact absurd terminal inside.2
  all_goals
    have one := Nat.le_of_succ_le (two_le_expected frames)
    rw [afterOperand_iff (by rw [terminal]; decide)]
    exact not_after nested one (by rw [terminal]; decide) idle

theorem afterOperand_end {goal : Goal Node} (nested : Nested frames)
    (ends : token.terminal = .semicolon ∨ token.terminal = .leftBrace) :
    AfterOperand goal frames operand callee (token :: tokens) ↔
      (endExpression frames operand).1 = [] ∧
        goal (endExpression frames operand).2 (token :: tokens) := by
  have acts : token.terminal.acts = 9 := by rcases ends with ends | ends <;> rw [ends] <;> rfl
  rw [afterOperand_endExpression nested acts]
  rcases endExpression_cases nested operand with
    ⟨last, whole⟩ | ⟨frame, outer, last, inside, -, stays⟩
  · rw [whole]
    exact (and_iff_right rfl).symm
  · rw [inside]
    have differs (terminal : Terminal) (other : terminal ≠ .semicolon ∧ terminal ≠ .leftBrace) :
        token.terminal ≠ terminal := by
      rintro rfl
      exact ends.elim other.1 other.2
    refine iff_of_false ?_ (fun both => nomatch both.1)
    cases frame with
    | unary | binary | alternative => exact nomatch stays
    | test => exact not_meets (differs .colon (by decide))
    | group => exact not_meets (differs .rightParenthesis (by decide))
    | subscript => exact not_meets (differs .rightBracket (by decide))
    | call => exact not_closes_call (differs _ (by decide)) (differs _ (by decide))
    | array => exact not_closes_array (differs _ (by decide)) (differs _ (by decide))

theorem reads_operand {goal : Goal Node} (spelled : token.WellSpelled) :
    Reads (.level .signed) (after goal frames 2) (token :: tokens) ↔
      (token.terminal = .sign ∧ Reads (.level .signed)
        (after goal (.unary (String.ofList token.lexeme) :: frames) 2) tokens) ∨
      ReadsPrimary (after goal frames 1) token tokens := by
  have prolonged : after goal frames 1 = Subscripted (after goal frames 2) :=
    after_succ (two_le_expected frames)
  rw [reads_signed, takes_cons, reads_subscripted, reads_primary_cons spelled, prolonged]
  exact Iff.rfl

theorem not_closesEmpty {goal : Goal Node}
    (other : token.terminal ≠ .rightParenthesis ∧ token.terminal ≠ .rightBracket) :
    ¬ClosesEmpty goal frames (token :: tokens) := by
  unfold ClosesEmpty
  split
  · exact not_meets other.1
  · exact not_meets other.2
  · exact id

theorem beforeOperand_primary {goal : Goal Node} (spelled : token.WellSpelled)
    (unsigned : token.terminal ≠ .sign)
    (other : token.terminal ≠ .rightParenthesis ∧ token.terminal ≠ .rightBracket) :
    BeforeOperand goal frames (token :: tokens) ↔
      ReadsPrimary (after goal frames 1) token tokens := by
  rw [BeforeOperand, or_iff_left (not_closesEmpty other), reads_operand spelled, or_iff_right]
  exact fun sign => unsigned sign.1

theorem beforeOperand_sign {goal : Goal Node} (spelled : token.WellSpelled)
    (sign : token.terminal = .sign) :
    BeforeOperand goal frames (token :: tokens) ↔
      BeforeOperand goal (.unary (String.ofList token.lexeme) :: frames) tokens := by
  have primary : ¬ReadsPrimary (after goal frames 1) token tokens := by
    simp [ReadsPrimary, sign]
  rw [BeforeOperand, or_iff_left (not_closesEmpty (by rw [sign]; decide)), reads_operand spelled,
    or_iff_left primary, and_iff_right sign]
  exact (or_iff_left not_false).symm

theorem beforeOperand_closing {goal : Goal Node} (spelled : token.WellSpelled)
    (closes : token.terminal = .rightParenthesis ∨ token.terminal = .rightBracket) :
    BeforeOperand goal frames (token :: tokens) ↔ ClosesEmpty goal frames (token :: tokens) := by
  rw [BeforeOperand, reads_operand spelled, or_iff_right]
  rcases closes with closes | closes <;> simp [ReadsPrimary, closes]

theorem addOperand_agrees (spelled : token.WellSpelled) (nested : Nested frames) :
    Stage.Agrees goal (addOperand purpose frames token.terminal token.lexeme)
      (BeforeOperand (goal purpose) frames (token :: tokens)) tokens := by
  have one : 1 ≤ expected frames := Nat.le_of_succ_le (two_le_expected frames)
  cases terminal : token.terminal
  case sign =>
    exact ⟨⟨two_le_expected frames, nested⟩, beforeOperand_sign spelled terminal⟩
  case rightParenthesis =>
    rw [beforeOperand_closing spelled (.inl terminal)]
    simp only [addOperand]
    split
    · refine ⟨nested.2, ?_⟩
      rw [Stage.Completes, afterOperand_none]
      exact (meets_cons spelled (by decide)).trans (and_iff_right terminal)
    · rename_i filled
      unfold ClosesEmpty
      split
      · rename_i callee outer
        exact absurd rfl (filled callee outer)
      · exact not_meets (by rw [terminal]; decide)
      · exact id
  case rightBracket =>
    rw [beforeOperand_closing spelled (.inr terminal)]
    simp only [addOperand]
    split
    · refine ⟨nested.2, ?_⟩
      rw [Stage.Completes, afterOperand_none]
      exact (meets_cons spelled (by decide)).trans (and_iff_right terminal)
    · rename_i filled
      unfold ClosesEmpty
      split
      · exact not_meets (by rw [terminal]; decide)
      · rename_i outer
        exact absurd rfl (filled outer)
      · exact id
  all_goals
    have other : token.terminal ≠ .rightParenthesis ∧ token.terminal ≠ .rightBracket := by
      rw [terminal]
      decide
    rw [beforeOperand_primary spelled (by rw [terminal]; decide) other]
    simp only [ReadsPrimary, terminal, addOperand]
  case number | trueKeyword | falseKeyword => exact ⟨nested, afterOperand_none.symm⟩
  case name => exact ⟨nested, by simp [Stage.Completes, AfterOperand, identifier]⟩
  case leftParenthesis =>
    have filled : ¬ClosesEmpty (goal purpose) (.group :: frames) tokens := id
    exact ⟨⟨one, nested⟩, (beforeOperand_whole rfl filled).symm⟩
  case leftBracket =>
    refine ⟨⟨one, nested⟩, ?_⟩
    have whole : expected (.array [] :: frames) = 9 := rfl
    rw [Stage.Completes, reads_arguments, or_comm, BeforeOperand, reads_whole whole]
    exact Iff.rfl
  all_goals exact id

end

end Bella.Source
