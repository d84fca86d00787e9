import Bella.Proofs.Grammar.Viability

/-! The constructions that accept. Where the tokens end, a construction is finished just if it waits
for nothing; and none that has been reached waits for something that cannot come. -/

namespace Bella.Source

open Construction

section

theorem not_meets_nil {terminal : Terminal} {goal : List Token → Prop} :
    ¬Meets terminal goal [] :=
  fun ⟨_, same, _⟩ => nomatch same

theorem not_takes_nil {terminal : Terminal} {goal : Goal (List Char)} :
    ¬Takes terminal goal [] :=
  fun ⟨_, _, same, _⟩ => nomatch same

theorem not_reads_nil {symbol : Symbol} {goal : Goal symbol.Meaning}
    (filled : symbol.mayBeEmpty = false) : ¬Reads symbol goal [] := by
  rintro ⟨derivation, rest, same, -⟩
  obtain ⟨first, more, split, -⟩ := derivation.starts filled
  rw [split] at same
  exact nomatch same

theorem not_readsMoreParameters_nil {goal : Goal (List (List Char))} :
    ¬ReadsMoreParameters goal [] := by
  rintro ⟨parameters, rest, same, -⟩
  cases parameters <;> exact nomatch same

theorem not_readsParameters_nil {goal : Goal (List (List Char))} :
    ¬ReadsParameters goal [] := by
  rintro ⟨parameters, rest, same, -⟩
  cases parameters <;> exact nomatch same

theorem extended_nil {strength : Strength} {goal : Goal Node} {value : Node} :
    Extended strength goal value [] ↔ goal value [] :=
  extended_iff.trans (or_iff_left not_takes_nil)

theorem prolonged_nil {position : Nat} {goal : Goal Node} {value : Node} :
    prolonged position goal value [] ↔ goal value [] := by
  unfold prolonged
  split
  · exact subscripted_iff.trans (or_iff_left not_meets_nil)
  all_goals first
    | exact extended_nil
    | exact or_iff_left not_meets_nil
    | rfl

theorem climb_nil {steps position : Nat} {goal : Goal Node} {value : Node} :
    climb steps position goal value [] ↔ goal value [] := by
  induction steps generalizing position with
  | zero => rfl
  | succ steps ih => exact prolonged_nil.trans ih

theorem not_closing_nil {goal : Goal Node} (idle : ∀ whole, ¬goal whole []) (frames : List Frame)
    (value : Node) : ¬closing goal frames value [] := by
  induction frames generalizing value with
  | nil => exact idle value
  | cons frame outer ih =>
      have inner (position : Nat) (made : Node) : ¬after goal outer position made [] :=
        fun reached => ih made (climb_nil.mp reached)
      rw [closing_cons]
      cases frame with
      | unary | alternative => exact inner _ _
      | binary strength =>
          cases strength
          case power | relation => exact inner _ _
          all_goals exact fun reached => inner _ _ (extended_nil.mp reached)
      | test | group | subscript => exact not_meets_nil
      | call | array =>
          simp only [Frame.closes, reads_moreArguments]
          exact fun reached => reached.elim not_meets_nil not_meets_nil

theorem not_ends_nil {goal : Goal Node} {purpose : Purpose} {whole : Node} :
    ¬purpose.ends goal whole [] := by
  cases purpose <;> exact not_meets_nil

theorem not_stage_completes_nil {goal : Goal Node} {stage : Stage} :
    ¬stage.Completes (fun purpose => purpose.ends goal) [] := by
  cases stage with
  | statement => exact id
  | letName | funName => exact not_takes_nil
  | letEqual | funOpening | funEqual | targetEqual => exact not_meets_nil
  | parameter name earlier =>
      cases earlier with
      | nil => exact not_readsParameters_nil
      | cons => exact not_takes_nil
  | parameterEnd => exact not_readsMoreParameters_nil
  | operand purpose frames =>
      rintro (reached | reached)
      · exact not_reads_nil rfl reached
      · revert reached
        unfold ClosesEmpty
        split
        · exact not_meets_nil
        · exact not_meets_nil
        · exact id
  | operator purpose frames value callee =>
      rintro (reached | ⟨name, -, reached⟩)
      · exact not_closing_nil (fun _ => not_ends_nil) frames value (climb_nil.mp reached)
      · exact not_meets_nil reached

end

theorem finish?_statement {construction : Construction} {program : Node}
    (finished : construction.finish? = some program) : construction.stage = .statement := by
  unfold finish? at finished
  split at finished
  · rfl
  · exact nomatch finished

theorem completes_nil {construction : Construction} {program : Node} :
    construction.Completes program [] ↔ construction.finish? = some program := by
  obtain ⟨loops, statements, stage⟩ := construction
  cases stage with
  | statement =>
      simp only [Construction.Completes]
      rw [reads_statements, or_iff_left not_reads_statement_nil, List.append_nil]
      cases loops with
      | cons loop outer =>
          refine iff_of_false not_meets_nil fun finished => ?_
          cases finished
      | nil =>
          cases statements with
          | nil =>
              refine iff_of_false (fun finished => finished.2.1 rfl) fun finished => ?_
              cases finished
          | cons last earlier =>
              have filled : (last :: earlier).reverse ≠ [] :=
                List.reverse_ne_nil_iff.mpr (List.cons_ne_nil _ _)
              rw [finish?, Option.some.injEq]
              exact (and_iff_right rfl).trans ((and_iff_right filled).trans eq_comm)
  | _ =>
      simp only [Construction.Completes]
      refine iff_of_false not_stage_completes_nil fun finished => ?_
      cases finish?_statement finished

theorem completes_empty {program : Node} {tokens : List Token} :
    Construction.empty.Completes program tokens ↔
      ∃ derivation : Derivation .program,
        derivation.tokens = tokens ∧ derivation.meaning = program := by
  constructor
  · rintro ⟨derivation, rest, rfl, rfl, filled, rfl⟩
    cases derivation with
    | noStatements => exact absurd rfl filled
    | nextStatement first more =>
        exact ⟨.program first more, (List.append_nil _).symm, rfl⟩
  · rintro ⟨derivation, rfl, rfl⟩
    cases derivation with
    | program first more =>
        exact ⟨.nextStatement first more, [], (List.append_nil _).symm, rfl,
          List.cons_ne_nil _ _, rfl⟩

section

variable {goal : Goal Node} {frames : List Frame} {value : Node} {tokens : List Token}

theorem prolonged_of_goal {position : Nat} (reached : goal value tokens) :
    prolonged position goal value tokens := by
  unfold prolonged
  split
  · exact subscripted_iff.mpr (.inl reached)
  all_goals first
    | exact extended_iff.mpr (.inl reached)
    | exact .inl reached
    | exact reached

theorem climb_of_goal {steps position : Nat} (reached : goal value tokens) :
    climb steps position goal value tokens := by
  induction steps generalizing position with
  | zero => exact reached
  | succ steps ih => exact prolonged_of_goal ih

theorem after_of_closing {position : Nat} (reached : closing goal frames value tokens) :
    after goal frames position value tokens :=
  climb_of_goal reached

theorem beforeOperand_true (reached : closing goal frames (.booleanLiteral true) tokens) :
    BeforeOperand goal frames (Terminal.trueKeyword.token :: tokens) :=
  (beforeOperand_primary (token_wellSpelled _) (by decide) (by decide)).mpr
    (after_of_closing reached)

theorem reads_true (reached : goal (.booleanLiteral true) tokens) :
    Reads .expression goal (Terminal.trueKeyword.token :: tokens) :=
  beforeOperand_nil.mp (beforeOperand_true reached)

def fillers : List Token :=
  nameToken ['x'] :: [Terminal.trueKeyword, .printKeyword, .colon, .equal, .leftBrace,
    .leftParenthesis, .rightBrace, .rightParenthesis, .rightBracket, .semicolon].map Terminal.token

def fillerBody : List Token :=
  [Terminal.equal.token, Terminal.trueKeyword.token]

theorem filled_cons {token : Token} (filler : token ∈ fillers) (plain : tokens ⊆ fillers) :
    token :: tokens ⊆ fillers :=
  List.cons_subset.mpr ⟨filler, plain⟩

/-- Some tokens close all frames, whatever comes after the expression. -/
theorem exists_closing (frames : List Frame) (value : Node) :
    ∃ (before : List Token) (whole : Node), before ⊆ fillers ∧
      ∀ (goal : Goal Node) (tokens : List Token),
        goal whole tokens → closing goal frames value (before ++ tokens) := by
  induction frames generalizing value with
  | nil => exact ⟨[], value, List.nil_subset _, fun _ _ reached => reached⟩
  | cons frame outer ih =>
      cases frame with
      | unary operator =>
          obtain ⟨before, whole, plain, closes⟩ := ih (Construction.unary operator value)
          exact ⟨before, whole, plain,
            fun goal tokens reached => after_of_closing (closes _ _ reached)⟩
      | binary strength operator left =>
          obtain ⟨before, whole, plain, closes⟩ := ih (Construction.binary operator left value)
          refine ⟨before, whole, plain, fun goal tokens reached => ?_⟩
          have outside (position : Nat) : after goal outer position
              (Construction.binary operator left value) (before ++ tokens) :=
            after_of_closing (closes _ _ reached)
          cases strength
          case power | relation => exact outside _
          all_goals exact extended_iff.mpr (.inl (outside _))
      | test condition =>
          obtain ⟨before, whole, plain, closes⟩ :=
            ih (.conditionalExpression condition value (.booleanLiteral true))
          refine ⟨Terminal.colon.token :: Terminal.trueKeyword.token :: before, whole,
            filled_cons (by decide) (filled_cons (by decide) plain),
            fun goal tokens reached => ⟨_, rfl, ?_⟩⟩
          exact reads_true (after_of_closing (closes _ _ reached))
      | alternative condition consequent =>
          obtain ⟨before, whole, plain, closes⟩ :=
            ih (.conditionalExpression condition consequent value)
          exact ⟨before, whole, plain,
            fun goal tokens reached => after_of_closing (closes _ _ reached)⟩
      | group =>
          obtain ⟨before, whole, plain, closes⟩ := ih value
          exact ⟨Terminal.rightParenthesis.token :: before, whole, filled_cons (by decide) plain,
            fun goal tokens reached => ⟨_, rfl, after_of_closing (closes _ _ reached)⟩⟩
      | subscript array =>
          obtain ⟨before, whole, plain, closes⟩ := ih (.subscriptExpression array value)
          exact ⟨Terminal.rightBracket.token :: before, whole, filled_cons (by decide) plain,
            fun goal tokens reached => ⟨_, rfl, after_of_closing (closes _ _ reached)⟩⟩
      | call callee earlier =>
          obtain ⟨before, whole, plain, closes⟩ :=
            ih (.call (identifier callee) (earlier.reverse ++ [value]))
          refine ⟨Terminal.rightParenthesis.token :: before, whole, filled_cons (by decide) plain,
            fun goal tokens reached => ?_⟩
          simp only [closing_cons, Frame.closes, List.cons_append]
          exact reads_moreArguments.mpr (.inl ⟨_, rfl, after_of_closing (closes _ _ reached)⟩)
      | array earlier =>
          obtain ⟨before, whole, plain, closes⟩ := ih (.arrayLiteral (earlier.reverse ++ [value]))
          refine ⟨Terminal.rightBracket.token :: before, whole, filled_cons (by decide) plain,
            fun goal tokens reached => ?_⟩
          simp only [closing_cons, Frame.closes, List.cons_append]
          exact reads_moreArguments.mpr (.inl ⟨_, rfl, after_of_closing (closes _ _ reached)⟩)

theorem exists_stage_completes {stage : Stage} (inside : stage.Inside) :
    ∃ (before : List Token) (purpose : Purpose) (whole : Node), before ⊆ fillers ∧
      ∀ (goal : Purpose → Goal Node) (tokens : List Token),
        goal purpose whole tokens → stage.Completes goal (before ++ tokens) := by
  have body (name : String) (parameters : List String) (goal : Purpose → Goal Node)
      (tokens : List Token) (reached : goal (.function name parameters) (.booleanLiteral true)
        tokens) :
      ReadsBody goal name parameters (fillerBody ++ tokens) :=
    ⟨_, rfl, reads_true reached⟩
  cases stage with
  | statement => exact inside.elim
  | letName =>
      exact ⟨nameToken ['x'] :: fillerBody, _, _, by decide,
        fun goal tokens reached => ⟨['x'], _, rfl, _, rfl, reads_true reached⟩⟩
  | letEqual name =>
      exact ⟨fillerBody, .declaration name, _, by decide,
        fun goal tokens reached => ⟨_, rfl, reads_true reached⟩⟩
  | targetEqual name =>
      exact ⟨fillerBody, .assignment name, _, by decide,
        fun goal tokens reached => ⟨_, rfl, reads_true reached⟩⟩
  | funEqual name parameters => exact ⟨fillerBody, _, _, by decide, body name parameters⟩
  | funName =>
      refine ⟨[nameToken ['x'], Terminal.leftParenthesis.token, Terminal.rightParenthesis.token] ++
        fillerBody, _, _, by decide,
        fun goal tokens reached => ⟨['x'], _, rfl, _, rfl, [], _, rfl, body _ _ goal _ reached⟩⟩
  | funOpening name =>
      exact ⟨[Terminal.leftParenthesis.token, Terminal.rightParenthesis.token] ++ fillerBody, _, _,
        by decide,
        fun goal tokens reached => ⟨_, rfl, [], _, rfl, body name [] goal _ reached⟩⟩
  | parameter name earlier =>
      cases earlier with
      | nil =>
          exact ⟨Terminal.rightParenthesis.token :: fillerBody, _, _, by decide,
            fun goal tokens reached => ⟨[], _, rfl, body name [] goal _ reached⟩⟩
      | cons last earlier =>
          exact ⟨[nameToken ['x'], Terminal.rightParenthesis.token] ++ fillerBody, _, _, by decide,
            fun goal tokens reached => ⟨['x'], _, rfl, [], _, rfl, body name _ goal _ reached⟩⟩
  | parameterEnd name earlier =>
      exact ⟨Terminal.rightParenthesis.token :: fillerBody, _, _, by decide,
        fun goal tokens reached => ⟨[], _, rfl, body name _ goal _ reached⟩⟩
  | operand purpose frames =>
      obtain ⟨before, whole, plain, closes⟩ := exists_closing frames (.booleanLiteral true)
      exact ⟨Terminal.trueKeyword.token :: before, purpose, whole, filled_cons (by decide) plain,
        fun goal tokens reached => beforeOperand_true (closes _ _ reached)⟩
  | operator purpose frames value callee =>
      obtain ⟨before, whole, plain, closes⟩ := exists_closing frames value
      exact ⟨before, purpose, whole, plain,
        fun goal tokens reached => .inl (after_of_closing (closes _ _ reached))⟩

theorem exists_finishes (loops : List OpenLoop) {statements : List Node}
    (filled : statements ≠ []) :
    ∃ program tokens, tokens ⊆ fillers ∧ Finishes program loops statements tokens := by
  induction loops generalizing statements with
  | nil => exact ⟨_, [], List.nil_subset _, rfl, filled, rfl⟩
  | cons loop outer ih =>
      obtain ⟨program, tokens, plain, finishes⟩ := ih (List.append_ne_nil_of_right_ne_nil
        loop.before.reverse (List.cons_ne_nil (.whileStatement loop.test (.block statements)) []))
      exact ⟨program, Terminal.rightBrace.token :: tokens, filled_cons (by decide) plain, tokens,
        rfl, reads_statements.mpr (.inl finishes)⟩

theorem exists_following (construction : Construction) (statement : Node) :
    ∃ program tokens, tokens ⊆ fillers ∧ construction.following program statement tokens := by
  obtain ⟨program, tokens, plain, finishes⟩ := exists_finishes construction.loops
    (List.append_ne_nil_of_right_ne_nil construction.statements.reverse
      (List.cons_ne_nil statement []))
  exact ⟨program, tokens, plain, reads_statements.mpr (.inl finishes)⟩

theorem exists_ends (construction : Construction) (purpose : Purpose) (whole : Node) :
    ∃ program tokens, tokens ⊆ fillers ∧
      purpose.ends (construction.following program) whole tokens := by
  cases purpose with
  | guard =>
      obtain ⟨program, tokens, plain, follows⟩ :=
        exists_following construction (.whileStatement whole (.block []))
      exact ⟨program, Terminal.leftBrace.token :: Terminal.rightBrace.token :: tokens,
        filled_cons (by decide) (filled_cons (by decide) plain), _, rfl,
        reads_statements.mpr (.inl ⟨tokens, rfl, follows⟩)⟩
  | _ =>
      obtain ⟨program, tokens, plain, follows⟩ := exists_following construction _
      exact ⟨program, Terminal.semicolon.token :: tokens, filled_cons (by decide) plain, tokens,
        rfl, follows⟩

theorem exists_completes {construction : Construction} (orderly : construction.Orderly) :
    ∃ program tokens, tokens ⊆ fillers ∧ construction.Completes program tokens := by
  obtain ⟨loops, statements, stage⟩ := construction
  rcases orderly with orderly | inside
  · obtain rfl : stage = .statement := orderly
    obtain ⟨program, tokens, plain, follows⟩ := exists_following ⟨loops, statements, .statement⟩
      (.printStatement (.booleanLiteral true))
    refine ⟨program, Terminal.printKeyword.token :: Terminal.trueKeyword.token ::
      Terminal.semicolon.token :: tokens,
      filled_cons (by decide) (filled_cons (by decide) (filled_cons (by decide) plain)), ?_⟩
    simp only [Construction.Completes]
    refine reads_statements.mpr (.inr ((reads_statement_cons (token_wellSpelled _)).mpr ?_))
    have value : Reads .expression
        (Purpose.print.ends (Construction.following ⟨loops, statements, .statement⟩ program))
        (Terminal.trueKeyword.token :: Terminal.semicolon.token :: tokens) :=
      reads_true ⟨tokens, rfl, follows⟩
    exact value
  · obtain ⟨before, purpose, whole, first, completes⟩ := exists_stage_completes inside
    obtain ⟨program, tokens, second, ends⟩ :=
      exists_ends ⟨loops, statements, stage⟩ purpose whole
    exact ⟨program, before ++ tokens, List.append_subset.mpr ⟨first, second⟩,
      (completes_inside inside).mpr (completes (fun purpose => purpose.ends _) tokens ends)⟩

end

end Bella.Source
