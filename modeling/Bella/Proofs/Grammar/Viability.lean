import Bella.Proofs.Grammar.Continuation

/-! What a whole construction waits for. A terminal is added to it just where some program goes on
with that terminal, and every construction that has been reached can be completed. -/

namespace Bella.Source

open Construction

def Purpose.ends (goal : Goal Node) : Purpose → Goal Node
  | .declaration name => fun value => Meets .semicolon <|
      goal (.variableDeclaration (identifier name) value)
  | .function name parameters => fun body => Meets .semicolon <|
      goal (.functionDeclaration (identifier name) (parameters.map identifier) body)
  | .assignment name => fun value => Meets .semicolon <| goal (.assignment (identifier name) value)
  | .print => fun value => Meets .semicolon <| goal (.printStatement value)
  | .guard => fun guard => Meets .leftBrace <| Reads .statements fun body =>
      Meets .rightBrace <| goal (.whileStatement guard (.block body))

/-- What comes after the statements of the innermost open body. Without an open body, they are the
program. -/
def Finishes (program : Node) : List OpenLoop → List Node → List Token → Prop
  | [], statements => fun tokens =>
      tokens = [] ∧ statements ≠ [] ∧ program = .program (.block statements)
  | loop :: outer, body => Meets .rightBrace <| Reads .statements fun rest =>
      Finishes program outer (loop.before.reverse ++ .whileStatement loop.test (.block body) :: rest)

namespace Construction

def following (construction : Construction) (program : Node) : Goal Node := fun statement =>
  Reads .statements fun rest =>
    Finishes program construction.loops (construction.statements.reverse ++ statement :: rest)

def Completes (construction : Construction) (program : Node) : List Token → Prop :=
  match construction.stage with
  | .statement => Reads .statements fun rest =>
      Finishes program construction.loops (construction.statements.reverse ++ rest)
  | stage => stage.Completes fun purpose => purpose.ends (construction.following program)

def Orderly (construction : Construction) : Prop :=
  construction.stage = .statement ∨ construction.stage.Inside

def Agrees (construction? : Option Construction) (program : Node) (before : Prop)
    (tokens : List Token) : Prop :=
  match construction? with
  | none => ¬before
  | some next => next.Orderly ∧ (before ↔ next.Completes program tokens)

end Construction

section

variable {token : Token} {tokens : List Token} {construction : Construction} {program : Node}

theorem reads_parameters_cons {goal : Goal (List (List Char))} (spelled : token.WellSpelled) :
    ReadsParameters goal (token :: tokens) ↔
      (token.terminal = .rightParenthesis ∧ goal [] tokens) ∨
      (token.terminal = .name ∧
        ReadsMoreParameters (fun later => goal (token.lexeme :: later)) tokens) := by
  constructor
  · rintro ⟨parameters, rest, same, reached⟩
    cases parameters with
    | nil =>
        obtain ⟨rfl, rfl⟩ := List.cons.inj same
        exact .inl ⟨rfl, reached⟩
    | cons first later =>
        obtain ⟨rfl, rfl⟩ := List.cons.inj same
        exact .inr ⟨rfl, later, rest, rfl, reached⟩
  · rintro (⟨terminal, reached⟩ | ⟨terminal, later, rest, rfl, reached⟩)
    · refine ⟨[], tokens, ?_, reached⟩
      rw [spelled.eq_token (by rw [terminal]; rfl), terminal]
      rfl
    · refine ⟨token.lexeme :: later, rest, ?_, reached⟩
      simp [parameterTokens, nameToken, ← terminal]

theorem reads_moreParameters_cons {goal : Goal (List (List Char))}
    (spelled : token.WellSpelled) :
    ReadsMoreParameters goal (token :: tokens) ↔
      (token.terminal = .rightParenthesis ∧ goal [] tokens) ∨
      (token.terminal = .comma ∧ Takes .name (fun next =>
        ReadsMoreParameters fun later => goal (next :: later)) tokens) := by
  constructor
  · rintro ⟨parameters, rest, same, reached⟩
    cases parameters with
    | nil =>
        obtain ⟨rfl, rfl⟩ := List.cons.inj same
        exact .inl ⟨rfl, reached⟩
    | cons next later =>
        obtain ⟨rfl, rfl⟩ := List.cons.inj same
        exact .inr ⟨rfl, next, _, rfl, later, rest, rfl, reached⟩
  · rintro (⟨terminal, reached⟩ | ⟨terminal, next, _, rfl, later, rest, rfl, reached⟩)
    · refine ⟨[], tokens, ?_, reached⟩
      rw [spelled.eq_token (by rw [terminal]; rfl), terminal]
      rfl
    · refine ⟨next :: later, rest, ?_, reached⟩
      rw [spelled.eq_token (by rw [terminal]; rfl), terminal]
      rfl

theorem not_ends {goal : Goal Node} {purpose : Purpose} {whole : Node}
    (inside : token.terminal ≠ .semicolon ∧ token.terminal ≠ .leftBrace) :
    ¬purpose.ends goal whole (token :: tokens) := by
  cases purpose with
  | guard => exact not_meets inside.2
  | _ => exact not_meets inside.1

theorem completes_inside {stage : Stage} (inside : stage.Inside) :
    (construction.atStage stage).Completes program tokens ↔
      stage.Completes (fun purpose => purpose.ends (construction.following program)) tokens := by
  cases stage with
  | statement => exact inside.elim
  | _ => exact Iff.rfl

theorem agrees_stage {stage : Stage} {before : Prop} (inside : stage.Inside)
    (same : before ↔
      stage.Completes (fun purpose => purpose.ends (construction.following program)) tokens) :
    Agrees (some (construction.atStage stage)) program before tokens :=
  ⟨.inr inside, same.trans (completes_inside inside).symm⟩

theorem agrees_map {stage? : Option Stage} {before : Prop}
    (agrees : Stage.Agrees (fun purpose => purpose.ends (construction.following program)) stage?
      before tokens) :
    Agrees (stage?.map construction.atStage) program before tokens := by
  cases stage? with
  | none => exact agrees
  | some stage => exact agrees_stage agrees.1 agrees.2

theorem addStatement_agrees (spelled : token.WellSpelled)
    (stage : construction.stage = .statement) :
    Agrees (construction.addStatement token.terminal token.lexeme) program
      (construction.Completes program (token :: tokens)) tokens := by
  obtain ⟨loops, statements, _⟩ := construction
  subst stage
  simp only [Construction.Completes]
  rw [reads_statements, reads_statement_cons spelled, List.append_nil]
  cases terminal : token.terminal
  case rightBrace =>
    have unstarted (goal : Goal Node) : ¬ReadsStatement goal token tokens := by
      simp [ReadsStatement, terminal]
    rw [or_iff_left (unstarted _)]
    cases loops with
    | nil => exact fun finished => nomatch finished.1
    | cons loop outer =>
        refine ⟨.inl rfl, (meets_cons spelled (by decide)).trans ((and_iff_right terminal).trans ?_)⟩
        change _ ↔ Reads .statements (fun rest => Finishes program outer
          (List.reverse (.whileStatement loop.test (.block statements.reverse) :: loop.before) ++
            rest)) tokens
        simp only [List.reverse_cons, List.append_assoc, List.singleton_append]
  all_goals
    have unfinished : ¬Finishes program loops statements.reverse (token :: tokens) := by
      cases loops with
      | nil => exact fun finished => nomatch finished.1
      | cons loop outer => exact not_meets (by rw [terminal]; decide)
    rw [or_iff_right unfinished]
    simp only [ReadsStatement, terminal, Construction.addStatement]
  case letKeyword | name => exact agrees_stage trivial Iff.rfl
  case funKeyword =>
    refine agrees_stage trivial ?_
    simp only [Stage.Completes, ReadsBody, Purpose.ends, List.map_map]
    exact Iff.rfl
  case printKeyword | whileKeyword => exact agrees_stage trivial beforeOperand_nil.symm
  all_goals exact id

theorem endStatement_agrees {purpose : Purpose} {frames : List Frame} {operand : Node}
    {callee : Option String} (spelled : token.WellSpelled) (nested : Nested frames)
    (ends : token.terminal = .semicolon ∨ token.terminal = .leftBrace) :
    Agrees (construction.endStatement purpose frames operand token.terminal) program
      (AfterOperand (purpose.ends (construction.following program)) frames operand callee
        (token :: tokens)) tokens := by
  rw [afterOperand_end nested ends]
  simp only [Construction.endStatement]
  generalize endExpression frames operand = ended
  obtain ⟨final, value⟩ := ended
  cases final with
  | cons frame outer => exact fun both => nomatch both.1
  | nil =>
      rw [and_iff_right rfl]
      rcases ends with ends | ends
      · cases purpose with
        | guard =>
            simp only [ends, finishStatement]
            exact not_meets (by rw [ends]; decide)
        | _ =>
            simp only [ends, finishStatement]
            refine ⟨.inl rfl, (meets_cons spelled (by decide)).trans ((and_iff_right ends).trans ?_)⟩
            simp only [following, Construction.Completes, List.reverse_cons, List.append_assoc,
              List.singleton_append]
      · cases purpose with
        | guard =>
            simp only [ends]
            exact ⟨.inl rfl, (meets_cons spelled (by decide)).trans (and_iff_right ends)⟩
        | _ =>
            simp only [ends]
            exact not_meets (by rw [ends]; decide)

theorem agrees_single {stage : Stage} {terminal : Terminal} {before : Prop}
    (inside : stage.Inside)
    (same : before ↔ token.terminal = terminal ∧
      stage.Completes (fun purpose => purpose.ends (construction.following program)) tokens) :
    Agrees (if token.terminal = terminal then some (construction.atStage stage) else none) program
      before tokens := by
  split
  · rename_i accepted
    exact agrees_stage inside (same.trans (and_iff_right accepted))
  · rename_i refused
    exact fun reached => refused (same.mp reached).1

theorem addParameter_agrees {name : String} {earlier : List String} (spelled : token.WellSpelled)
    (stage : construction.stage = .parameter name earlier) :
    Agrees (construction.add token.terminal token.lexeme) program
      (construction.Completes program (token :: tokens)) tokens := by
  simp only [Construction.add, Construction.Completes, stage]
  by_cases next : token.terminal = .name
  · rw [if_pos next]
    refine agrees_stage (List.cons_ne_nil _ _) ?_
    cases earlier with
    | nil =>
        exact (reads_parameters_cons spelled).trans (by simp [next, Stage.Completes])
    | cons last earlier =>
        refine takes_cons.trans ((and_iff_right next).trans ?_)
        simp only [Stage.Completes, List.map_cons, List.reverse_cons, List.append_assoc,
          List.cons_append, List.nil_append]
  · rw [if_neg next]
    cases earlier with
    | nil =>
        by_cases closed : token.terminal = .rightParenthesis
        · rw [if_pos ⟨closed, rfl⟩]
          refine agrees_stage trivial ?_
          exact (reads_parameters_cons spelled).trans (by simp [closed, Stage.Completes])
        · rw [if_neg fun both => closed both.1]
          intro reached
          rcases (reads_parameters_cons spelled).mp reached with both | both
          · exact closed both.1
          · exact next both.1
    | cons last earlier =>
        rw [if_neg fun both => List.cons_ne_nil _ _ both.2]
        exact fun reached => next (takes_cons.mp reached).1

theorem addParameterEnd_agrees {name : String} {earlier : List String}
    (spelled : token.WellSpelled) (stage : construction.stage = .parameterEnd name earlier)
    (filled : earlier ≠ []) :
    Agrees (construction.add token.terminal token.lexeme) program
      (construction.Completes program (token :: tokens)) tokens := by
  simp only [Construction.add, Construction.Completes, stage, Stage.Completes]
  rw [reads_moreParameters_cons spelled]
  by_cases comma : token.terminal = .comma
  · rw [if_pos comma]
    obtain ⟨last, earlier, rfl⟩ := List.exists_cons_of_ne_nil filled
    exact agrees_stage trivial (by simp [comma, Stage.Completes])
  · rw [if_neg comma]
    refine agrees_single trivial ?_
    simp [comma, Stage.Completes]

/-- A construction accepts a terminal just where the grammar goes on with it, and is left with what
the grammar leaves. -/
theorem add_agrees (spelled : token.WellSpelled) (orderly : construction.Orderly) :
    Agrees (construction.add token.terminal token.lexeme) program
      (construction.Completes program (token :: tokens)) tokens := by
  have inside : construction.stage ≠ .statement → construction.stage.Inside :=
    orderly.resolve_left
  cases stage : construction.stage with
  | statement =>
      simp only [Construction.add, stage]
      exact addStatement_agrees spelled stage
  | parameter name earlier => exact addParameter_agrees spelled stage
  | parameterEnd name earlier =>
      rw [stage] at inside
      exact addParameterEnd_agrees spelled stage (inside nofun)
  | letName | funName =>
      simp only [Construction.add, Construction.Completes, stage]
      exact agrees_single trivial takes_cons
  | letEqual name | funEqual name parameters | targetEqual name =>
      simp only [Construction.add, Construction.Completes, stage]
      exact agrees_single trivial ((meets_cons spelled (by decide)).trans
        (and_congr_right fun _ => beforeOperand_nil.symm))
  | funOpening name =>
      simp only [Construction.add, Construction.Completes, stage]
      exact agrees_single trivial (meets_cons spelled (by decide))
  | operand purpose frames =>
      rw [stage] at inside
      have nested : Nested frames := inside nofun
      simp only [Construction.add, Construction.Completes, stage]
      exact agrees_map (addOperand_agrees spelled nested)
  | operator purpose frames value callee =>
      rw [stage] at inside
      have nested : Nested frames := inside nofun
      simp only [Construction.add, Construction.Completes, stage]
      split
      · rename_i ends
        exact endStatement_agrees spelled nested ends
      · rename_i inside
        obtain ⟨semicolon, brace⟩ := not_or.mp inside
        exact agrees_map (addOperator_agrees spelled nested ⟨semicolon, brace⟩
          fun whole => not_ends ⟨semicolon, brace⟩)

end

end Bella.Source
