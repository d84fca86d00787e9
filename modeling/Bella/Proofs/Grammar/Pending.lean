import Bella.Proofs.Grammar.Completion
import Bella.Proofs.Grammar.Unambiguity

/-! What the frames of a construction wait for, said by the grammar. Expressions are complete at
positions from one, for primary expressions, to nine, for whole expressions. A value that is
complete at a position may be prolonged until it is complete at the position that the innermost
frame expects; then that frame closes over it, and the frames further out go on from there. -/

namespace Bella.Source

def prolonged : (position : Nat) → Goal Node → Goal Node
  | 1, goal => Subscripted goal
  | 2, goal => Extended .power goal
  | 3, goal => Extended .product goal
  | 4, goal => Extended .sum goal
  | 5, goal => Extended .relation goal
  | 6, goal => Extended .conjunction goal
  | 7, goal => Extended .disjunction goal
  | 8, goal => OrCondition goal
  | _, goal => goal

def climb : (steps position : Nat) → Goal Node → Goal Node
  | 0, _, goal => goal
  | steps + 1, position, goal => prolonged position (climb steps (position + 1) goal)

theorem prolonged_operands (strength : Strength) (goal : Goal Node) :
    prolonged strength.operands.reach goal = Extended strength goal := by
  cases strength <;> rfl

theorem climb_add (first second position : Nat) (goal : Goal Node) :
    climb (first + second) position goal =
      climb first position (climb second (position + first) goal) := by
  induction first generalizing position with
  | zero => simp [climb]
  | succ first ih =>
      rw [Nat.succ_add_eq_add_succ, Nat.add_comm first, Nat.succ_add]
      simp only [climb]
      rw [Nat.add_comm second first, ih (position + 1)]
      congr 3
      omega

def Terminal.acts : Terminal → Nat
  | .leftBracket => 1
  | .power => 2
  | .product => 3
  | .sum => 4
  | .relation => 5
  | .conjunction => 6
  | .disjunction => 7
  | .question | .colon => 8
  | .comma | .rightParenthesis | .rightBracket | .semicolon | .leftBrace => 9
  | _ => 0

theorem Level.two_le_reach (level : Level) : 2 ≤ level.reach := by
  cases level with
  | binary strength => cases strength <;> decide
  | signed => decide

theorem Strength.acts_terminal (strength : Strength) :
    strength.terminal.acts = strength.operands.reach := by
  cases strength <;> rfl

theorem Meets.terminal_eq {terminal : Terminal} {goal : List Token → Prop} {token : Token}
    {tokens : List Token} (met : Meets terminal goal (token :: tokens)) :
    token.terminal = terminal := by
  obtain ⟨rest, same, -⟩ := met
  rw [(List.cons.inj same).1]
  rfl

variable {token : Token} {tokens : List Token}

theorem extended_skip {strength : Strength} {goal : Goal Node} {value : Node}
    (other : token.terminal ≠ strength.terminal) :
    Extended strength goal value (token :: tokens) ↔ goal value (token :: tokens) := by
  rw [extended_iff, takes_cons]
  simp [other]

theorem prolonged_skip {position : Nat} {goal : Goal Node} {value : Node}
    (other : token.terminal.acts ≠ position ∨ token.terminal = .colon) :
    prolonged position goal value (token :: tokens) ↔ goal value (token :: tokens) := by
  have differs (terminal : Terminal) (acts : terminal.acts = position)
      (operator : terminal ≠ .colon) : token.terminal ≠ terminal := by
    rintro rfl
    rcases other with other | other
    · exact other acts
    · exact operator other
  unfold prolonged
  split
  · rw [subscripted_iff]
    exact or_iff_left fun met => differs .leftBracket rfl nofun met.terminal_eq
  · exact extended_skip (differs .power rfl nofun)
  · exact extended_skip (differs .product rfl nofun)
  · exact extended_skip (differs .sum rfl nofun)
  · exact extended_skip (differs .relation rfl nofun)
  · exact extended_skip (differs .conjunction rfl nofun)
  · exact extended_skip (differs .disjunction rfl nofun)
  · exact or_iff_left fun met => differs .question rfl nofun met.terminal_eq
  · rfl

theorem climb_skip {steps position : Nat} {goal : Goal Node} {value : Node}
    (early : token.terminal.acts < position ∨ position + steps ≤ token.terminal.acts ∨
      token.terminal = .colon) :
    climb steps position goal value (token :: tokens) ↔ goal value (token :: tokens) := by
  induction steps generalizing position with
  | zero => rfl
  | succ steps ih =>
      have now : token.terminal.acts ≠ position ∨ token.terminal = .colon := by
        rcases early with early | early | early
        · exact .inl (by omega)
        · exact .inl (by omega)
        · exact .inr early
      have later : token.terminal.acts < position + 1 ∨
          position + 1 + steps ≤ token.terminal.acts ∨ token.terminal = .colon := by
        rcases early with early | early | early
        · exact .inl (by omega)
        · exact .inr (.inl (by omega))
        · exact .inr (.inr early)
      rw [climb, prolonged_skip now]
      exact ih later

def Frame.expects : Frame → Nat
  | .unary _ => 2
  | .binary .power _ _ => 3
  | .binary strength _ _ => strength.operands.reach
  | .test _ => 8
  | _ => 9

def Frame.result : Frame → Nat
  | .unary _ => 2
  | .binary strength _ _ => strength.reach
  | .test _ | .alternative _ _ => 9
  | _ => 1

def Frame.closes (frame : Frame) (outer : Nat → Goal Node) : Goal Node := fun value =>
  match frame with
  | .unary operator => outer 2 (Construction.unary operator value)
  | .binary .power operator left => outer 3 (Construction.binary operator left value)
  | .binary .relation operator left => outer 6 (Construction.binary operator left value)
  | .binary strength operator left =>
      Extended strength (outer strength.reach) (Construction.binary operator left value)
  | .test condition => Meets .colon <| Reads .expression fun alternate =>
      outer 9 (.conditionalExpression condition value alternate)
  | .alternative condition consequent =>
      outer 9 (.conditionalExpression condition consequent value)
  | .group => Meets .rightParenthesis (outer 1 value)
  | .subscript operand => Meets .rightBracket (outer 1 (.subscriptExpression operand value))
  | .call callee earlier => Reads .moreArguments fun later =>
      Meets .rightParenthesis (outer 1 (.call (Construction.identifier callee)
        (earlier.reverse ++ value :: later)))
  | .array earlier => Reads .moreArguments fun later =>
      Meets .rightBracket (outer 1 (.arrayLiteral (earlier.reverse ++ value :: later)))

def expected : List Frame → Nat
  | [] => 9
  | frame :: _ => frame.expects

def closing (goal : Goal Node) : List Frame → Goal Node
  | [] => goal
  | frame :: outer => frame.closes fun position =>
      climb (expected outer - position) position (closing goal outer)

/-- What comes after a value that is complete at a position. -/
def after (goal : Goal Node) (frames : List Frame) (position : Nat) : Goal Node :=
  climb (expected frames - position) position (closing goal frames)

/-- What a frame makes is of use to the frame around it. -/
def Nested : List Frame → Prop
  | [] => True
  | frame :: outer => frame.result ≤ expected outer ∧ Nested outer

theorem closing_cons (goal : Goal Node) (frame : Frame) (outer : List Frame) :
    closing goal (frame :: outer) = frame.closes (after goal outer) :=
  rfl

theorem after_expected (goal : Goal Node) (frames : List Frame) :
    after goal frames (expected frames) = closing goal frames := by
  simp [after, climb]

theorem after_eq_climb {goal : Goal Node} {frames : List Frame} {low high : Nat}
    (rises : low ≤ high) (bounded : high ≤ expected frames) :
    after goal frames low = climb (high - low) low (after goal frames high) := by
  have steps : expected frames - low = (high - low) + (expected frames - high) := by omega
  rw [after, steps, climb_add, Nat.add_sub_cancel' rises, after]

theorem after_succ {goal : Goal Node} {frames : List Frame} {position : Nat}
    (bounded : position < expected frames) :
    after goal frames position = prolonged position (after goal frames (position + 1)) := by
  rw [after_eq_climb (Nat.le_succ position) bounded, Nat.succ_sub (Nat.le_refl position),
    Nat.sub_self]
  rfl

theorem after_skip {goal : Goal Node} {frames : List Frame} {low high : Nat} {value : Node}
    (rises : low ≤ high) (bounded : high ≤ expected frames)
    (elsewhere : token.terminal.acts < low ∨ high ≤ token.terminal.acts ∨
      token.terminal = .colon) :
    after goal frames low value (token :: tokens) ↔
      after goal frames high value (token :: tokens) := by
  rw [after_eq_climb rises bounded]
  apply climb_skip
  rw [Nat.add_sub_cancel' rises]
  exact elsewhere

theorem not_closes_call {goal : Nat → Goal Node} {callee : String} {earlier : List Node}
    {value : Node} (comma : token.terminal ≠ .comma)
    (closing : token.terminal ≠ .rightParenthesis) :
    ¬(Frame.call callee earlier).closes goal value (token :: tokens) := by
  simp only [Frame.closes, reads_moreArguments]
  rintro (met | met)
  · exact closing met.terminal_eq
  · exact comma met.terminal_eq

theorem not_closes_array {goal : Nat → Goal Node} {earlier : List Node} {value : Node}
    (comma : token.terminal ≠ .comma) (closing : token.terminal ≠ .rightBracket) :
    ¬(Frame.array earlier).closes goal value (token :: tokens) := by
  simp only [Frame.closes, reads_moreArguments]
  rintro (met | met)
  · exact closing met.terminal_eq
  · exact comma met.terminal_eq

/-- A terminal comes too late at a position past the one where it is waited for. -/
theorem not_after {goal : Goal Node} {frames : List Frame} {position : Nat} {value : Node}
    (nested : Nested frames) (bounded : position ≤ expected frames)
    (late : token.terminal.acts < position)
    (idle : ∀ whole, ¬goal whole (token :: tokens)) :
    ¬after goal frames position value (token :: tokens) := by
  rw [after_skip bounded (Nat.le_refl _) (.inl late), after_expected]
  induction frames generalizing position value with
  | nil => exact idle value
  | cons frame outer ih =>
      have inner {made : Node} {result : Nat} (later : token.terminal.acts < result)
          (fits : result ≤ expected outer) :
          ¬after goal outer result made (token :: tokens) := by
        rw [after_skip fits (Nat.le_refl _) (.inl later), after_expected]
        exact ih nested.2 fits later
      have fits := nested.1
      have differs (terminal : Terminal) (early : frame.expects ≤ terminal.acts) :
          token.terminal ≠ terminal := by
        rintro rfl
        exact absurd (Nat.lt_of_lt_of_le late bounded) (Nat.not_lt.mpr early)
      have upTo : token.terminal.acts < frame.expects := Nat.lt_of_lt_of_le late bounded
      rw [closing_cons]
      cases frame with
      | unary operator => exact inner upTo fits
      | binary strength operator left =>
          cases strength
          case power => exact inner upTo fits
          case relation => exact inner (Nat.lt_succ_of_lt upTo) fits
          all_goals
            refine fun reached => inner (Nat.lt_succ_of_lt upTo) fits
              ((extended_skip (differs _ (Nat.le_refl _))).mp reached)
      | test condition => exact fun met => differs .colon (Nat.le_refl _) met.terminal_eq
      | alternative condition consequent => exact inner upTo fits
      | group => exact fun met => differs .rightParenthesis (Nat.le_refl _) met.terminal_eq
      | subscript array => exact fun met => differs .rightBracket (Nat.le_refl _) met.terminal_eq
      | call callee earlier =>
          exact not_closes_call (differs .comma (Nat.le_refl _))
            (differs .rightParenthesis (Nat.le_refl _))
      | array earlier =>
          exact not_closes_array (differs .comma (Nat.le_refl _))
            (differs .rightBracket (Nat.le_refl _))

theorem reads_level_signed {strength : Strength} {goal : Goal Node} :
    Reads (.level (.binary strength)) goal tokens ↔
      Reads (.level .signed) (climb (strength.reach - 2) 2 goal) tokens := by
  cases strength <;> simp only [reads_level, Strength.operands] <;> rfl

theorem reads_expression_signed {goal : Goal Node} :
    Reads .expression goal tokens ↔ Reads (.level .signed) (climb 7 2 goal) tokens := by
  rw [reads_expression, reads_level_signed]
  rfl

theorem reads_whole {goal : Goal Node} {frames : List Frame} (whole : expected frames = 9) :
    Reads (.level .signed) (after goal frames 2) tokens ↔
      Reads .expression (closing goal frames) tokens := by
  rw [reads_expression_signed, after, whole]

theorem reads_test {goal : Goal Node} {condition : Node} {outer : List Frame} :
    Reads (.level .signed) (after goal (.test condition :: outer) 2) tokens ↔
      Reads (.level (.binary .disjunction)) (closing goal (.test condition :: outer)) tokens := by
  rw [reads_level_signed]
  rfl

theorem operated_iff {strength : Strength} {lexeme : List Char} {left : Node}
    {goal : Goal Node} {outer : List Frame} :
    Operated strength lexeme left (after goal outer strength.reach) tokens ↔
      Reads (.level .signed)
        (after goal (.binary strength (String.ofList lexeme) left :: outer) 2) tokens := by
  cases strength <;> simp only [Operated, Strength.operands, reads_level_signed] <;> rfl

def Frame.end? : Frame → Node → Option Node
  | .unary operator, value => some (Construction.unary operator value)
  | .binary _ operator left, value => some (Construction.binary operator left value)
  | .alternative condition consequent, value =>
      some (.conditionalExpression condition consequent value)
  | _, _ => none

inductive Collapses (limit : Nat) : List Frame → Node → List Frame → Node → Prop
  | done {frames value} : Collapses limit frames value frames value
  | step {frame outer value made frames final} : frame.end? value = some made →
      frame.result ≤ limit → Collapses limit outer made frames final →
      Collapses limit (frame :: outer) value frames final

theorem Frame.closes_end {frame : Frame} {outer : Nat → Goal Node} {value made : Node}
    (ends : frame.end? value = some made) (reached : frame.result ≤ token.terminal.acts) :
    frame.closes outer value (token :: tokens) ↔
      outer frame.result made (token :: tokens) := by
  cases frame with
  | unary operator =>
      obtain rfl := Option.some.inj ends
      rfl
  | binary strength operator left =>
      obtain rfl := Option.some.inj ends
      have other : token.terminal ≠ strength.terminal := by
        intro same
        have step := strength.reach_operands
        rw [same, strength.acts_terminal] at reached
        simp only [Frame.result] at reached
        omega
      cases strength
      case power | relation => rfl
      all_goals exact extended_skip other
  | alternative condition consequent =>
      obtain rfl := Option.some.inj ends
      rfl
  | _ => simp [Frame.end?] at ends

theorem Frame.two_le_expects (frame : Frame) : 2 ≤ frame.expects := by
  cases frame with
  | binary strength =>
      cases strength <;> simp [Frame.expects, Strength.operands, Level.reach, Strength.reach]
  | _ => simp [Frame.expects]

theorem Frame.expects_le_result {frame : Frame} {value made : Node}
    (ends : frame.end? value = some made) : frame.expects ≤ frame.result := by
  cases frame with
  | binary strength =>
      cases strength <;>
        simp [Frame.expects, Frame.result, Strength.operands, Level.reach, Strength.reach]
  | unary | alternative => simp [Frame.expects, Frame.result]
  | _ => simp [Frame.end?] at ends

theorem two_le_expected (frames : List Frame) : 2 ≤ expected frames := by
  cases frames with
  | nil => decide
  | cons frame outer => exact frame.two_le_expects

theorem Collapses.nested {limit : Nat} {frames final : List Frame} {value last : Node}
    (collapse : Collapses limit frames value final last) (nested : Nested frames) :
    Nested final := by
  induction collapse with
  | done => exact nested
  | step _ _ _ ih => exact ih nested.2

/-- A terminal that acts past the frames that end leaves no choice but to end them. -/
theorem Collapses.after_iff {limit : Nat} {frames final : List Frame} {value last : Node}
    {goal : Goal Node} (collapse : Collapses limit frames value final last)
    (nested : Nested frames) (reached : limit ≤ token.terminal.acts) :
    after goal frames 2 value (token :: tokens) ↔ after goal final 2 last (token :: tokens) := by
  induction collapse with
  | done => rfl
  | step ends within _ ih =>
      have upTo := Frame.expects_le_result ends
      rw [after_skip (Frame.two_le_expects _) (Nat.le_refl _) (.inr (.inl (by omega))),
        show Frame.expects _ = expected (_ :: _) from rfl, after_expected, closing_cons,
        Frame.closes_end ends (by omega), ← ih nested.2]
      exact (after_skip (Nat.le_trans (Frame.two_le_expects _) upTo) nested.1
        (.inr (.inl (by omega)))).symm

end Bella.Source
