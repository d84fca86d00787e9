import Bella.Proofs.Grammar.Passage

/-! Sources after each other. What is read does not depend on the statements that came before, so a
source is read after another one as it is read alone. -/

namespace Bella.Source

open Construction

def raise (base : List Node) : List OpenLoop → List Node → List OpenLoop × List Node
  | [], statements => ([], statements ++ base)
  | loop :: outer, statements =>
      let (loops, before) := raise base outer loop.before
      (⟨loop.test, before⟩ :: loops, statements)

def Construction.above (base : List Node) (construction : Construction) : Construction :=
  let (loops, statements) := raise base construction.loops construction.statements
  ⟨loops, statements, construction.stage⟩

section

variable {base : List Node} {construction last : Construction} {program : Node}

theorem raise_cons (base : List Node) (loops : List OpenLoop) (statement : Node)
    (statements : List Node) :
    raise base loops (statement :: statements) =
      ((raise base loops statements).1, statement :: (raise base loops statements).2) := by
  cases loops <;> rfl

theorem addStatement_above (terminal : Terminal) (lexeme : List Char) :
    (construction.above base).addStatement terminal lexeme =
      (construction.addStatement terminal lexeme).map (Construction.above base) := by
  obtain ⟨loops, statements, stage⟩ := construction
  cases terminal
  case rightBrace =>
    cases loops with
    | nil => rfl
    | cons loop outer =>
        simp only [Construction.addStatement, Construction.above, raise, Option.map_some, raise_cons]
  all_goals rfl

theorem endStatement_above (purpose : Purpose) (frames : List Frame) (operand : Node)
    (terminal : Terminal) :
    (construction.above base).endStatement purpose frames operand terminal =
      (construction.endStatement purpose frames operand terminal).map
        (Construction.above base) := by
  simp only [endStatement]
  split
  · split
    · rfl
    · simp only [Option.map_map]
      refine congrArg (Option.map · _) (funext fun statement => ?_)
      simp only [Function.comp, Construction.above, raise_cons]
    · rfl
  · rfl

/-- What can be added, and what comes of it, does not depend on the statements before. -/
theorem add_above (terminal : Terminal) (lexeme : List Char) :
    (construction.above base).add terminal lexeme =
      (construction.add terminal lexeme).map (Construction.above base) := by
  have stage : (construction.above base).stage = construction.stage := rfl
  have inside (stage? : Option Stage) : stage?.map (construction.above base).atStage =
      (stage?.map construction.atStage).map (Construction.above base) := by
    rw [Option.map_map]
    rfl
  simp only [add, stage]
  split
  · exact addStatement_above terminal lexeme
  case h_10 => exact inside _
  case h_11 =>
    split
    · exact endStatement_above _ _ _ terminal
    · exact inside _
  all_goals
    split
    · rfl
    · first
        | rfl
        | split <;> rfl

theorem Passes.above {read rest : List Char} (passes : Passes construction read rest last) :
    Passes (construction.above base) read rest (last.above base) := by
  induction passes with
  | stay => exact .stay
  | blank blank _ ih => exact .blank blank ih
  | comment plain ended _ ih => exact .comment plain ended ih
  | token bare scanned added _ ih =>
      refine .token bare scanned ?_ ih
      rw [add_above, added]
      rfl

theorem finish?_eq_some : construction.finish? = some program ↔
    ∃ statements, statements ≠ [] ∧ construction = ⟨[], statements, .statement⟩ ∧
      program = .program (.block statements.reverse) := by
  constructor
  · intro finished
    unfold finish? at finished
    split at finished
    · exact ⟨_, List.cons_ne_nil _ _, rfl, (Option.some.inj finished).symm⟩
    · cases finished
  · rintro ⟨statements, filled, rfl, rfl⟩
    obtain ⟨last, earlier, rfl⟩ := List.exists_cons_of_ne_nil filled
    rfl

theorem parse_joined {first second : String} {one two : Node} (parsed : parse first = .ok one)
    (also : parse second = .ok two) :
    ∃ earlier later, one = .program (.block earlier) ∧ two = .program (.block later) ∧
      parse (first ++ "\n" ++ second) = .ok (.program (.block (earlier ++ later))) := by
  obtain ⟨middle, before, finished⟩ := (parse_iff_passes first one).mp parsed
  obtain ⟨last, after, ended⟩ := (parse_iff_passes second two).mp also
  obtain ⟨earlier, some, rfl, rfl⟩ := finish?_eq_some.mp finished
  obtain ⟨later, more, rfl, rfl⟩ := finish?_eq_some.mp ended
  refine ⟨earlier.reverse, later.reverse, rfl, rfl, (parse_iff_passes _ _).mpr ?_⟩
  -- The first source may end in a comment, which only a new line ends.
  have line : ∀ character ∈ ('\n' :: second.toList ++ []).head?, character = '\n' := by
    intro character found
    exact (Option.some.inj found).symm
  have start : Passes .empty first.toList ('\n' :: second.toList ++ [])
      ⟨[], earlier, .statement⟩ :=
    before.exchange (.inl line)
  have rest : Passes ⟨[], earlier, .statement⟩ second.toList []
      ⟨[], later ++ earlier, .statement⟩ :=
    after.above
  have split : (first ++ "\n" ++ second).toList = first.toList ++ '\n' :: second.toList := by
    simp
  refine ⟨_, split ▸ start.append (.blank rfl rest), finish?_eq_some.mpr
    ⟨later ++ earlier, List.append_ne_nil_of_left_ne_nil more _, rfl, ?_⟩⟩
  rw [List.reverse_append]

end

end Bella.Source
