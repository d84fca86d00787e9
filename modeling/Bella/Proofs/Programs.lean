import Bella.Proofs.Grammar.Language
import Bella.Proofs.Rules.Realisation

/-! Programs that are read from source text. Main statement: at every level of the trace a run of one
ends with its output, ends with a misuse that is no unknown operator, or has no end. -/

namespace Bella

section

variable {source : String} {program : Node}

theorem parsed_realises (parsed : Source.parse source = .ok program) (level : Nat) :
    Realises (fun budget => run level budget program .initial) (Runs program .initial) :=
  run_realises level (Source.parse_shaped parsed) (initial_every Set.univ Vocabulary.known.Admits)

theorem parsed_fault (parsed : Source.parse source = .ok program) {level : Nat} {budget : Budget}
    {fault : Fault} (failed : (run level budget program .initial).result = .error fault) :
    (∃ misuse : Misuse, fault = .misuse misuse ∧ misuse.kind ≠ "UnknownOperator") ∨ fault.Exhausted := by
  have safe := Traced.ensures_iff.mp (run_ensures level budget (Source.parse_shaped parsed)
    (initial_every Set.univ Vocabulary.known.Admits))
  rcases excuses_cases (safe.2 fault failed) with ⟨misuse, same, allowed⟩ | exhausted
  · exact .inl ⟨misuse, same, Vocabulary.kind_of_known allowed⟩
  · exact .inr exhausted

theorem parsed_kind (parsed : Source.parse source = .ok program) {level : Nat} {budget : Budget}
    {misuse : Misuse} (failed : (run level budget program .initial).result = .error (.misuse misuse)) :
    misuse.kind ≠ "UnknownOperator" := by
  rcases parsed_fault parsed failed with ⟨other, same, known⟩ | exhausted
  · exact Fault.misuse.inj same ▸ known
  · exact exhausted.elim

end

/-- A run from the initial scope ends in one of these ways from some budget on or spends every
budget, and at no budget does it fail in any other way. -/
theorem run_parsed (level : Nat) {source : String} {program : Node}
    (parsed : Source.parse source = .ok program) :
    ((∃ outcome : Outcome (List Value),
        Settles (fun budget => run level budget program .initial) outcome ∧
          ∀ misuse, outcome = .error misuse → misuse.kind ≠ "UnknownOperator") ∨
      Endless fun budget => run level budget program .initial) ∧
    ∀ budget fault, (run level budget program .initial).result = .error fault →
      (∃ misuse : Misuse, fault = .misuse misuse ∧ misuse.kind ≠ "UnknownOperator") ∨
        fault.Exhausted := by
  have realises := parsed_realises parsed level
  refine ⟨?_, fun budget fault failed => parsed_fault parsed failed⟩
  by_cases derived : ∃ outcome, Runs program .initial outcome
  · obtain ⟨outcome, derived⟩ := derived
    have settles := realises.settles outcome derived
    refine .inl ⟨outcome, settles, fun misuse same => ?_⟩
    subst same
    obtain ⟨budget, ended⟩ := settles.exists
    exact parsed_kind parsed ended
  · exact .inr (realises.endless.mpr fun outcome rule => derived ⟨outcome, rule⟩)

def edgeSource : String :=
  "print [1e999][-0.0] % 0;"

def edgeProgram : Node :=
  .program (.block [.printStatement
    (.binaryExpression (.text "%")
      (.subscriptExpression
        (.arrayLiteral [.numeral (.real (Number.ofNumeral "1e999".toList))])
        (.unaryExpression (.text "-") (.numeral (.real (Number.ofNumeral "0.0".toList)))))
      (.numeral (.real (Number.ofNumeral "0".toList))))])

theorem run_parsed_edge :
    Source.parse edgeSource = .ok edgeProgram ∧
      ((∃ outcome : Outcome (List Value),
          Settles (fun budget => run 3 budget edgeProgram .initial) outcome ∧
            ∀ misuse, outcome = .error misuse → misuse.kind ≠ "UnknownOperator") ∨
        Endless fun budget => run 3 budget edgeProgram .initial) ∧
      ∀ budget fault, (run 3 budget edgeProgram .initial).result = .error fault →
        (∃ misuse : Misuse, fault = .misuse misuse ∧ misuse.kind ≠ "UnknownOperator") ∨
          fault.Exhausted := by
  have parsed : Source.parse edgeSource = .ok edgeProgram := rfl
  exact ⟨parsed, run_parsed 3 parsed⟩

end Bella
