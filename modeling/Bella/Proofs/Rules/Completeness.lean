import Bella.Proofs.Rules.Parameters
import Bella.Proofs.Rules.Primitive

/-! Whatever the rules derive, a run ends with, once its budget is large enough; a larger budget does
not change how it ends. -/

namespace Bella

open Traced

variable {α β : Type}

instance : LE Budget :=
  ⟨fun small large => small.depth ≤ large.depth ∧ small.turns ≤ large.turns⟩

def Eventually (holds : Budget → Prop) : Prop :=
  ∃ least : Budget, ∀ budget, least ≤ budget → holds budget

theorem eventually_always {holds : Budget → Prop} (always : ∀ budget, holds budget) :
    Eventually holds :=
  ⟨⟨0, 0⟩, fun budget _ => always budget⟩

theorem Eventually.and {first second : Budget → Prop} (one : Eventually first)
    (other : Eventually second) : Eventually fun budget => first budget ∧ second budget := by
  obtain ⟨least, above⟩ := one
  obtain ⟨bound, beyond⟩ := other
  refine ⟨⟨max least.depth bound.depth, max least.turns bound.turns⟩, ?_⟩
  rintro budget ⟨deep, long⟩
  simp only [Nat.max_le] at deep long
  exact ⟨above budget ⟨deep.1, long.1⟩, beyond budget ⟨deep.2, long.2⟩⟩

theorem Eventually.mono {first second : Budget → Prop} (eventually : Eventually first)
    (implied : ∀ budget, first budget → second budget) : Eventually second := by
  obtain ⟨least, above⟩ := eventually
  exact ⟨least, fun budget large => implied budget (above budget large)⟩

theorem Eventually.exists {holds : Budget → Prop} (eventually : Eventually holds) :
    ∃ budget, holds budget := by
  obtain ⟨least, above⟩ := eventually
  exact ⟨least, above least ⟨Nat.le_refl _, Nat.le_refl _⟩⟩

/-- The run ends with the outcome, however large the budget is from some budget on. -/
def Settles (run : Budget → Traced α) (outcome : Outcome α) : Prop :=
  Eventually fun budget => (run budget).result = outcome.result

theorem settles_result {run : Budget → Traced α} {outcome : Outcome α}
    (ended : ∀ budget, (run budget).result = outcome.result) : Settles run outcome :=
  eventually_always ended

theorem settles_fails {first : Budget → Traced α} {next : Budget → α → Traced β}
    {misuse : Misuse} (failed : Settles first (.error misuse)) :
    Settles (fun budget => first budget >>= next budget) (.error misuse) := by
  refine failed.mono fun budget ended => ?_
  rw [result_bind, ended]
  rfl

theorem settles_bind {first : Budget → Traced α} {next : Budget → α → Traced β} {value : α}
    {outcome : Outcome β} (before : Settles first (.ok value))
    (after : Settles (fun budget => next budget value) outcome) :
    Settles (fun budget => first budget >>= next budget) outcome := by
  refine (before.and after).mono fun budget ended => ?_
  rw [result_bind, ended.1]
  exact ended.2

theorem settles_note {level : Nat} {event : Event} {next : Budget → Unit → Traced α}
    {outcome : Outcome α} (after : Settles (fun budget => next budget ()) outcome) :
    Settles (fun budget => note level event >>= next budget) outcome :=
  have noted : Settles (fun _ => note level event) (.ok ()) := settles_result fun _ => rfl
  settles_bind noted after

theorem settles_known {result : Except Fault α} {value : α} {next : Budget → α → Traced β}
    {outcome : Outcome β} (known : result = .ok value)
    (after : Settles (fun budget => next budget value) outcome) :
    Settles (fun budget => ofExcept result >>= next budget) outcome :=
  settles_bind (settles_result fun _ => known) after

theorem settles_refused {result : Except Fault α} {misuse : Misuse}
    {next : Budget → α → Traced β} (known : result = .error (.misuse misuse)) :
    Settles (fun budget => ofExcept result >>= next budget) (.error misuse) :=
  settles_fails (settles_result fun _ => known)

section

variable (level : Nat)

mutual

theorem Evaluates.settles {scope : Scope} {node : Node} {outcome : Outcome Value}
    (derived : Evaluates scope node outcome) :
    Settles (fun budget => evaluateIn level budget scope node) outcome := by
  unfold evaluateIn
  match derived with
  | .numeral read =>
      simp only [evaluate, read]
      exact settles_result fun _ => rfl
  | .booleanLiteral truth =>
      simp only [evaluate]
      exact settles_result fun _ => rfl
  | .identifier named bound =>
      simp only [evaluate, Scope.get_bound named bound]
      exact settles_result fun _ => rfl
  | .unboundIdentifier named unbound =>
      simp only [evaluate, Scope.get_unbound named unbound]
      exact settles_result fun _ => rfl
  | .operandFails failed =>
      simp only [evaluate]
      exact settles_fails failed.settles
  | .unary evaluated rule =>
      simp only [evaluate]
      exact settles_bind evaluated.settles (settles_result fun _ => unaryResult_of_rule rule)
  | .leftFails failed =>
      simp only [evaluate]
      exact settles_fails failed.settles
  | .rightFails first failed =>
      simp only [evaluate]
      exact settles_bind first.settles (settles_fails failed.settles)
  | .binary first second rule =>
      simp only [evaluate]
      exact settles_bind first.settles
        (settles_bind second.settles (settles_result fun _ => binaryResult_of_rule rule))
  | .testFails failed =>
      simp only [evaluate]
      exact settles_fails failed.settles
  | .consequent tested branch | .alternate tested branch =>
      simp only [evaluate]
      exact settles_bind tested.settles branch.settles
  | .testMismatch tested mismatch =>
      simp only [evaluate]
      refine settles_bind tested.settles (settles_result fun _ => ?_)
      split
      · exact absurd rfl mismatch
      · exact absurd rfl mismatch
      · rfl
  | .elementFails failed =>
      simp only [evaluate]
      exact settles_fails failed.settles
  | .arrayLiteral evaluated =>
      simp only [evaluate]
      exact settles_bind evaluated.settles (settles_result fun _ => rfl)
  | .arrayFails failed =>
      simp only [evaluate]
      exact settles_fails failed.settles
  | .subscriptFails first failed =>
      simp only [evaluate]
      exact settles_bind first.settles (settles_fails failed.settles)
  | .subscript first second rule =>
      simp only [evaluate]
      exact settles_bind first.settles
        (settles_bind second.settles (settles_result fun _ => subscriptResult_of_rule rule))
  | .argumentFails named failed =>
      simp only [evaluate, Node.name?]
      exact settles_known (Scope.keyOf_named named) (settles_fails failed.settles)
  | .unboundCallee named evaluated unbound =>
      simp only [evaluate, Node.name?]
      refine settles_known (Scope.keyOf_named named) (settles_bind evaluated.settles ?_)
      simp only [unbound]
      exact settles_result fun _ => rfl
  | .call named evaluated bound applied =>
      simp only [evaluate, Node.name?]
      refine settles_known (Scope.keyOf_named named) (settles_bind evaluated.settles ?_)
      simp only [bound]
      exact applied.settles

theorem EvaluatesAll.settles {scope : Scope} {nodes : List Node}
    {outcome : Outcome (List Value)} (derived : EvaluatesAll scope nodes outcome) :
    Settles (fun budget => evaluateAll (applyFunction level budget.depth) scope nodes)
      outcome := by
  match derived with
  | .nil =>
      simp only [evaluateAll]
      exact settles_result fun _ => rfl
  | .firstFails failed =>
      simp only [evaluateAll]
      exact settles_fails failed.settles
  | .restFails first failed =>
      simp only [evaluateAll]
      exact settles_bind first.settles (settles_fails failed.settles)
  | .cons first others =>
      simp only [evaluateAll]
      exact settles_bind first.settles
        (settles_bind others.settles (settles_result fun _ => rfl))

/-- A call needs one level of depth more than the body. -/
theorem Applies.settles {function : Value} {arguments : List Value} {scope : Scope}
    {outcome : Outcome Value} (derived : Applies function arguments scope outcome) :
    Settles (fun budget => applyFunction level budget.depth function arguments scope)
      outcome := by
  match derived with
  | .builtinArity mismatch =>
      simp only [applyFunction]
      exact settles_refused (checkArity_error mismatch)
  | .builtinMismatch arity mismatch =>
      simp only [applyFunction]
      refine settles_known (checkArity_ok arity) (settles_note (settles_result fun _ => ?_))
      simp only [builtinResult, numbersOf_mismatch _ _ _ mismatch]
      rfl
  | .builtin rule =>
      simp only [applyFunction]
      refine settles_known (checkArity_ok (by simpa using builtinRule_arity rule))
        (settles_note (settles_result fun _ => ?_))
      simp only [builtinResult, numbersOf_numbers, ok_bind, compute_of_rule rule]
      rfl
  | .functionArity mismatch =>
      simp only [applyFunction]
      exact settles_refused (checkArity_error mismatch)
  | .function arity named evaluated =>
      simp only [applyFunction]
      refine settles_known (checkArity_ok arity) (settles_note
        (settles_known (bindParameters_named arity named) ?_))
      obtain ⟨least, above⟩ := evaluated.settles
      refine ⟨⟨least.depth + 1, least.turns⟩, fun budget large => ?_⟩
      obtain ⟨_ | depth, turns⟩ := budget
      · exact absurd large.1 (Nat.not_succ_le_zero least.depth)
      · exact above ⟨depth, turns⟩ ⟨Nat.le_of_succ_le_succ large.1, large.2⟩
  | .notCallable data =>
      refine settles_result fun budget => ?_
      unfold applyFunction
      split
      · simp [Value.isFunction] at data
      · simp [Value.isFunction] at data
      · rfl

end

section

variable {turns : Nat} {evaluator : Evaluator} {test : Node} {body : State → Traced State}
  {state : State}

theorem loopTurn_fails {fault : Fault} (failed : (evaluator state.scope test).result = .error fault) :
    (loopTurn level evaluator test body state).result = .error fault := by
  rw [loopTurn, result_bind, failed]
  rfl

theorem loopTurn_stops {value : Value} (tested : (evaluator state.scope test).result = .ok value)
    (untrue : value ≠ .boolean true) :
    (loopTurn level evaluator test body state).result = .ok (state, false) := by
  rw [loopTurn, result_bind, tested]
  simp only [Except.bind, result_bind, note]
  rfl

theorem loopTurn_goes (tested : (evaluator state.scope test).result = .ok (.boolean true)) :
    (loopTurn level evaluator test body state).result =
      (body state).result.map fun next => (next, true) := by
  rw [loopTurn, result_bind, tested]
  simp only [Except.bind, result_bind, note]
  cases (body state).result <;> rfl

end

mutual

theorem Executes.settles {statement : Node} {state : State} {outcome : Outcome State}
    (derived : Executes statement state outcome) :
    Settles (fun budget => execute level budget statement state) outcome := by
  unfold execute
  match derived with
  | .duplicateVariable named bound =>
      simp only [executeBy]
      exact settles_known rfl (settles_refused (Scope.mayDeclare_bound named bound))
  | .initializerFails named fresh failed =>
      simp only [executeBy]
      exact settles_known rfl
        (settles_known (Scope.mayDeclare_fresh named fresh) (settles_fails (failed.settles level)))
  | .variable named fresh evaluated =>
      simp only [executeBy]
      refine settles_known rfl (settles_known (Scope.mayDeclare_fresh named fresh) ?_)
      refine settles_bind (evaluated.settles level) (settles_note ?_)
      exact settles_known (Scope.declare_fresh _ named fresh) (settles_result fun _ => rfl)
  | .duplicateFunction named bound =>
      simp only [executeBy]
      exact settles_known rfl (settles_refused (Scope.mayDeclare_bound named bound))
  | .repeatedParameter named fresh distinct again =>
      simp only [executeBy]
      refine settles_known rfl (settles_known (Scope.mayDeclare_fresh named fresh) ?_)
      exact settles_refused
        (parameterNames_repeated _ _ (fresh_of_nodup distinct) (.inr again))
  | .function named fresh distinct =>
      simp only [executeBy]
      refine settles_known rfl (settles_known (Scope.mayDeclare_fresh named fresh) ?_)
      refine settles_known (parameterNames_fresh _ (fresh_of_nodup distinct)) ?_
      refine settles_bind (settles_result fun _ => noteDefinition_result _ _ _) ?_
      exact settles_known (Scope.declare_fresh _ named fresh) (settles_result fun _ => rfl)
  | .unboundTarget named unbound =>
      simp only [executeBy]
      exact settles_known rfl (settles_refused (Scope.mayAssign_unbound named unbound))
  | .functionTarget named bound function =>
      simp only [executeBy]
      exact settles_known rfl (settles_refused (Scope.mayAssign_function named bound function))
  | .constantTarget named bound data constant =>
      simp only [executeBy]
      exact settles_known rfl
        (settles_refused (Scope.mayAssign_constant named bound data constant))
  | .sourceFails named assignable failed =>
      simp only [executeBy]
      exact settles_known rfl
        (settles_known (Scope.mayAssign_assignable named assignable)
          (settles_fails (failed.settles level)))
  | .assignment named assignable evaluated =>
      simp only [executeBy]
      refine settles_known rfl (settles_known (Scope.mayAssign_assignable named assignable) ?_)
      refine settles_bind (evaluated.settles level) (settles_note ?_)
      exact settles_known (Scope.assign_assignable _ named assignable)
        (settles_result fun _ => rfl)
  | .printedFails failed =>
      simp only [executeBy]
      exact settles_fails (failed.settles level)
  | .printStatement evaluated =>
      simp only [executeBy]
      exact settles_bind (evaluated.settles level) (settles_note (settles_result fun _ => rfl))
  | .whileStatement repeated =>
      simp only [executeBy]
      obtain ⟨count, least, above⟩ := repeated.settles
      refine ⟨⟨least.depth, max least.turns count⟩, fun budget large => ?_⟩
      have long := Nat.max_le.mp large.2
      exact above budget ⟨large.1, long.1⟩ budget.turns long.2
  | .block executed =>
      simp only [executeBy]
      exact executed.settles

theorem ExecutesAll.settles {statements : List Node} {state : State} {outcome : Outcome State}
    (derived : ExecutesAll statements state outcome) :
    Settles (fun budget => executeAll level budget statements state) outcome := by
  unfold executeAll
  match derived with
  | .nil =>
      simp only [executeAllBy]
      exact settles_result fun _ => rfl
  | .firstFails failed =>
      simp only [executeAllBy]
      exact settles_fails failed.settles
  | .cons first others =>
      simp only [executeAllBy]
      exact settles_bind first.settles others.settles

/-- A loop has turns of its own to spend, which its body does not share. -/
theorem Repeats.settles {test : Node} {statements : List Node} {state : State}
    {outcome : Outcome State} (derived : Repeats test statements state outcome) :
    ∃ count, Eventually fun budget => ∀ turns, count ≤ turns →
      (repeatWhile (loopTurn level (evaluateIn level budget) test
        (executeBodyBy level budget.turns (evaluateIn level budget) (.block statements)))
        turns state).result = outcome.result := by
  match derived with
  | .testFails failed =>
      refine ⟨1, (failed.settles level).mono fun budget ended turns enough => ?_⟩
      obtain ⟨turns, rfl⟩ := Nat.exists_eq_add_of_le' enough
      rw [repeatWhile_succ, loopTurn_fails level ended]
      rfl
  | .stops tested untrue =>
      refine ⟨1, (tested.settles level).mono fun budget ended turns enough => ?_⟩
      obtain ⟨turns, rfl⟩ := Nat.exists_eq_add_of_le' enough
      rw [repeatWhile_succ, loopTurn_stops level ended untrue]
      rfl
  | .bodyFails tested failed =>
      refine ⟨1, ((tested.settles level).and failed.settles).mono
        fun budget ended turns enough => ?_⟩
      obtain ⟨turns, rfl⟩ := Nat.exists_eq_add_of_le' enough
      rw [repeatWhile_succ, loopTurn_goes level ended.1, executeBodyBy]
      have body := ended.2
      unfold executeAll at body
      rw [body]
      rfl
  | .turns tested taken again =>
      obtain ⟨count, eventually⟩ := again.settles
      refine ⟨count + 1, ((tested.settles level).and (taken.settles.and eventually)).mono
        fun budget ended turns enough => ?_⟩
      obtain ⟨further, rfl⟩ := Nat.exists_eq_add_of_le' enough
      have body := ended.2.1
      unfold executeAll at body
      rw [← Nat.add_assoc, repeatWhile_succ, loopTurn_goes level ended.1, executeBodyBy, body]
      exact ended.2.2 (further + count) (Nat.le_add_left count further)

end

end

end Bella
