import Bella.Proofs.Rules.Realisation
import Bella.Proofs.Trace.Levels

/-! Larger budgets. A run that does not spend its budget is the same with every larger one, events included.
Main statement: a run that has no end asks for deeper calls at every depth, or keeps to some depth and
takes any number of turns. -/

namespace Bella

open Traced

def Budget.Excuses (small large : Budget) : Fault → Prop
  | .recursionTooDeep => small.depth < large.depth
  | .loopTooLong => small.turns < large.turns
  | _ => False

theorem exhausted_of_excuses {small large : Budget} {fault : Fault} (excused : small.Excuses large fault) :
    fault.Exhausted := by
  cases fault with
  | recursionTooDeep | loopTooLong => trivial
  | _ => exact excused.elim

namespace Traced

variable {α β : Type} {excused : Fault → Prop}

def Agrees (excused : Fault → Prop) (lower higher : Traced α) : Prop :=
  lower = higher ∨ ∃ fault, excused fault ∧ lower.result = .error fault

theorem agrees_refl (run : Traced α) : run.Agrees excused run :=
  .inl rfl

theorem agrees_bind {lower higher : Traced α} {next following : α → Traced β}
    (before : lower.Agrees excused higher) (after : ∀ value, (next value).Agrees excused (following value)) :
    (lower >>= next).Agrees excused (higher >>= following) := by
  rcases before with rfl | ⟨fault, excuse, failed⟩
  · cases ended : lower.result with
    | error fault =>
        rw [bind_of_error ended, bind_of_error ended]
        exact agrees_refl _
    | ok value =>
        rw [bind_of_ok ended, bind_of_ok ended]
        rcases after value with same | failing
        · rw [same]
          exact agrees_refl _
        · exact .inr failing
  · exact .inr ⟨fault, excuse, by rw [bind_of_error failed]⟩

theorem agrees_repeatWhile {lower higher : α → Traced (α × Bool)} {few many : Nat}
    (turn : ∀ state, (lower state).Agrees excused (higher state)) (order : few ≤ many)
    (longer : few < many → excused .loopTooLong) (state : α) :
    (repeatWhile lower few state).Agrees excused (repeatWhile higher many state) := by
  induction few generalizing many state with
  | zero =>
      cases many with
      | zero => exact agrees_refl _
      | succ many => exact .inr ⟨_, longer (Nat.succ_pos many), rfl⟩
  | succ few ih =>
      cases many with
      | zero => exact absurd order (Nat.not_succ_le_zero few)
      | succ many =>
          rw [repeatWhile_eq_bind, repeatWhile_eq_bind]
          refine agrees_bind (turn state) fun taken => ?_
          split
          · exact ih (Nat.le_of_succ_le_succ order) (fun less => longer (Nat.succ_lt_succ less)) _
          · exact agrees_refl _

end Traced

section

variable {excused : Fault → Prop} {scope : Scope}

mutual

theorem evaluate_agrees {lower higher : Application}
    (applied : ∀ function arguments,
      (lower function arguments scope).Agrees excused (higher function arguments scope)) :
    ∀ node : Node, (evaluate lower scope node).Agrees excused (evaluate higher scope node)
  | .unaryExpression operator expression => by
      simp only [evaluate]
      exact agrees_bind (evaluate_agrees applied expression) fun _ => agrees_refl _
  | .binaryExpression operator left right => by
      simp only [evaluate]
      exact agrees_bind (evaluate_agrees applied left) fun _ =>
        agrees_bind (evaluate_agrees applied right) fun _ => agrees_refl _
  | .conditionalExpression test positive negative => by
      simp only [evaluate]
      refine agrees_bind (evaluate_agrees applied test) fun value => ?_
      split
      · exact evaluate_agrees applied positive
      · exact evaluate_agrees applied negative
      · exact agrees_refl _
  | .arrayLiteral elements => by
      simp only [evaluate]
      exact agrees_bind (evaluateAll_agrees applied elements) fun _ => agrees_refl _
  | .subscriptExpression array subscript => by
      simp only [evaluate]
      exact agrees_bind (evaluate_agrees applied array) fun _ =>
        agrees_bind (evaluate_agrees applied subscript) fun _ => agrees_refl _
  | .call callee arguments => by
      simp only [evaluate]
      split
      · exact agrees_refl _
      · refine agrees_bind (agrees_refl _) fun key => ?_
        refine agrees_bind (evaluateAll_agrees applied arguments) fun values => ?_
        split
        · exact agrees_refl _
        · exact applied _ _
  | .numeral _ | .booleanLiteral _ | .identifier _ | .variableDeclaration _ _
  | .functionDeclaration _ _ _ | .assignment _ _ | .printStatement _ | .whileStatement _ _
  | .block _ | .program _ => by
      simp only [evaluate]
      exact agrees_refl _

theorem evaluateAll_agrees {lower higher : Application}
    (applied : ∀ function arguments,
      (lower function arguments scope).Agrees excused (higher function arguments scope)) :
    ∀ nodes : List Node, (evaluateAll lower scope nodes).Agrees excused (evaluateAll higher scope nodes)
  | [] => agrees_refl _
  | node :: rest => by
      simp only [evaluateAll]
      exact agrees_bind (evaluate_agrees applied node) fun _ =>
        agrees_bind (evaluateAll_agrees applied rest) fun _ => agrees_refl _

end

/-- Only the body of a function asks for depth. -/
theorem applyFunction_agrees (level : Nat) {shallow deep : Nat} (order : shallow ≤ deep)
    (deeper : shallow < deep → excused .recursionTooDeep) (function : Value) (arguments : List Value)
    (scope : Scope) :
    (applyFunction level shallow function arguments scope).Agrees excused
      (applyFunction level deep function arguments scope) := by
  induction shallow generalizing deep function arguments scope with
  | zero =>
      cases function with
      | function name parameters body =>
          simp only [applyFunction]
          refine agrees_bind (agrees_refl _) fun _ => agrees_bind (agrees_refl _) fun _ =>
            agrees_bind (agrees_refl _) fun bindings => ?_
          cases deep with
          | zero => exact agrees_refl _
          | succ deep => exact .inr ⟨_, deeper (Nat.succ_pos deep), rfl⟩
      | _ =>
          simp only [applyFunction]
          exact agrees_refl _
  | succ shallow ih =>
      cases function with
      | function name parameters body =>
          simp only [applyFunction]
          refine agrees_bind (agrees_refl _) fun _ => agrees_bind (agrees_refl _) fun _ =>
            agrees_bind (agrees_refl _) fun bindings => ?_
          cases deep with
          | zero => exact absurd order (Nat.not_succ_le_zero shallow)
          | succ deep =>
              exact evaluate_agrees (fun function arguments =>
                ih (Nat.le_of_succ_le_succ order) (fun less => deeper (Nat.succ_lt_succ less))
                  function arguments _) body
      | _ =>
          simp only [applyFunction]
          exact agrees_refl _

end

section

variable {excused : Fault → Prop} {level few many : Nat} {lower higher : Evaluator}

mutual

theorem executeBy_agrees (evaluated : ∀ scope node, (lower scope node).Agrees excused (higher scope node))
    (order : few ≤ many) (longer : few < many → excused .loopTooLong) :
    ∀ (statement : Node) (state : State),
      (executeBy level few lower statement state).Agrees excused
        (executeBy level many higher statement state)
  | .variableDeclaration id initializer, state => by
      simp only [executeBy]
      refine agrees_bind (agrees_refl _) fun name => agrees_bind (agrees_refl _) fun _ => ?_
      exact agrees_bind (evaluated state.scope initializer) fun _ => agrees_refl _
  | .assignment target source, state => by
      simp only [executeBy]
      refine agrees_bind (agrees_refl _) fun name => agrees_bind (agrees_refl _) fun _ => ?_
      exact agrees_bind (evaluated state.scope source) fun _ => agrees_refl _
  | .printStatement expression, state => by
      simp only [executeBy]
      exact agrees_bind (evaluated state.scope expression) fun _ => agrees_refl _
  | .whileStatement test body, state => by
      simp only [executeBy]
      refine agrees_repeatWhile (fun current => ?_) order longer state
      unfold loopTurn
      refine agrees_bind (evaluated current.scope test) fun value => agrees_bind (agrees_refl _) fun _ => ?_
      split
      · exact agrees_bind (executeBodyBy_agrees evaluated order longer body current) fun _ => agrees_refl _
      · exact agrees_refl _
  | .block statements, state => by
      simp only [executeBy]
      exact executeAllBy_agrees evaluated order longer statements state
  | .functionDeclaration _ _ _, _ | .numeral _, _ | .booleanLiteral _, _ | .identifier _, _
  | .unaryExpression _ _, _ | .binaryExpression _ _ _, _ | .conditionalExpression _ _ _, _
  | .arrayLiteral _, _ | .subscriptExpression _ _, _ | .call _ _, _ | .program _, _ => by
      simp only [executeBy]
      exact agrees_refl _

theorem executeBodyBy_agrees
    (evaluated : ∀ scope node, (lower scope node).Agrees excused (higher scope node))
    (order : few ≤ many) (longer : few < many → excused .loopTooLong) :
    ∀ (body : Node) (state : State),
      (executeBodyBy level few lower body state).Agrees excused
        (executeBodyBy level many higher body state)
  | .block statements, state => by
      simp only [executeBodyBy]
      exact executeAllBy_agrees evaluated order longer statements state
  | .numeral _, _ | .booleanLiteral _, _ | .identifier _, _ | .unaryExpression _ _, _
  | .binaryExpression _ _ _, _ | .conditionalExpression _ _ _, _ | .arrayLiteral _, _
  | .subscriptExpression _ _, _ | .call _ _, _ | .variableDeclaration _ _, _
  | .functionDeclaration _ _ _, _ | .assignment _ _, _ | .printStatement _, _ | .whileStatement _ _, _
  | .program _, _ => by
      simp only [executeBodyBy]
      exact agrees_refl _

theorem executeAllBy_agrees
    (evaluated : ∀ scope node, (lower scope node).Agrees excused (higher scope node))
    (order : few ≤ many) (longer : few < many → excused .loopTooLong) :
    ∀ (statements : List Node) (state : State),
      (executeAllBy level few lower statements state).Agrees excused
        (executeAllBy level many higher statements state)
  | [], state => agrees_refl _
  | statement :: rest, state => by
      simp only [executeAllBy]
      exact agrees_bind (executeBy_agrees evaluated order longer statement state) fun next =>
        executeAllBy_agrees evaluated order longer rest next

end

end

section

variable {level : Nat} {small large : Budget} {program : Node} {scope : Scope}

theorem run_agrees (order : small ≤ large) (level : Nat) (program : Node) (scope : Scope) :
    (run level small program scope).Agrees (small.Excuses large) (run level large program scope) := by
  have evaluated (scope : Scope) (node : Node) :
      (evaluateIn level small scope node).Agrees (small.Excuses large)
        (evaluateIn level large scope node) :=
    evaluate_agrees (fun function arguments =>
      applyFunction_agrees level order.1 id function arguments scope) node
  unfold run runBy
  split
  · exact agrees_refl _
  · refine agrees_bind (agrees_refl _) fun _ => ?_
    exact agrees_bind (executeAllBy_agrees evaluated order.2 id _ _) fun _ => agrees_refl _

/-- A run that fails for no want that the larger budget meets is the same run there. -/
theorem run_stable (order : small ≤ large) {result : Except Fault (List Value)}
    (ended : (run level small program scope).result = result)
    (unexcused : ∀ fault, result = .error fault → ¬small.Excuses large fault) :
    run level large program scope = run level small program scope := by
  rcases run_agrees order level program scope with same | ⟨fault, excused, failed⟩
  · exact same.symm
  · exact absurd excused (unexcused fault (ended.symm.trans failed))

/-- The run asks for deeper calls at every depth. -/
def Recurses {α : Type} (run : Budget → Traced α) : Prop :=
  ∀ depth, ∃ turns, (run ⟨depth, turns⟩).result = .error .recursionTooDeep

/-- The run keeps to some depth of calls and takes any number of turns. -/
def Loops {α : Type} (run : Budget → Traced α) : Prop :=
  ∃ depth, ∀ turns, (run ⟨depth, turns⟩).result = .error .loopTooLong

theorem Recurses.eventually (recurses : Recurses fun budget => run level budget program scope)
    (depth : Nat) : ∃ least, ∀ turns, least ≤ turns →
      (run level ⟨depth, turns⟩ program scope).result = .error .recursionTooDeep := by
  obtain ⟨least, spent⟩ := recurses depth
  refine ⟨least, fun turns enough => ?_⟩
  have order : (⟨depth, least⟩ : Budget) ≤ ⟨depth, turns⟩ := ⟨Nat.le_refl depth, enough⟩
  rw [run_stable order spent fun fault same => Except.error.inj same ▸ Nat.lt_irrefl depth]
  exact spent

theorem Loops.eventually (loops : Loops fun budget => run level budget program scope) :
    ∃ least, ∀ depth turns, least ≤ depth →
      (run level ⟨depth, turns⟩ program scope).result = .error .loopTooLong := by
  obtain ⟨least, spent⟩ := loops
  refine ⟨least, fun depth turns enough => ?_⟩
  have order : (⟨least, turns⟩ : Budget) ≤ ⟨depth, turns⟩ := ⟨enough, Nat.le_refl turns⟩
  rw [run_stable order (spent turns) fun fault same => Except.error.inj same ▸ Nat.lt_irrefl turns]
  exact spent turns

theorem exhausted_of_larger (order : small ≤ large) {fault : Fault}
    (failed : (run level large program scope).result = .error fault) (exhausted : fault.Exhausted) :
    ∃ fault : Fault, fault.Exhausted ∧ (run level small program scope).result = .error fault := by
  rcases run_agrees order level program scope with same | ⟨other, excused, spent⟩
  · exact ⟨fault, exhausted, same ▸ failed⟩
  · exact ⟨other, exhausted_of_excuses excused, spent⟩

/-- A run has no end for one of two reasons. -/
theorem endless_iff : (Endless fun budget => run level budget program scope) ↔
    (Recurses fun budget => run level budget program scope) ∨
      Loops fun budget => run level budget program scope := by
  constructor
  · intro endless
    by_cases recurses : Recurses fun budget => run level budget program scope
    · exact .inl recurses
    · obtain ⟨depth, never⟩ := not_forall.mp recurses
      refine .inr ⟨depth, fun turns => ?_⟩
      obtain ⟨fault, exhausted, failed⟩ := endless ⟨depth, turns⟩
      cases fault with
      | recursionTooDeep => exact absurd ⟨turns, failed⟩ never
      | loopTooLong => exact failed
      | _ => exact exhausted.elim
  · rintro (recurses | loops) ⟨depth, turns⟩
    · obtain ⟨least, deep⟩ := recurses.eventually depth
      exact exhausted_of_larger ⟨Nat.le_refl depth, Nat.le_max_right least turns⟩
        (deep _ (Nat.le_max_left least turns)) trivial
    · obtain ⟨least, long⟩ := loops.eventually
      exact exhausted_of_larger ⟨Nat.le_max_right least depth, Nat.le_refl turns⟩
        (long _ turns (Nat.le_max_left least depth)) trivial

end

end Bella
