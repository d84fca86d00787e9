import Bella.Proofs.Codec.RoundTrip
import Bella.Proofs.Names
import Bella.Proofs.Rules.Parameters

/-! Levels of the trace. A computation at a level is the same computation at a higher one, told without
the events above the level. Main statement: so it is for every program, unless one of its functions has a
parameter whose name is no text; a run that tells definitions breaks off before such a function. -/

namespace Bella

namespace Traced

variable {α β : Type}

def told (level : Nat) (run : Traced α) : Traced α :=
  ⟨run.events.filter fun event => event.level ≤ level, run.result⟩

theorem bind_of_ok {first : Traced α} {next : α → Traced β} {value : α}
    (ended : first.result = .ok value) :
    first >>= next = ⟨first.events ++ (next value).events, (next value).result⟩ := by
  obtain ⟨events, result⟩ := first
  subst ended
  rfl

theorem bind_of_error {first : Traced α} {next : α → Traced β} {fault : Fault}
    (ended : first.result = .error fault) : first >>= next = ⟨first.events, .error fault⟩ := by
  obtain ⟨events, result⟩ := first
  subst ended
  rfl

theorem told_bind (level : Nat) (first : Traced α) (next : α → Traced β) :
    (first >>= next).told level = first.told level >>= fun value => (next value).told level := by
  obtain ⟨events, result⟩ := first
  cases result with
  | error fault => rfl
  | ok value =>
      rw [bind_of_ok rfl, bind_of_ok rfl]
      simp [told, List.filter_append]

theorem told_note {low high : Nat} (order : low ≤ high) (event : Event) :
    (note high event).told low = note low event := by
  by_cases lower : event.level ≤ low
  · simp [told, note, lower, Nat.le_trans lower order]
  · by_cases higher : event.level ≤ high
    · simp [told, note, lower, higher]
    · simp [told, note, lower, higher]

theorem repeatFrom_eq (turn : α → Traced (α × Bool)) (turns : Nat) (recorded : List Event) (state : α) :
    repeatFrom turn turns recorded state =
      ⟨recorded.reverse ++ (repeatWhile turn turns state).events,
        (repeatWhile turn turns state).result⟩ := by
  induction turns generalizing recorded state with
  | zero => simp [repeatWhile, repeatFrom]
  | succ turns ih =>
      simp only [repeatWhile, repeatFrom]
      cases (turn state).result with
      | error fault => simp [List.reverseAux_eq]
      | ok taken =>
          obtain ⟨next, again⟩ := taken
          cases again with
          | false => simp [List.reverseAux_eq]
          | true =>
              simp only
              rw [ih, ih (List.reverseAux _ _)]
              simp [List.reverseAux_eq]

/-- Computations that are told alike at the lowest level have the same result. -/
theorem result_of_told (family : Nat → Traced α)
    (least : ∀ level, family 0 = (family level).told 0) (one other : Nat) :
    (family one).result = (family other).result := by
  have same (level : Nat) : (family 0).result = (family level).result := by
    rw [least level]
    rfl
  exact (same one).symm.trans (same other)

theorem repeatWhile_eq_bind (turn : α → Traced (α × Bool)) (turns : Nat) (state : α) :
    repeatWhile turn (turns + 1) state =
      turn state >>= fun taken =>
        if taken.2 then repeatWhile turn turns taken.1 else pure taken.1 := by
  cases ended : (turn state).result with
  | error fault =>
      rw [bind_of_error ended]
      simp [repeatWhile, repeatFrom, ended, List.reverseAux_eq]
  | ok taken =>
      obtain ⟨next, again⟩ := taken
      rw [bind_of_ok ended]
      simp only [repeatWhile, repeatFrom, ended]
      cases again with
      | false => simp [List.reverseAux_eq, pure, Traced.pure]
      | true => simp [repeatFrom_eq, List.reverseAux_eq]

/-- A computation at a lower level and at a higher one. Either the events above the level make the only
difference, or the higher one breaks off at a name that cannot be told, and nothing differs before. -/
def Shadows (low : Nat) (breaks : Prop) (lower higher : Traced α) : Prop :=
  lower = higher.told low ∨
    breaks ∧ higher.result = .error .untraceableName ∧ (higher.told low).events <+: lower.events

variable {low : Nat} {breaks : Prop}

theorem shadows_pure (value : α) : (pure value : Traced α).Shadows low breaks (pure value) :=
  .inl rfl

theorem shadows_fail (fault : Fault) : (fail fault : Traced α).Shadows low breaks (fail fault) :=
  .inl rfl

theorem shadows_ofExcept (result : Except Fault α) :
    (ofExcept result).Shadows low breaks (ofExcept result) :=
  .inl rfl

theorem shadows_bind {lower higher : Traced α} {next following : α → Traced β}
    (before : lower.Shadows low breaks higher)
    (after : ∀ value, lower.result = .ok value →
      (next value).Shadows low breaks (following value)) :
    (lower >>= next).Shadows low breaks (higher >>= following) := by
  rcases before with rfl | ⟨broken, ended, earlier⟩
  · cases ended : (higher.told low).result with
    | error fault =>
        refine .inl ?_
        rw [told_bind, bind_of_error ended, bind_of_error ended]
    | ok value =>
        have passed : higher.result = .ok value := ended
        rcases after value ended with same | ⟨broken, broke, earlier⟩
        · refine .inl ?_
          rw [told_bind, bind_of_ok ended, bind_of_ok ended, same]
        · refine .inr ⟨broken, by rwa [bind_of_ok passed], ?_⟩
          rw [told_bind, bind_of_ok ended, bind_of_ok ended]
          exact (List.prefix_append_right_inj _).mpr earlier
  · refine .inr ⟨broken, by rw [bind_of_error ended], ?_⟩
    have events : ((higher >>= following).told low).events = (higher.told low).events := by
      rw [bind_of_error ended]
      rfl
    rw [events]
    cases result : lower.result with
    | error fault => rwa [bind_of_error result]
    | ok value =>
        rw [bind_of_ok result]
        exact earlier.trans (List.prefix_append _ _)

theorem shadows_repeatWhile {lower higher : α → Traced (α × Bool)}
    (turn : ∀ state, (lower state).Shadows low breaks (higher state)) (turns : Nat) (state : α) :
    (repeatWhile lower turns state).Shadows low breaks (repeatWhile higher turns state) := by
  induction turns generalizing state with
  | zero => exact .inl rfl
  | succ turns ih =>
      rw [repeatWhile_eq_bind, repeatWhile_eq_bind]
      refine shadows_bind (turn state) fun taken _ => ?_
      split
      · exact ih taken.1
      · exact shadows_pure taken.1

end Traced

open Traced

section

variable {low high : Nat} {scope : Scope}

mutual

theorem evaluate_told {lower higher : Application}
    (applied : ∀ function arguments,
      lower function arguments scope = (higher function arguments scope).told low) :
    ∀ node : Node, evaluate lower scope node = (evaluate higher scope node).told low
  | .numeral _ | .booleanLiteral _ | .identifier _ | .variableDeclaration _ _
  | .functionDeclaration _ _ _ | .assignment _ _ | .printStatement _ | .whileStatement _ _
  | .block _ | .program _ => by
      simp only [evaluate]
      rfl
  | .unaryExpression operator expression => by
      simp only [evaluate, told_bind, evaluate_told applied expression]
      rfl
  | .binaryExpression operator left right => by
      simp only [evaluate, told_bind, evaluate_told applied left, evaluate_told applied right]
      rfl
  | .conditionalExpression test consequent alternate => by
      simp only [evaluate, told_bind, evaluate_told applied test]
      refine congrArg _ (funext fun value => ?_)
      split
      · exact evaluate_told applied consequent
      · exact evaluate_told applied alternate
      · rfl
  | .arrayLiteral elements => by
      simp only [evaluate, told_bind, evaluateAll_told applied elements]
      rfl
  | .subscriptExpression array subscript => by
      simp only [evaluate, told_bind, evaluate_told applied array, evaluate_told applied subscript]
      rfl
  | .call callee arguments => by
      simp only [evaluate]
      split
      · rfl
      · simp only [told_bind, evaluateAll_told applied arguments]
        refine congrArg _ (funext fun key => congrArg _ (funext fun values => ?_))
        split
        · rfl
        · exact applied _ _

theorem evaluateAll_told {lower higher : Application}
    (applied : ∀ function arguments,
      lower function arguments scope = (higher function arguments scope).told low) :
    ∀ nodes : List Node, evaluateAll lower scope nodes = (evaluateAll higher scope nodes).told low
  | [] => rfl
  | node :: rest => by
      simp only [evaluateAll, told_bind, evaluate_told applied node, evaluateAll_told applied rest]
      rfl

end

/-- A call tells of itself before the body of the function is evaluated, one level deeper. -/
theorem applyFunction_told (order : low ≤ high) (depth : Nat) (function : Value)
    (arguments : List Value) (scope : Scope) :
    applyFunction low depth function arguments scope =
      (applyFunction high depth function arguments scope).told low := by
  induction depth using Nat.strongRecOn generalizing function arguments scope with
  | ind depth ih =>
      cases function with
      | builtin builtin =>
          simp only [applyFunction, told_bind, told_note order]
          rfl
      | function name parameters body =>
          simp only [applyFunction, told_bind, told_note order]
          refine congrArg _ (funext fun _ => congrArg _ (funext fun _ => congrArg _
            (funext fun bindings => ?_)))
          cases depth with
          | zero => rfl
          | succ depth =>
              exact evaluate_told
                (fun function arguments => ih depth (Nat.lt_succ_self depth) function arguments _) body
      | number | boolean | array | foreign =>
          simp only [applyFunction]
          rfl

theorem evaluateIn_told (order : low ≤ high) (budget : Budget) (scope : Scope) (node : Node) :
    evaluateIn low budget scope node = (evaluateIn high budget scope node).told low :=
  evaluate_told (fun function arguments => applyFunction_told order _ function arguments scope) node

end

def Value.HasTextParameters : Value → Prop
  | .function _ parameters _ => ∀ parameter ∈ parameters, ∃ name, parameter = .text name
  | _ => True

theorem parameterTexts_cases (parameters : List Datum) :
    (∃ texts : List Text, parameters = texts.map .text) ∨
      parameterTexts parameters = .error .untraceableName ∧
        ¬∀ parameter ∈ parameters, ∃ name, parameter = .text name := by
  induction parameters with
  | nil => exact .inl ⟨[], rfl⟩
  | cons parameter rest ih =>
      cases parameter with
      | text name =>
          rcases ih with ⟨texts, rfl⟩ | ⟨refused, other⟩
          · exact .inl ⟨name :: texts, rfl⟩
          · refine .inr ⟨by simp [parameterTexts, refused, Except.map], fun each => other ?_⟩
            exact fun parameter inside => each parameter (List.mem_cons_of_mem _ inside)
      | _ =>
          refine .inr ⟨rfl, fun each => ?_⟩
          obtain ⟨name, same⟩ := each _ List.mem_cons_self
          cases same

theorem noteDefinition_shadows {low high : Nat} {breaks : Prop} (order : low ≤ high) (name : Datum)
    (parameters : List Datum)
    (excused : (¬∀ parameter ∈ parameters, ∃ name, parameter = .text name) →
      low < 2 → 2 ≤ high → breaks) :
    (noteDefinition low name parameters).Shadows low breaks (noteDefinition high name parameters) := by
  by_cases above : high < 2
  · have below : low < 2 := Nat.lt_of_le_of_lt order above
    rw [noteDefinition, noteDefinition, if_pos above, if_pos below]
    exact shadows_pure ()
  · rw [noteDefinition, noteDefinition, if_neg above]
    by_cases below : low < 2
    · rw [if_pos below]
      rcases parameterTexts_cases parameters with ⟨texts, rfl⟩ | ⟨refused, other⟩
      · refine .inl ?_
        have silent : ¬(Event.defined name texts).level ≤ low := Nat.not_le_of_lt below
        have passed : (note low (.defined name texts)) = pure () := by
          rw [note, if_neg silent]
          rfl
        rw [parameterTexts_map, told_bind]
        exact (told_note order _).trans passed |>.symm
      · refine .inr ⟨excused other below (Nat.le_of_not_lt above), ?_⟩
        rw [refused]
        exact ⟨rfl, List.nil_prefix⟩
    · rw [if_neg below]
      exact shadows_bind (shadows_ofExcept _) fun texts _ => .inl (told_note order _).symm

section

variable {low high turns : Nat} {breaks : Prop} {lower higher : Evaluator}

mutual

theorem executeBy_shadows (order : low ≤ high)
    (evaluated : ∀ scope node, lower scope node = (higher scope node).told low) :
    ∀ (statement : Node) (state : State),
      (∀ function ∈ statement.functions, ¬function.HasTextParameters →
        low < 2 → 2 ≤ high → breaks) →
      (executeBy low turns lower statement state).Shadows low breaks
        (executeBy high turns higher statement state)
  | .variableDeclaration id initializer, state, _ => by
      simp only [executeBy]
      refine shadows_bind (shadows_ofExcept _) fun name _ => ?_
      refine shadows_bind (shadows_ofExcept _) fun _ _ => ?_
      refine shadows_bind (.inl (evaluated _ _)) fun value _ => ?_
      refine shadows_bind (.inl (told_note order _).symm) fun _ _ => ?_
      exact shadows_bind (shadows_ofExcept _) fun scope _ => shadows_pure _
  | .functionDeclaration id parameters body, state, excused => by
      simp only [executeBy]
      refine shadows_bind (shadows_ofExcept _) fun name named => ?_
      refine shadows_bind (shadows_ofExcept _) fun _ _ => ?_
      refine shadows_bind (shadows_ofExcept _) fun names written => ?_
      obtain rfl := parameterNames_ok written
      have declared : Value.function (id.name?.getD .null) names body ∈
          (Node.functionDeclaration id (names.map .identifier) body).functions := by
        simp [Node.functions, Node.name?, List.filterMap_map, Function.comp_def]
      refine shadows_bind (noteDefinition_shadows order name names (excused _ declared)) fun _ _ => ?_
      exact shadows_bind (shadows_ofExcept _) fun scope _ => shadows_pure _
  | .assignment target source, state, _ => by
      simp only [executeBy]
      refine shadows_bind (shadows_ofExcept _) fun name _ => ?_
      refine shadows_bind (shadows_ofExcept _) fun _ _ => ?_
      refine shadows_bind (.inl (evaluated _ _)) fun value _ => ?_
      refine shadows_bind (.inl (told_note order _).symm) fun _ _ => ?_
      exact shadows_bind (shadows_ofExcept _) fun scope _ => shadows_pure _
  | .printStatement expression, state, _ => by
      simp only [executeBy]
      refine shadows_bind (.inl (evaluated _ _)) fun value _ => ?_
      exact shadows_bind (.inl (told_note order _).symm) fun _ _ => shadows_pure _
  | .whileStatement test body, state, excused => by
      simp only [executeBy]
      refine shadows_repeatWhile (fun current => ?_) turns state
      unfold loopTurn
      refine shadows_bind (.inl (evaluated _ _)) fun value _ => ?_
      refine shadows_bind (.inl (told_note order _).symm) fun _ _ => ?_
      split
      · refine shadows_bind (executeBodyBy_shadows order evaluated body current excused) fun next _ => ?_
        exact shadows_pure _
      · exact shadows_pure _
  | .block statements, state, excused => by
      simp only [executeBy]
      exact executeAllBy_shadows order evaluated statements state excused
  | .numeral _, _, _ | .booleanLiteral _, _, _ | .identifier _, _, _ | .unaryExpression _ _, _, _
  | .binaryExpression _ _ _, _, _ | .conditionalExpression _ _ _, _, _ | .arrayLiteral _, _, _
  | .subscriptExpression _ _, _, _ | .call _ _, _, _ | .program _, _, _ => by
      simp only [executeBy]
      exact shadows_fail _

theorem executeBodyBy_shadows (order : low ≤ high)
    (evaluated : ∀ scope node, lower scope node = (higher scope node).told low) :
    ∀ (body : Node) (state : State),
      (∀ function ∈ body.functions, ¬function.HasTextParameters → low < 2 → 2 ≤ high → breaks) →
      (executeBodyBy low turns lower body state).Shadows low breaks
        (executeBodyBy high turns higher body state)
  | .block statements, state, excused => by
      simp only [executeBodyBy]
      exact executeAllBy_shadows order evaluated statements state excused
  | .numeral _, _, _ | .booleanLiteral _, _, _ | .identifier _, _, _ | .unaryExpression _ _, _, _
  | .binaryExpression _ _ _, _, _ | .conditionalExpression _ _ _, _, _ | .arrayLiteral _, _, _
  | .subscriptExpression _ _, _, _ | .call _ _, _, _ | .variableDeclaration _ _, _, _
  | .functionDeclaration _ _ _, _, _ | .assignment _ _, _, _ | .printStatement _, _, _
  | .whileStatement _ _, _, _ | .program _, _, _ => by
      simp only [executeBodyBy]
      exact shadows_fail _

theorem executeAllBy_shadows (order : low ≤ high)
    (evaluated : ∀ scope node, lower scope node = (higher scope node).told low) :
    ∀ (statements : List Node) (state : State),
      (∀ function ∈ functionsOfAll statements, ¬function.HasTextParameters →
        low < 2 → 2 ≤ high → breaks) →
      (executeAllBy low turns lower statements state).Shadows low breaks
        (executeAllBy high turns higher statements state)
  | [], state, _ => by
      simp only [executeAllBy]
      exact shadows_pure state
  | statement :: rest, state, excused => by
      simp only [functionsOfAll, List.forall_mem_append] at excused
      simp only [executeAllBy]
      refine shadows_bind (executeBy_shadows order evaluated statement state excused.1) fun next _ => ?_
      exact executeAllBy_shadows order evaluated rest next excused.2

end

end

def Breaks (low high : Nat) (statement : Node) : Prop :=
  low < 2 ∧ 2 ≤ high ∧ ∃ function ∈ statement.functions, ¬function.HasTextParameters

theorem run_shadows {low high : Nat} (order : low ≤ high) (budget : Budget) (program : Node)
    (scope : Scope) :
    (run low budget program scope).Shadows low (Breaks low high program)
      (run high budget program scope) := by
  unfold run runBy
  cases program with
  | program body =>
      cases body with
      | block statements =>
          refine shadows_bind (.inl (told_note order _).symm) fun _ _ => ?_
          refine shadows_bind ?_ fun final _ =>
            shadows_bind (.inl (told_note order _).symm) fun _ _ => shadows_pure _
          refine executeAllBy_shadows order (evaluateIn_told order budget) statements ⟨scope, []⟩ ?_
          exact fun function declared other below above => ⟨below, above, function, declared, other⟩
      | _ => exact shadows_fail _
  | _ => exact shadows_fail _

theorem run_told {low high : Nat} (order : low ≤ high) (budget : Budget) {program : Node}
    (texts : ∀ function ∈ program.functions, function.HasTextParameters) (scope : Scope) :
    run low budget program scope = (run high budget program scope).told low := by
  rcases run_shadows order budget program scope with same | ⟨⟨-, -, function, declared, other⟩, -⟩
  · exact same
  · exact absurd (texts function declared) other

end Bella
