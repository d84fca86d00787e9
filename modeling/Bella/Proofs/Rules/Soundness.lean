import Bella.Proofs.Rules.Parameters
import Bella.Proofs.Rules.Primitive
import Bella.Proofs.Shape

/-! Whatever a run ends with, the rules derive. No budget is asked for: a run that stops because
its budget is spent has no outcome, and neither has one that stops at a misplaced node. -/

namespace Bella

open Traced

variable {α β : Type}

def Traced.Follows (run : Traced α) (rules : Outcome α → Prop) : Prop :=
  run.Ensures (fun value => rules (.ok value))
    fun fault => ∀ misuse, fault = .misuse misuse → rules (.error misuse)

variable {rules : Outcome α → Prop}

theorem follows_pure {value : α} (allowed : rules (.ok value)) :
    (pure value : Traced α).Follows rules :=
  ensures_pure allowed

theorem excused_misuse {misuse : Misuse} (allowed : rules (.error misuse)) (other : Misuse)
    (same : Fault.misuse misuse = .misuse other) : rules (.error other) := by
  cases same
  exact allowed

theorem follows_misuse {misuse : Misuse} (allowed : rules (.error misuse)) :
    (fail (.misuse misuse) : Traced α).Follows rules :=
  ensures_fail (excused_misuse allowed)

theorem follows_fail {fault : Fault} (noMisuse : ∀ misuse, fault ≠ .misuse misuse) :
    (fail fault : Traced α).Follows rules :=
  ensures_fail fun misuse same => absurd same (noMisuse misuse)

theorem follows_note {level : Nat} {event : Event} {next : Unit → Traced α}
    (after : (next ()).Follows rules) : (note level event >>= next).Follows rules :=
  ensures_note after

theorem follows_bind {first : Traced α} {next : α → Traced β} {earlier : Outcome α → Prop}
    {rules : Outcome β → Prop} (before : first.Follows earlier)
    (fails : ∀ misuse, earlier (.error misuse) → rules (.error misuse))
    (goes : ∀ value, earlier (.ok value) → (next value).Follows rules) :
    (first >>= next).Follows rules :=
  ensures_bind
    (ensures_mono before (fun _ allowed => allowed)
      fun _ excuse misuse same => fails misuse (excuse misuse same))
    goes

theorem follows_ofOutcome {result : Except Fault α} {outcome : Outcome α}
    (known : result = outcome.result) (allowed : rules outcome) :
    (ofExcept result).Follows rules := by
  subst known
  cases outcome with
  | ok value => exact follows_pure allowed
  | error misuse => exact follows_misuse allowed

theorem follows_known {result : Except Fault α} {value : α} {next : α → Traced β}
    {rules : Outcome β → Prop} (known : result = .ok value) (after : (next value).Follows rules) :
    (Traced.ofExcept result >>= next).Follows rules :=
  ensures_known known after

theorem follows_iff {run : Traced α} :
    run.Follows rules ↔ ∀ outcome : Outcome α, run.result = outcome.result → rules outcome := by
  unfold Follows
  rw [ensures_iff]
  constructor
  · rintro ⟨values, faults⟩ outcome ended
    cases outcome with
    | ok value => exact values value ended
    | error misuse => exact faults _ ended misuse rfl
  · intro allowed
    refine ⟨fun value ended => allowed (.ok value) ended, fun fault ended misuse same => ?_⟩
    subst same
    exact allowed (.error misuse) ended

theorem follows_unnamed {result : Except Fault α} (unusable : result = .error .unusableName) :
    (ofExcept result).Follows rules := by
  rw [unusable]
  exact follows_fail fun misuse same => by cases same

theorem get_follows (scope : Scope) (name : Datum) :
    (ofExcept (scope.get name)).Follows (Evaluates scope (.identifier name)) := by
  cases named : name.key? with
  | none => exact follows_unnamed (Scope.get_unnamed named)
  | some key =>
      cases found : scope.find? key with
      | none =>
          rw [Scope.get_unbound named found]
          exact follows_misuse (.unboundIdentifier named found)
      | some value =>
          rw [Scope.get_bound named found]
          exact follows_pure (.identifier named found)

theorem withinRange_noMisuse {number : Number} {fault : Fault}
    (refused : withinRange number = .error fault) (misuse : Misuse) : fault ≠ .misuse misuse := by
  cases number with
  | infinite negative =>
      rw [← Except.error.inj refused]
      nofun
  | _ => exact nomatch refused

theorem numeralValue_noMisuse {datum : Datum} {fault : Fault}
    (refused : numeralValue datum = .error fault) (misuse : Misuse) : fault ≠ .misuse misuse := by
  cases datum with
  | integer value => exact withinRange_noMisuse refused misuse
  | text value =>
      rw [numeralValue] at refused
      split at refused
      · exact nomatch refused
      · rw [← Except.error.inj refused]
        nofun
  | null | list | object =>
      rw [← Except.error.inj refused]
      nofun
  | _ => exact nomatch refused

theorem numeral_follows (scope : Scope) (datum : Datum) :
    (Traced.ofExcept ((numeralValue datum).map Value.number)).Follows
      (Evaluates scope (.numeral datum)) := by
  cases read : numeralValue datum with
  | ok number => exact follows_pure (.numeral read)
  | error fault => exact follows_fail (numeralValue_noMisuse read)

mutual

theorem evaluate_follows {apply : Application}
    (applied : ∀ function arguments scope,
      (apply function arguments scope).Follows (Applies function arguments scope))
    (scope : Scope) : ∀ node, (evaluate apply scope node).Follows (Evaluates scope node)
  | .numeral datum => by
      rw [evaluate]
      exact numeral_follows scope datum
  | .booleanLiteral truth => by
      rw [evaluate]
      exact follows_pure (.booleanLiteral truth)
  | .identifier name => by
      rw [evaluate]
      exact get_follows scope name
  | .unaryExpression operator expression => by
      rw [evaluate]
      refine follows_bind (evaluate_follows applied scope expression)
        (fun _ failed => .operandFails failed) fun operand evaluated => ?_
      obtain ⟨outcome, rule⟩ := unaryRule_total operator operand
      exact follows_ofOutcome (unaryResult_of_rule rule) (.unary evaluated rule)
  | .binaryExpression operator left right => by
      rw [evaluate]
      refine follows_bind (evaluate_follows applied scope left)
        (fun _ failed => .leftFails failed) fun leftValue first => ?_
      refine follows_bind (evaluate_follows applied scope right)
        (fun _ failed => .rightFails first failed) fun rightValue second => ?_
      obtain ⟨outcome, rule⟩ := binaryRule_total operator leftValue rightValue
      exact follows_ofOutcome (binaryResult_of_rule rule) (.binary first second rule)
  | .conditionalExpression test consequent alternate => by
      rw [evaluate]
      refine follows_bind (evaluate_follows applied scope test)
        (fun _ failed => .testFails failed) fun value tested => ?_
      split
      · refine ensures_mono (evaluate_follows applied scope consequent)
          (fun _ branch => .consequent tested branch)
          fun _ branch misuse same => .consequent tested (branch misuse same)
      · refine ensures_mono (evaluate_follows applied scope alternate)
          (fun _ branch => .alternate tested branch)
          fun _ branch misuse same => .alternate tested (branch misuse same)
      · rename_i noTrue noFalse
        refine follows_misuse (.testMismatch tested fun boolean => ?_)
        obtain ⟨truth, rfl⟩ := Value.kind_eq_boolean.mp boolean
        cases truth with
        | true => exact noTrue rfl
        | false => exact noFalse rfl
  | .arrayLiteral elements => by
      rw [evaluate]
      exact follows_bind (evaluateAll_follows applied scope elements)
        (fun _ failed => .elementFails failed)
        fun _ evaluated => follows_pure (.arrayLiteral evaluated)
  | .subscriptExpression array subscript => by
      rw [evaluate]
      refine follows_bind (evaluate_follows applied scope array)
        (fun _ failed => .arrayFails failed) fun arrayValue first => ?_
      refine follows_bind (evaluate_follows applied scope subscript)
        (fun _ failed => .subscriptFails first failed) fun subscriptValue second => ?_
      obtain ⟨outcome, rule⟩ := subscriptRule_total arrayValue subscriptValue
      exact follows_ofOutcome (subscriptResult_of_rule rule) (.subscript first second rule)
  | .call callee arguments => by
      rw [evaluate]
      split
      · exact follows_fail fun misuse same => by cases same
      · rename_i name known
        obtain rfl := Node.name?_eq_some known
        cases named : name.key? with
        | none =>
            rw [Scope.keyOf_unnamed named]
            exact follows_fail fun misuse same => by cases same
        | some key =>
            refine follows_known (Scope.keyOf_named named) ?_
            refine follows_bind (evaluateAll_follows applied scope arguments)
              (fun _ failed => .argumentFails named failed) fun values evaluated => ?_
            cases found : scope.find? key with
            | none => exact follows_misuse (.unboundCallee named evaluated found)
            | some function =>
                exact ensures_mono (applied function values scope)
                  (fun _ ended => .call named evaluated found ended)
                  fun _ ended misuse same => .call named evaluated found (ended misuse same)
  | .variableDeclaration _ _ | .functionDeclaration _ _ _ | .assignment _ _ | .printStatement _
  | .whileStatement _ _ | .block _ | .program _ => by
      simp only [evaluate]
      exact follows_fail fun misuse same => by cases same

theorem evaluateAll_follows {apply : Application}
    (applied : ∀ function arguments scope,
      (apply function arguments scope).Follows (Applies function arguments scope))
    (scope : Scope) : ∀ nodes, (evaluateAll apply scope nodes).Follows (EvaluatesAll scope nodes)
  | [] => by
      rw [evaluateAll]
      exact follows_pure .nil
  | node :: rest => by
      rw [evaluateAll]
      refine follows_bind (evaluate_follows applied scope node)
        (fun _ failed => .firstFails failed) fun value first => ?_
      exact follows_bind (evaluateAll_follows applied scope rest)
        (fun _ failed => .restFails first failed)
        fun values others => follows_pure (.cons first others)

end

theorem checkArity_follows {callee : Datum} {expected given : Nat} {next : Unit → Traced α}
    (mismatch : given ≠ expected → rules (.error (.wrongArity callee expected given)))
    (after : given = expected → (next ()).Follows rules) :
    (Traced.ofExcept (checkArity callee expected given) >>= next).Follows rules :=
  checkArity_ensures (fun differ => excused_misuse (mismatch differ)) after

/-- No depth is too small to follow the rules: a call that is nested too deep has no outcome. -/
theorem applyFunction_follows (level depth : Nat) (function : Value) (arguments : List Value)
    (scope : Scope) :
    (applyFunction level depth function arguments scope).Follows
      (Applies function arguments scope) := by
  induction depth using Nat.strongRecOn generalizing function arguments scope with
  | ind depth ih =>
      cases function with
      | builtin builtin =>
          rw [applyFunction]
          refine checkArity_follows (fun mismatch => .builtinArity mismatch) fun arity => ?_
          refine follows_note ?_
          rcases numbers_or_mismatch arguments with
            ⟨numbers, rfl⟩ | ⟨numbers, other, rest, mismatch, rfl⟩
          · obtain ⟨result, rule⟩ := builtinRule_total builtin (by simpa using arity)
            simp only [builtinResult, numbersOf_numbers, ok_bind, compute_of_rule rule]
            exact follows_pure (.builtin rule)
          · simp only [builtinResult, numbersOf_mismatch _ _ _ mismatch, error_bind]
            exact follows_misuse (.builtinMismatch arity mismatch)
      | function name parameters body =>
          rw [applyFunction]
          refine checkArity_follows (fun mismatch => .functionArity mismatch) fun arity => ?_
          refine follows_note ?_
          rcases bindParameters_cases arity with ⟨keys, named⟩ | refused
          · refine follows_known (bindParameters_named arity named) ?_
            cases depth with
            | zero => exact follows_fail fun misuse same => by cases same
            | succ depth =>
                have called := evaluate_follows (ih depth (Nat.lt_succ_self depth))
                  (scope.extend (keys.zip arguments)) body
                exact ensures_mono called (fun _ evaluated => .function arity named evaluated)
                  fun _ evaluated misuse same => .function arity named (evaluated misuse same)
          · rw [refused]
            exact follows_fail fun misuse same => by cases same
      | number | boolean | array | foreign =>
          rw [applyFunction]
          · exact follows_misuse (.notCallable rfl)
          · simp
          · simp

theorem evaluateIn_follows (level : Nat) (budget : Budget) (scope : Scope) (node : Node) :
    (evaluateIn level budget scope node).Follows (Evaluates scope node) :=
  evaluate_follows (applyFunction_follows level budget.depth) scope node

section

variable {level turns : Nat} {evaluator : Evaluator}

theorem mayDeclare_follows {scope : Scope} {name : Datum} {key : Key} {next : Unit → Traced α}
    (named : name.key? = some key)
    (bound : ∀ value, scope.find? key = some value → rules (.error (.alreadyDeclared name)))
    (after : scope.find? key = none → (next ()).Follows rules) :
    (Traced.ofExcept (scope.mayDeclare name) >>= next).Follows rules :=
  mayDeclare_ensures named (fun value found => excused_misuse (bound value found)) after

theorem executeAllBy_follows {statements : List Node}
    (each : ∀ statement ∈ statements, ∀ state,
      (executeBy level turns evaluator statement state).Follows (Executes statement state))
    (state : State) :
    (executeAllBy level turns evaluator statements state).Follows
      (ExecutesAll statements state) := by
  induction statements generalizing state with
  | nil =>
      rw [executeAllBy]
      exact follows_pure .nil
  | cons statement rest ih =>
      rw [executeAllBy]
      rw [List.forall_mem_cons] at each
      refine follows_bind (each.1 state) (fun _ failed => .firstFails failed) fun next first => ?_
      exact ensures_mono (ih each.2 next) (fun _ others => .cons first others)
        fun _ others misuse same => .cons first (others misuse same)

theorem loop_follows {test : Node} {statements : List Node}
    (evaluated : ∀ scope node, (evaluator scope node).Follows (Evaluates scope node))
    (body : ∀ state, (executeAllBy level turns evaluator statements state).Follows
      (ExecutesAll statements state))
    (state : State) :
    (executeBy level turns evaluator (.whileStatement test (.block statements)) state).Follows
      (Repeats test statements state) := by
  rw [executeBy]
  refine ensures_repeatWhile
    (fun current => ∀ outcome, Repeats test statements current outcome →
      Repeats test statements state outcome)
    turns (fun misuse same => by cases same) (fun _ same => same) fun current earlier => ?_
  unfold loopTurn
  refine ensures_bind
    (ensures_mono (evaluated current.scope test) (fun _ tested => tested)
      fun _ failed misuse same => earlier _ (.testFails (failed misuse same)))
    fun value tested => ensures_note ?_
  split
  · rw [executeBodyBy]
    refine ensures_bind
      (ensures_mono (body current) (fun _ taken => taken)
        fun _ failed misuse same => earlier _ (.bodyFails tested (failed misuse same)))
      fun next taken => ensures_pure ?_
    exact fun outcome again => earlier outcome (.turns tested taken again)
  · rename_i untrue
    exact ensures_pure (earlier _ (.stops tested fun same => untrue same))

theorem declaration_follows {name : Datum} {key : Key} {parameters : List Text} {body : Node}
    {state : State} (named : name.key? = some key) :
    (executeBy level turns evaluator
      (.functionDeclaration (.identifier name) (parameters.map parameterNode) body) state).Follows
      (Executes (.functionDeclaration (.identifier name) (parameters.map parameterNode) body)
        state) := by
  rw [executeBy]
  refine follows_known rfl ?_
  refine mayDeclare_follows named (fun value found => .duplicateFunction named found)
    fun fresh => ?_
  rcases nodup_or_repeated parameters with
    distinct | ⟨earlier, repeated, later, rfl, distinct, again⟩
  · refine follows_known (parameterNames_fresh name (fresh_of_nodup distinct)) ?_
    have noted : (noteDefinition level name (parameters.map .text)).Follows
        fun outcome => outcome = .ok () := by
      unfold Traced.Follows Traced.Ensures
      rw [noteDefinition_result]
    refine follows_bind noted (fun misuse refused => by cases refused) fun _ _ => ?_
    refine follows_known (Scope.declare_fresh _ named fresh) ?_
    exact follows_pure (.function named fresh distinct)
  · rw [parameterNames_repeated name later (fresh_of_nodup distinct) (.inr again)]
    exact follows_misuse (.repeatedParameter named fresh distinct again)

theorem executeBy_follows {vocabulary : Vocabulary} {statement : Node}
    (evaluated : ∀ scope node, (evaluator scope node).Follows (Evaluates scope node))
    (shaped : statement.IsStatement vocabulary) (state : State) :
    (executeBy level turns evaluator statement state).Follows (Executes statement state) := by
  induction shaped generalizing state with
  | variableDeclaration named _ =>
      rw [executeBy]
      refine follows_known rfl ?_
      refine mayDeclare_follows named (fun value found => .duplicateVariable named found)
        fun fresh => ?_
      refine follows_bind (evaluated state.scope _)
        (fun _ failed => .initializerFails named fresh failed) fun value initial => ?_
      refine follows_note (follows_known (Scope.declare_fresh value named fresh) ?_)
      exact follows_pure (.variable named fresh initial)
  | functionDeclaration parameters named _ => exact declaration_follows named
  | @assignment name key source named _ =>
      rw [executeBy]
      refine follows_known rfl ?_
      cases found : state.scope.find? key with
      | none =>
          rw [Scope.mayAssign_unbound named found]
          exact follows_misuse (.unboundTarget named found)
      | some old =>
          cases function : old.isFunction with
          | true =>
              rw [Scope.mayAssign_function named found function]
              exact follows_misuse (.functionTarget named found function)
          | false =>
              by_cases constant : key ∈ state.scope.constants
              · rw [Scope.mayAssign_constant named found function constant]
                exact follows_misuse (.constantTarget named found function constant)
              · have assignable : state.scope.Assignable key := ⟨old, found, function, constant⟩
                refine follows_known (Scope.mayAssign_assignable named assignable) ?_
                refine follows_bind (evaluated state.scope source)
                  (fun _ failed => .sourceFails named assignable failed) fun value assigned => ?_
                refine follows_note (follows_known (Scope.assign_assignable value named assignable) ?_)
                exact follows_pure (.assignment named assignable assigned)
  | printStatement _ =>
      rw [executeBy]
      refine follows_bind (evaluated state.scope _) (fun _ failed => .printedFails failed)
        fun value printed => follows_note ?_
      exact follows_pure (.printStatement printed)
  | whileStatement _ _ each =>
      refine ensures_mono (loop_follows evaluated (executeAllBy_follows each) state)
        (fun _ repeated => .whileStatement repeated)
        fun _ repeated misuse same => .whileStatement (repeated misuse same)
  | block _ each =>
      rw [executeBy]
      exact ensures_mono (executeAllBy_follows each state) (fun _ executed => .block executed)
        fun _ executed misuse same => .block (executed misuse same)

end

section

variable {vocabulary : Vocabulary} (level : Nat) (budget : Budget)

theorem execute_follows {statement : Node} (shaped : statement.IsStatement vocabulary)
    (state : State) :
    (execute level budget statement state).Follows (Executes statement state) :=
  executeBy_follows (evaluateIn_follows level budget) shaped state

theorem executeAll_follows {statements : List Node}
    (each : ∀ statement ∈ statements, statement.IsStatement vocabulary) (state : State) :
    (executeAll level budget statements state).Follows (ExecutesAll statements state) :=
  executeAllBy_follows (fun statement member => execute_follows level budget (each statement member))
    state

end

end Bella
