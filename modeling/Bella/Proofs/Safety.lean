import Bella.Proofs.Rules.Parameters
import Bella.Proofs.Rules.Primitive
import Bella.Proofs.Shape

/-! Trees of the language never go wrong: in a scope whose functions are of the language they end
with a value or a misuse, or spend their budget, and every function that they make or keep is of
the language again. -/

namespace Bella

open Traced

def Fault.Exhausted : Fault → Prop
  | .recursionTooDeep | .loopTooLong => True
  | _ => False

namespace Vocabulary

variable (vocabulary : Vocabulary)

def Excuses : Fault → Prop
  | .misuse cause => vocabulary.Allows cause
  | fault => fault.Exhausted

def Admits (_name : Datum) (parameters : List Datum) (body : Node) : Prop :=
  (∃ keys : List Key, parameters.map Datum.key? = keys.map some) ∧
    body.IsExpression vocabulary

end Vocabulary

section

variable {α : Type} {vocabulary : Vocabulary} {holds : Datum → List Datum → Node → Prop}

def Outcome.Ensures (outcome : Outcome α) (holding : α → Prop) (allowed : Misuse → Prop) :
    Prop :=
  match outcome with
  | .ok value => holding value
  | .error misuse => allowed misuse

theorem ensures_ofOutcome {result : Except Fault α} {outcome : Outcome α} {holding : α → Prop}
    (known : result = outcome.result) (sound : outcome.Ensures holding vocabulary.Allows) :
    (Traced.ofExcept result).Ensures holding vocabulary.Excuses := by
  subst known
  cases outcome with
  | ok value => exact ensures_pure sound
  | error misuse => exact ensures_fail sound

theorem UnaryRule.ensures {operator : Datum} {operand : Value} {outcome : Outcome Value}
    (rule : UnaryRule operator operand outcome) (listed : vocabulary.unary operator) :
    outcome.Ensures (Value.Every holds) vocabulary.Allows := by
  cases rule with
  | negate number => exact .number _
  | invert truth => exact .boolean _
  | negateMismatch mismatch | invertMismatch mismatch => trivial
  | unknown noMinus noBang =>
      refine ⟨listed, fun symbol member => ?_⟩
      simp only [unaryOperators, List.mem_cons, List.not_mem_nil, or_false] at member
      rcases member with rfl | rfl
      · exact noMinus
      · exact noBang

theorem NumberRule.ensures {symbol : String} {left right : Number} {outcome : Outcome Value}
    (rule : NumberRule symbol left right outcome) :
    outcome.Ensures (Value.Every holds) vocabulary.Allows := by
  cases rule with
  | divideByZero zero => trivial
  | greater | less | greaterOrEqual | lessOrEqual | equal | notEqual => exact .boolean _
  | _ => exact .number _

theorem BinaryRule.ensures {operator : Datum} {left right : Value} {outcome : Outcome Value}
    (rule : BinaryRule operator left right outcome) (listed : vocabulary.binary operator) :
    outcome.Ensures (Value.Every holds) vocabulary.Allows := by
  cases rule with
  | numbers rule => exact rule.ensures
  | conjunction | disjunction => exact .boolean _
  | numericMismatch | booleanMismatch => trivial
  | unknown nowhere => exact ⟨listed, nowhere⟩

theorem SubscriptRule.ensures {array subscript : Value} {outcome : Outcome Value}
    (rule : SubscriptRule array subscript outcome) (sound : array.Every holds) :
    outcome.Ensures (Value.Every holds) vocabulary.Allows := by
  cases rule with
  | item whole found =>
      cases sound with
      | array each => exact each _ (List.mem_of_getElem? found)
  | outOfBounds | subscriptMismatch | arrayMismatch => trivial

end

section

variable {vocabulary : Vocabulary}

theorem builtinResult_ensures {holds : Datum → List Datum → Node → Prop} {builtin : Builtin}
    {arguments : List Value} (arity : arguments.length = builtin.arity) :
    (Traced.ofExcept (builtinResult builtin arguments)).Ensures (Value.Every holds)
      vocabulary.Excuses := by
  rcases numbers_or_mismatch arguments with
    ⟨numbers, rfl⟩ | ⟨numbers, other, rest, mismatch, rfl⟩
  · obtain ⟨result, rule⟩ := builtinRule_total builtin (by simpa using arity)
    simp only [builtinResult, numbersOf_numbers, ok_bind, compute_of_rule rule, hostNumber_ok]
    exact ensures_pure (.number result)
  · simp only [builtinResult, numbersOf_mismatch _ _ _ mismatch, error_bind]
    exact ensures_fail trivial

theorem evaluateAll_ensures {apply : Application} {scope : Scope} {nodes : List Node}
    {holding : Value → Prop} {excused : Fault → Prop}
    (each : ∀ node ∈ nodes, (evaluate apply scope node).Ensures holding excused) :
    (evaluateAll apply scope nodes).Ensures (fun values => ∀ value ∈ values, holding value)
      excused := by
  induction nodes with
  | nil =>
      rw [evaluateAll]
      exact ensures_pure (by simp)
  | cons node rest ih =>
      rw [evaluateAll]
      rw [List.forall_mem_cons] at each
      refine ensures_bind each.1 fun value sound => ensures_bind (ih each.2) fun values others => ?_
      exact ensures_pure (List.forall_mem_cons.mpr ⟨sound, others⟩)

/-- An application is sound in a scope if it ends well whenever its parts are sound. -/
def SoundIn (vocabulary : Vocabulary) (scope : Scope) (apply : Application) : Prop :=
  ∀ function arguments, function.Every vocabulary.Admits →
    (∀ argument ∈ arguments, argument.Every vocabulary.Admits) →
    (apply function arguments scope).Ensures (Value.Every vocabulary.Admits) vocabulary.Excuses

theorem get_ensures {scope : Scope} {name : Datum} {key : Key} (named : name.key? = some key)
    (sound : scope.EveryAt Set.univ vocabulary.Admits) :
    (Traced.ofExcept (scope.get name)).Ensures (Value.Every vocabulary.Admits)
      vocabulary.Excuses := by
  cases found : scope.find? key with
  | none =>
      rw [Scope.get_unbound named found]
      exact ensures_fail trivial
  | some value =>
      rw [Scope.get_bound named found]
      exact ensures_pure (sound key trivial value found)

theorem evaluate_ensures {apply : Application} {scope : Scope} {node : Node}
    (applied : SoundIn vocabulary scope apply)
    (sound : scope.EveryAt Set.univ vocabulary.Admits)
    (shaped : node.IsExpression vocabulary) :
    (evaluate apply scope node).Ensures (Value.Every vocabulary.Admits) vocabulary.Excuses := by
  induction shaped with
  | @numeral datum number read =>
      simp only [evaluate, read]
      exact ensures_pure (.number number)
  | booleanLiteral truth =>
      rw [evaluate]
      exact ensures_pure (.boolean truth)
  | identifier named =>
      rw [evaluate]
      exact get_ensures named sound
  | @unaryExpression operator expression listed _ ih =>
      rw [evaluate]
      refine ensures_bind ih fun operand _ => ?_
      obtain ⟨outcome, rule⟩ := unaryRule_total operator operand
      exact ensures_ofOutcome (unaryResult_of_rule rule) (rule.ensures listed)
  | @binaryExpression operator left right listed _ _ first second =>
      rw [evaluate]
      refine ensures_bind first fun leftValue _ => ensures_bind second fun rightValue _ => ?_
      obtain ⟨outcome, rule⟩ := binaryRule_total operator leftValue rightValue
      exact ensures_ofOutcome (binaryResult_of_rule rule) (rule.ensures listed)
  | conditionalExpression _ _ _ tested positive negative =>
      rw [evaluate]
      refine ensures_bind tested fun value _ => ?_
      split
      · exact positive
      · exact negative
      · exact ensures_fail trivial
  | arrayLiteral _ each =>
      rw [evaluate]
      exact ensures_bind (evaluateAll_ensures each) fun items sound =>
        ensures_pure (.array sound)
  | subscriptExpression _ _ first second =>
      rw [evaluate]
      refine ensures_bind first fun array sound => ensures_bind second fun subscript _ => ?_
      obtain ⟨outcome, rule⟩ := subscriptRule_total array subscript
      exact ensures_ofOutcome (subscriptResult_of_rule rule) (rule.ensures sound)
  | @call name key arguments named _ each =>
      simp only [evaluate, Node.name?]
      refine ensures_known (Scope.keyOf_named named) ?_
      refine ensures_bind (evaluateAll_ensures each) fun values others => ?_
      cases found : scope.find? key with
      | none => exact ensures_fail trivial
      | some function => exact applied function values (sound key trivial function found) others

theorem extend_every {scope : Scope} {bindings : List (Key × Value)} {names : Set Key}
    {holds : Datum → List Datum → Node → Prop} (sound : scope.EveryAt names holds)
    (bound : ∀ binding ∈ bindings, binding.2.Every holds) :
    (scope.extend bindings).EveryAt names holds := by
  intro key member value found
  rcases Scope.find?_extend_cases found with new | old
  · exact bound (key, value) new
  · exact sound key member value old

theorem bind_every {scope : Scope} {key : Key} {value : Value} {names : Set Key}
    {holds : Datum → List Datum → Node → Prop} (sound : scope.EveryAt names holds)
    (bound : value.Every holds) : (scope.bind key value).EveryAt names holds := by
  intro other member found same
  rw [Scope.find?_bind] at same
  by_cases equal : key = other
  · rw [if_pos equal] at same
    exact Option.some.inj same ▸ bound
  · rw [if_neg equal] at same
    exact sound other member found same

theorem initial_every (names : Set Key) (holds : Datum → List Datum → Node → Prop) :
    Scope.initial.EveryAt names holds := by
  have empty : (Scope.mk [] (Scope.builtinBindings.map fun binding => .text binding.1)).EveryAt
      names holds := fun key _ value found => by cases found
  refine extend_every empty fun binding member => ?_
  obtain ⟨original, listed, rfl⟩ := List.mem_map.mp member
  rcases List.mem_cons.mp listed with rfl | listed
  · exact .number Number.pi
  · obtain ⟨builtin, -, rfl⟩ := List.mem_map.mp listed
    exact .builtin builtin

theorem applyFunction_ensures (level depth : Nat) {scope : Scope}
    (sound : scope.EveryAt Set.univ vocabulary.Admits) :
    SoundIn vocabulary scope (applyFunction level depth) := by
  intro function arguments admitted each
  induction depth using Nat.strongRecOn generalizing function arguments scope with
  | ind depth ih =>
      cases admitted with
      | builtin builtin =>
          rw [applyFunction]
          refine checkArity_ensures (fun _ => trivial) fun arity => ensures_note ?_
          exact builtinResult_ensures arity
      | @function name parameters body holding =>
          obtain ⟨⟨keys, named⟩, shaped⟩ := holding
          rw [applyFunction]
          refine checkArity_ensures (fun _ => trivial) fun arity => ensures_note ?_
          refine ensures_known (bindParameters_named arity named) ?_
          cases depth with
          | zero => exact ensures_fail trivial
          | succ depth =>
              have inner : (scope.extend (keys.zip arguments)).EveryAt Set.univ
                  vocabulary.Admits :=
                extend_every sound fun binding member => each _ (List.of_mem_zip member).2
              exact evaluate_ensures (ih depth (Nat.lt_succ_self depth) inner) inner shaped
      | number | boolean | array | foreign =>
          rw [applyFunction]
          · exact ensures_fail trivial
          · simp
          · simp

theorem evaluateIn_ensures (level : Nat) (budget : Budget) {scope : Scope} {node : Node}
    (sound : scope.EveryAt Set.univ vocabulary.Admits)
    (shaped : node.IsExpression vocabulary) :
    (evaluateIn level budget scope node).Ensures (Value.Every vocabulary.Admits)
      vocabulary.Excuses :=
  evaluate_ensures (applyFunction_ensures level budget.depth sound) sound shaped

end

section

variable {vocabulary : Vocabulary} {level turns : Nat} {evaluator : Evaluator}

theorem mayAssign_ensures {α : Type} {holding : α → Prop} {scope : Scope} {name : Datum}
    {key : Key} {next : Unit → Traced α} (named : name.key? = some key)
    (after : scope.Assignable key → (next ()).Ensures holding vocabulary.Excuses) :
    (Traced.ofExcept (scope.mayAssign name) >>= next).Ensures holding vocabulary.Excuses := by
  rcases scope.mayAssign_cases named with ⟨assignable, allowed⟩ | ⟨misuse, listed, refused⟩
  · exact ensures_known allowed (after assignable)
  · rw [refused]
    simp only [List.mem_cons, List.not_mem_nil, or_false] at listed
    rcases listed with rfl | rfl | rfl <;> exact ensures_fail trivial

theorem executeAllBy_ensures {statements : List Node} {sound : State → Prop}
    {excused : Fault → Prop}
    (each : ∀ statement ∈ statements, ∀ state, sound state →
      (executeBy level turns evaluator statement state).Ensures sound excused)
    {state : State} (initially : sound state) :
    (executeAllBy level turns evaluator statements state).Ensures sound excused := by
  induction statements generalizing state with
  | nil =>
      rw [executeAllBy]
      exact ensures_pure initially
  | cons statement rest ih =>
      rw [executeAllBy]
      rw [List.forall_mem_cons] at each
      exact ensures_bind (each.1 state initially) fun next preserved => ih each.2 preserved

def State.Sound (vocabulary : Vocabulary) (state : State) : Prop :=
  state.scope.EveryAt Set.univ vocabulary.Admits

theorem executeBy_ensures {statement : Node}
    (evaluated : ∀ scope node, scope.EveryAt Set.univ vocabulary.Admits →
      node.IsExpression vocabulary →
      (evaluator scope node).Ensures (Value.Every vocabulary.Admits) vocabulary.Excuses)
    (shaped : statement.IsStatement vocabulary) {state : State}
    (sound : state.Sound vocabulary) :
    (executeBy level turns evaluator statement state).Ensures (State.Sound vocabulary)
      vocabulary.Excuses := by
  induction shaped generalizing state with
  | variableDeclaration named initial =>
      rw [executeBy]
      refine ensures_known rfl (mayDeclare_ensures named (fun _ _ => trivial) fun fresh => ?_)
      refine ensures_bind (evaluated state.scope _ sound initial) fun value holding => ?_
      refine ensures_note (ensures_known (Scope.declare_fresh value named fresh) ?_)
      exact ensures_pure (bind_every sound holding)
  | @functionDeclaration name key parameters body named result =>
      rw [executeBy]
      refine ensures_known rfl (mayDeclare_ensures named (fun _ _ => trivial) fun fresh => ?_)
      rcases nodup_or_repeated parameters with
        distinct | ⟨earlier, repeated, later, rfl, distinct, again⟩
      · refine ensures_known (parameterNames_fresh name (fresh_of_nodup distinct)) ?_
        have noted : (noteDefinition level name (parameters.map .text)).Ensures (fun _ => True)
            vocabulary.Excuses := by
          unfold Traced.Ensures
          rw [noteDefinition_result]
          trivial
        refine ensures_bind noted fun _ _ => ?_
        refine ensures_known (Scope.declare_fresh _ named fresh) ?_
        refine ensures_pure (bind_every sound (.function ⟨⟨parameters.map .text, ?_⟩, result⟩))
        simp [Datum.key?]
      · rw [parameterNames_repeated name later (fresh_of_nodup distinct) (.inr again)]
        exact ensures_fail trivial
  | @assignment name key source named assigned =>
      rw [executeBy]
      refine ensures_known rfl ?_
      refine mayAssign_ensures named fun assignable => ?_
      refine ensures_bind (evaluated state.scope source sound assigned) fun value holding => ?_
      refine ensures_note (ensures_known (Scope.assign_assignable value named assignable) ?_)
      exact ensures_pure (bind_every sound holding)
  | printStatement printed =>
      rw [executeBy]
      refine ensures_bind (evaluated state.scope _ sound printed) fun value _ => ensures_note ?_
      exact ensures_pure sound
  | whileStatement tested _ each =>
      rw [executeBy]
      refine ensures_repeatWhile (State.Sound vocabulary) turns trivial sound
        fun current preserved => ?_
      unfold loopTurn
      refine ensures_bind (evaluated current.scope _ preserved tested)
        fun value _ => ensures_note ?_
      split
      · rw [executeBodyBy]
        refine ensures_bind (executeAllBy_ensures (fun one member _ => each one member) preserved)
          fun next later => ensures_pure later
      · exact ensures_pure preserved
  | block _ each =>
      rw [executeBy]
      exact executeAllBy_ensures (fun one member _ => each one member) sound

end

section

variable {vocabulary : Vocabulary} (level : Nat) (budget : Budget) {state : State}

theorem execute_ensures {statement : Node} (shaped : statement.IsStatement vocabulary)
    (sound : state.Sound vocabulary) :
    (execute level budget statement state).Ensures (State.Sound vocabulary) vocabulary.Excuses :=
  executeBy_ensures (fun _ _ inner expression => evaluateIn_ensures level budget inner expression)
    shaped sound

theorem executeAll_ensures {statements : List Node}
    (each : ∀ statement ∈ statements, statement.IsStatement vocabulary)
    (sound : state.Sound vocabulary) :
    (executeAll level budget statements state).Ensures (State.Sound vocabulary)
      vocabulary.Excuses :=
  executeAllBy_ensures
    (fun statement member _ preserved => execute_ensures level budget (each statement member) preserved)
    sound

end

end Bella
