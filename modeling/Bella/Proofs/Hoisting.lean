import Bella.Proofs.Locality
import Bella.Proofs.Sequence
import Bella.Proofs.Store
import Bella.Proofs.Success

/-! What a further binding changes. What succeeds has found every name that it looked up, so it does the
same in a scope that binds more. Main statement: a function may be declared earlier in a program that
succeeds, and a statement may be executed beside a name that it does not declare. -/

namespace Bella

open Traced

def Scope.Within (one other : Scope) : Prop :=
  ∀ key value, one.find? key = some value → other.find? key = some value

theorem Scope.Within.extend {one other : Scope} (within : one.Within other)
    (bindings : List (Key × Value)) : (one.extend bindings).Within (other.extend bindings) := by
  intro key value found
  rw [Scope.find?_extend, Option.or_eq_some_iff] at found
  rw [Scope.find?_extend, Option.or_eq_some_iff]
  rcases found with own | ⟨absent, outer⟩
  · exact .inl own
  · exact .inr ⟨absent, within key value outer⟩

theorem Scope.get_within {one other : Scope} (within : one.Within other) {name : Datum}
    {value : Value} (found : one.get name = .ok value) : other.get name = .ok value := by
  obtain ⟨key, keyed, bound⟩ := Scope.get_ok_iff.mp found
  exact Scope.get_ok_iff.mpr ⟨key, keyed, within key value bound⟩

section

variable {apply : Application} {one other : Scope}

mutual

theorem evaluate_within (within : one.Within other)
    (applies : ∀ function arguments value, (apply function arguments one).result = .ok value →
      (apply function arguments other).result = .ok value) :
    ∀ (node : Node) (value : Value), (evaluate apply one node).result = .ok value →
      (evaluate apply other node).result = .ok value
  | .numeral _, _, evaluated | .booleanLiteral _, _, evaluated => by
      rw [evaluate] at evaluated ⊢
      exact evaluated
  | .identifier name, value, evaluated => by
      rw [evaluate] at evaluated ⊢
      exact Scope.get_within within evaluated
  | .unaryExpression operator expression, value, evaluated => by
      rw [evaluate, bind_ok_iff] at evaluated ⊢
      obtain ⟨operand, first, result⟩ := evaluated
      exact ⟨operand, evaluate_within within applies expression operand first, result⟩
  | .binaryExpression operator left right, value, evaluated => by
      rw [evaluate, bind_ok_iff] at evaluated ⊢
      obtain ⟨leftValue, first, evaluated⟩ := evaluated
      obtain ⟨rightValue, second, result⟩ := bind_ok_iff.mp evaluated
      exact ⟨leftValue, evaluate_within within applies left leftValue first, bind_ok_iff.mpr
        ⟨rightValue, evaluate_within within applies right rightValue second, result⟩⟩
  | .conditionalExpression test consequent alternate, value, evaluated => by
      rw [evaluate, bind_ok_iff] at evaluated ⊢
      obtain ⟨decision, first, evaluated⟩ := evaluated
      refine ⟨decision, evaluate_within within applies test decision first, ?_⟩
      split at evaluated
      · exact evaluate_within within applies consequent value evaluated
      · exact evaluate_within within applies alternate value evaluated
      · exact evaluated
  | .arrayLiteral elements, value, evaluated => by
      rw [evaluate, bind_ok_iff] at evaluated ⊢
      obtain ⟨items, first, result⟩ := evaluated
      exact ⟨items, evaluateAll_within within applies elements items first, result⟩
  | .subscriptExpression array subscript, value, evaluated => by
      rw [evaluate, bind_ok_iff] at evaluated ⊢
      obtain ⟨arrayValue, first, evaluated⟩ := evaluated
      obtain ⟨subscriptValue, second, result⟩ := bind_ok_iff.mp evaluated
      exact ⟨arrayValue, evaluate_within within applies array arrayValue first, bind_ok_iff.mpr
        ⟨subscriptValue, evaluate_within within applies subscript subscriptValue second, result⟩⟩
  | .call callee arguments, value, evaluated => by
      rw [evaluate] at evaluated ⊢
      cases named : callee.name? with
      | none => simp [named, fail] at evaluated
      | some name =>
          simp only [named] at evaluated ⊢
          obtain ⟨key, keyed, evaluated⟩ := ofExcept_bind_ok_iff.mp evaluated
          obtain ⟨values, first, evaluated⟩ := bind_ok_iff.mp evaluated
          refine ofExcept_bind_ok_iff.mpr ⟨key, keyed, bind_ok_iff.mpr
            ⟨values, evaluateAll_within within applies arguments values first, ?_⟩⟩
          cases bound : one.find? key with
          | none => simp [bound, fail] at evaluated
          | some function =>
              simp only [bound] at evaluated
              simp only [within key function bound]
              exact applies function values value evaluated
  | .variableDeclaration _ _, _, evaluated | .functionDeclaration _ _ _, _, evaluated
  | .assignment _ _, _, evaluated | .printStatement _, _, evaluated
  | .whileStatement _ _, _, evaluated | .block _, _, evaluated | .program _, _, evaluated => by
      simp [evaluate, fail] at evaluated

theorem evaluateAll_within (within : one.Within other)
    (applies : ∀ function arguments value, (apply function arguments one).result = .ok value →
      (apply function arguments other).result = .ok value) :
    ∀ (nodes : List Node) (values : List Value), (evaluateAll apply one nodes).result = .ok values →
      (evaluateAll apply other nodes).result = .ok values
  | [], values, evaluated => by
      rw [evaluateAll] at evaluated ⊢
      exact evaluated
  | node :: rest, values, evaluated => by
      rw [evaluateAll, bind_ok_iff] at evaluated ⊢
      obtain ⟨value, first, evaluated⟩ := evaluated
      obtain ⟨others, later, result⟩ := bind_ok_iff.mp evaluated
      exact ⟨value, evaluate_within within applies node value first, bind_ok_iff.mpr
        ⟨others, evaluateAll_within within applies rest others later, result⟩⟩

end

/-- The body of a function is evaluated one call deeper, in the extended scopes. -/
theorem applyFunction_within (level depth : Nat) (within : one.Within other) (function : Value)
    (arguments : List Value) (value : Value)
    (applied : (applyFunction level depth function arguments one).result = .ok value) :
    (applyFunction level depth function arguments other).result = .ok value := by
  induction depth generalizing one other function arguments value with
  | zero =>
      cases function with
      | function name parameters body =>
          simp only [applyFunction, ofExcept_bind_ok_iff, note_bind_result] at applied
          obtain ⟨-, -, -, -, ended⟩ := applied
          cases ended
      | _ => exact applied
  | succ depth ih =>
      cases function with
      | function name parameters body =>
          simp only [applyFunction, ofExcept_bind_ok_iff, note_bind_result] at applied ⊢
          obtain ⟨checked, arity, bindings, bound, evaluated⟩ := applied
          have inner := within.extend bindings
          exact ⟨checked, arity, bindings, bound,
            evaluate_within inner (fun callee given => ih inner callee given) body value evaluated⟩
      | _ => exact applied

end

theorem evaluateIn_within (level : Nat) (budget : Budget) {one other : Scope}
    (within : one.Within other) {node : Node} {value : Value}
    (evaluated : (evaluateIn level budget one node).result = .ok value) :
    (evaluateIn level budget other node).result = .ok value :=
  evaluate_within within (applyFunction_within level budget.depth within) node value evaluated

/-- The other scope binds the same, and what is extra where the one binds nothing. -/
structure Scope.Beside (extra : Key → Option Value) (one other : Scope) : Prop where
  found : ∀ key, other.find? key = (one.find? key).or (extra key)
  constants : other.constants = one.constants

def Scope.Avoids (extra : Key → Option Value) (scope : Scope) : Prop :=
  ∀ key, (extra key).isSome → scope.find? key = none

namespace Scope

variable {extra : Key → Option Value} {one other : Scope} {key : Key}

theorem Beside.within (beside : one.Beside extra other) : one.Within other := by
  intro key value found
  rw [beside.found, found, Option.some_or]

theorem Beside.fresh (beside : one.Beside extra other) (free : one.find? key = none)
    (unneeded : extra key = none) : other.find? key = none := by
  rw [beside.found, free, unneeded, Option.or_none]

theorem Beside.assignable (beside : one.Beside extra other) (allowed : one.Assignable key) :
    other.Assignable key := by
  obtain ⟨value, found, data, free⟩ := allowed
  exact ⟨value, beside.within key value found, data, beside.constants ▸ free⟩

theorem Beside.bind (beside : one.Beside extra other) (key : Key) (value : Value) :
    (one.bind key value).Beside extra (other.bind key value) := by
  refine ⟨fun looked => ?_, beside.constants⟩
  rw [find?_bind, find?_bind, beside.found]
  by_cases same : key = looked
  · simp [same]
  · simp [same]

def only (key : Key) (value : Value) (looked : Key) : Option Value :=
  if key = looked then some value else none

theorem avoids_only {value : Value} (free : one.find? key = none) :
    one.Avoids (only key value) := by
  intro looked needed
  by_cases same : key = looked
  · rwa [← same]
  · simp [only, same] at needed

theorem beside_bind (value : Value) (free : one.find? key = none) :
    one.Beside (only key value) (one.bind key value) := by
  refine ⟨fun looked => ?_, rfl⟩
  rw [find?_bind]
  by_cases same : key = looked
  · rw [if_pos same, ← same, free, only, if_pos rfl, Option.none_or]
  · rw [if_neg same, only, if_neg same, Option.or_none]

theorem Beside.caught_up {value : Value} (beside : one.Beside (only key value) other)
    (free : one.find? key = none) : (one.bind key value).Beside (fun _ => none) other := by
  refine ⟨fun looked => ?_, beside.constants⟩
  rw [beside.found, find?_bind, Option.or_none]
  by_cases same : key = looked
  · rw [if_pos same, ← same, free, only, if_pos rfl, Option.none_or]
  · rw [if_neg same, only, if_neg same, Option.or_none]

theorem avoids_none : one.Avoids fun _ => none :=
  fun _ needed => by cases needed

theorem Beside.agree (beside : one.Beside (fun _ => none) other) (names : Set Key) :
    other.AgreeOn names one := by
  refine ⟨fun key _ => ?_, fun key _ => by rw [beside.constants]⟩
  rw [beside.found, Option.or_none]

theorem Beside.trans {third : Scope} (first : one.Beside (fun _ => none) other)
    (second : other.Beside (fun _ => none) third) : one.Beside (fun _ => none) third := by
  refine ⟨fun key => ?_, second.constants.trans first.constants⟩
  rw [second.found, Option.or_none, first.found]

theorem Avoids.earlier {later : Scope} (avoids : later.Avoids extra) (keeps : one.Keeps later) :
    one.Avoids extra := by
  intro key needed
  have absent := avoids key needed
  cases found : one.find? key with
  | none => rfl
  | some value =>
      have kept := keeps.bound key (by simp [found])
      simp [absent] at kept

theorem Avoids.unneeded (avoids : one.Avoids extra) {value : Value}
    (bound : one.find? key = some value) : extra key = none := by
  cases needed : extra key with
  | none => rfl
  | some other =>
      have absent := avoids key (by simp [needed])
      cases absent.symm.trans bound

end Scope

structure State.Beside (extra : Key → Option Value) (one other : State) : Prop where
  scope : one.scope.Beside extra other.scope
  output : other.output = one.output

theorem State.beside_bind {state : State} {key : Key} (value : Value)
    (free : state.scope.find? key = none) :
    state.Beside (Scope.only key value) ⟨state.scope.bind key value, state.output⟩ :=
  ⟨Scope.beside_bind value free, rfl⟩

theorem State.Beside.caught_up {one other : State} {key : Key} {value : Value}
    (beside : one.Beside (Scope.only key value) other) (free : one.scope.find? key = none) :
    State.Beside (fun _ => none) ⟨one.scope.bind key value, one.output⟩ other :=
  ⟨beside.scope.caught_up free, beside.output⟩

section

variable {level : Nat} {budget : Budget} {extra : Key → Option Value}

theorem executeAll_continues {statements : List Node} {state next : State}
    (executed : (executeAll level budget statements state).result = .ok next) :
    state.Continues next :=
  have opened : (execute level budget (.block statements) state).result = .ok next := executed
  execute_continues level budget opened

/-- The success of a computation on one state goes over to any state beside it. -/
def GoesOver (extra : Key → Option Value) (computation : State → Traced State) : Prop :=
  ∀ {one other next : State}, one.Beside extra other → next.scope.Avoids extra →
    (computation one).result = .ok next →
      ∃ following, (computation other).result = .ok following ∧ next.Beside extra following

theorem executeBody_continues {body : Node} {state next : State}
    (executed : (executeBodyBy level budget.turns (evaluateIn level budget) body state).result =
      .ok next) : state.Continues next := by
  obtain ⟨statements, rfl, inner⟩ := executeBodyBy_ok_iff.mp executed
  exact executeAll_continues inner

theorem loop_continues {test : Node} {body : State → Traced State} {count : Nat}
    (continues : ∀ {state next : State}, (body state).result = .ok next → state.Continues next)
    {state next : State}
    (ended : (repeatWhile (loopTurn level (evaluateIn level budget) test body) count state).result =
      .ok next) : state.Continues next := by
  induction count generalizing state with
  | zero => exact absurd ended not_loop_zero_ok
  | succ count ih =>
      rcases loop_succ_ok_iff.mp ended with ⟨-, -, -, rfl⟩ | ⟨-, middle, turned, later⟩
      · exact .refl next
      · exact (continues turned).trans (ih later)

theorem loop_goes_over {test : Node} {body : State → Traced State} (goes : GoesOver extra body)
    (continues : ∀ {state next : State}, (body state).result = .ok next → state.Continues next)
    (count : Nat) :
    GoesOver extra (repeatWhile (loopTurn level (evaluateIn level budget) test body) count) := by
  induction count with
  | zero =>
      intro one other next beside avoids ended
      exact absurd ended not_loop_zero_ok
  | succ count ih =>
      intro one other next beside avoids ended
      rcases loop_succ_ok_iff.mp ended with
        ⟨value, tested, untrue, rfl⟩ | ⟨tested, middle, turned, later⟩
      · have same := evaluateIn_within level budget beside.scope.within tested
        exact ⟨other, loop_succ_ok_iff.mpr (.inl ⟨value, same, untrue, rfl⟩), beside⟩
      · have same := evaluateIn_within level budget beside.scope.within tested
        have sooner := avoids.earlier (loop_continues continues later).1
        obtain ⟨between, inner, near⟩ := goes beside sooner turned
        obtain ⟨following, rest, last⟩ := ih near avoids later
        exact ⟨following, loop_succ_ok_iff.mpr (.inr ⟨same, between, inner, rest⟩), last⟩

mutual

/-- A name that is declared is bound at last, so it is none of the extra ones. -/
theorem execute_goes_over : ∀ statement : Node, GoesOver extra (execute level budget statement)
  | .variableDeclaration id initializer, one, other, next, beside, avoids, executed => by
      obtain ⟨name, key, value, rfl, keyed, fresh, evaluated, rfl⟩ :=
        declaration_ok_iff.mp executed
      have unneeded := avoids.unneeded (by rw [Scope.find?_bind, if_pos rfl])
      refine ⟨_, declaration_ok_iff.mpr ⟨name, key, value, rfl, keyed,
        beside.scope.fresh fresh unneeded,
        evaluateIn_within level budget beside.scope.within evaluated, rfl⟩, ?_⟩
      exact ⟨beside.scope.bind key value, beside.output⟩
  | .functionDeclaration id parameters body, one, other, next, beside, avoids, executed => by
      obtain ⟨name, key, names, rfl, keyed, fresh, written, noted, rfl⟩ :=
        definition_ok_iff.mp executed
      have unneeded := avoids.unneeded (by rw [Scope.find?_bind, if_pos rfl])
      refine ⟨_, definition_ok_iff.mpr ⟨name, key, names, rfl, keyed,
        beside.scope.fresh fresh unneeded, written, noted, rfl⟩, ?_⟩
      exact ⟨beside.scope.bind key _, beside.output⟩
  | .assignment target source, one, other, next, beside, avoids, executed => by
      obtain ⟨name, key, value, rfl, keyed, allowed, evaluated, rfl⟩ :=
        assignment_ok_iff.mp executed
      refine ⟨_, assignment_ok_iff.mpr ⟨name, key, value, rfl, keyed,
        beside.scope.assignable allowed,
        evaluateIn_within level budget beside.scope.within evaluated, rfl⟩, ?_⟩
      exact ⟨beside.scope.bind key value, beside.output⟩
  | .printStatement expression, one, other, next, beside, avoids, executed => by
      obtain ⟨value, evaluated, rfl⟩ := print_ok_iff.mp executed
      refine ⟨_, print_ok_iff.mpr ⟨value,
        evaluateIn_within level budget beside.scope.within evaluated, rfl⟩, ?_⟩
      exact ⟨beside.scope, congrArg (· ++ [value]) beside.output⟩
  | .whileStatement test body, one, other, next, beside, avoids, executed => by
      rw [execute, executeBy] at executed ⊢
      exact loop_goes_over (executeBody_goes_over body) executeBody_continues budget.turns beside
        avoids executed
  | .block statements, one, other, next, beside, avoids, executed =>
      executeAll_goes_over statements beside avoids executed
  | .numeral _, _, _, _, _, _, executed | .booleanLiteral _, _, _, _, _, _, executed
  | .identifier _, _, _, _, _, _, executed | .unaryExpression _ _, _, _, _, _, _, executed
  | .binaryExpression _ _ _, _, _, _, _, _, executed
  | .conditionalExpression _ _ _, _, _, _, _, _, executed
  | .arrayLiteral _, _, _, _, _, _, executed | .subscriptExpression _ _, _, _, _, _, _, executed
  | .call _ _, _, _, _, _, _, executed | .program _, _, _, _, _, _, executed => by
      cases executed

theorem executeBody_goes_over : ∀ body : Node,
    GoesOver extra (executeBodyBy level budget.turns (evaluateIn level budget) body)
  | .block statements, one, other, next, beside, avoids, executed =>
      executeAll_goes_over statements beside avoids executed
  | .variableDeclaration _ _, _, _, _, _, _, executed
  | .functionDeclaration _ _ _, _, _, _, _, _, executed | .assignment _ _, _, _, _, _, _, executed
  | .printStatement _, _, _, _, _, _, executed | .whileStatement _ _, _, _, _, _, _, executed
  | .numeral _, _, _, _, _, _, executed | .booleanLiteral _, _, _, _, _, _, executed
  | .identifier _, _, _, _, _, _, executed | .unaryExpression _ _, _, _, _, _, _, executed
  | .binaryExpression _ _ _, _, _, _, _, _, executed
  | .conditionalExpression _ _ _, _, _, _, _, _, executed
  | .arrayLiteral _, _, _, _, _, _, executed | .subscriptExpression _ _, _, _, _, _, _, executed
  | .call _ _, _, _, _, _, _, executed | .program _, _, _, _, _, _, executed => by
      cases executed

theorem executeAll_goes_over : ∀ statements : List Node,
    GoesOver extra (executeAll level budget statements)
  | [], one, other, next, beside, avoids, executed => by
      obtain rfl := pure_ok_iff.mp executed
      exact ⟨other, rfl, beside⟩
  | statement :: rest, one, other, next, beside, avoids, executed => by
      obtain ⟨middle, first, later⟩ := executeAllBy_cons_ok_iff.mp executed
      have sooner := avoids.earlier (executeAll_continues later).1
      obtain ⟨between, started, near⟩ := execute_goes_over statement beside sooner first
      obtain ⟨following, ended, last⟩ := executeAll_goes_over rest near avoids later
      exact ⟨following, executeAllBy_cons_ok_iff.mpr ⟨between, started, ended⟩, last⟩

end

inductive Moves : List Node → List Node → Prop
  | earlier (before between after : List Node) (id : Node) (parameters : List Node) (body : Node) :
      Moves (before ++ (between ++ .functionDeclaration id parameters body :: after))
        (before ++ .functionDeclaration id parameters body :: (between ++ after))

def Hoists : List Node → List Node → Prop :=
  Relation.ReflTransGen Moves

theorem executeAll_moved {statements moved : List Node} (moves : Moves statements moved)
    {state final : State} (executed : (executeAll level budget statements state).result = .ok final) :
    ∃ following, (executeAll level budget moved state).result = .ok following ∧
      final.Beside (fun _ => none) following := by
  obtain ⟨before, between, after, id, parameters, body⟩ := moves
  obtain ⟨start, begun, executed⟩ := executeAllBy_append_ok_iff.mp executed
  obtain ⟨middle, passed, executed⟩ := executeAllBy_append_ok_iff.mp executed
  obtain ⟨declared, defined, ended⟩ := executeAllBy_cons_ok_iff.mp executed
  obtain ⟨name, key, names, rfl, keyed, fresh, written, noted, rfl⟩ := definition_ok_iff.mp defined
  -- The name is free before the statements in between as well, and it stays so.
  have avoids : middle.scope.Avoids (Scope.only key (.function name names body)) :=
    Scope.avoids_only fresh
  have free : start.scope.find? key = none :=
    avoids.earlier (executeAll_continues passed).1 key (by simp [Scope.only])
  obtain ⟨reached, carried, near⟩ := executeAll_goes_over between
    (State.beside_bind (.function name names body) free) avoids passed
  obtain ⟨following, last, beside⟩ := executeAll_goes_over after (near.caught_up fresh)
    Scope.avoids_none ended
  refine ⟨following, executeAllBy_append_ok_iff.mpr ⟨start, begun, ?_⟩, beside⟩
  refine executeAllBy_cons_ok_iff.mpr ⟨_, definition_ok_iff.mpr
    ⟨name, key, names, rfl, keyed, free, written, noted, rfl⟩, ?_⟩
  exact executeAllBy_append_ok_iff.mpr ⟨reached, carried, last⟩

theorem executeAll_hoisted {statements hoisted : List Node} (hoists : Hoists statements hoisted)
    {state final : State} (executed : (executeAll level budget statements state).result = .ok final) :
    ∃ following, (executeAll level budget hoisted state).result = .ok following ∧
      final.Beside (fun _ => none) following := by
  induction hoists with
  | refl =>
      refine ⟨final, executed, ⟨fun key => ?_, rfl⟩, rfl⟩
      rw [Option.or_none]
  | tail _ moves ih =>
      obtain ⟨middle, earlier, near⟩ := ih
      obtain ⟨following, later, next⟩ := executeAll_moved moves earlier
      exact ⟨following, later, near.scope.trans next.scope, next.output.trans near.output⟩

end

theorem run_ok_iff {level : Nat} {budget : Budget} {statements : List Node} {scope : Scope}
    {output : List Value} :
    (run level budget (.program (.block statements)) scope).result = .ok output ↔
      ∃ final, (executeAll level budget statements ⟨scope, []⟩).result = .ok final ∧
        final.output = output := by
  rw [run_result, ← executeAll_eq_executeEach]
  cases (executeAll level budget statements ⟨scope, []⟩).result with
  | ok final => simp [Except.map]
  | error fault => simp [Except.map]

/-- A program that succeeds does so, with the same output and bindings, when its function declarations
are moved to earlier places. A statement that succeeds does so beside a further binding of a name that
it does not declare. -/
theorem functions_hoisted (level : Nat) (budget : Budget) :
    (∀ statements hoisted, Hoists statements hoisted → ∀ scope output,
      (run level budget (.program (.block statements)) scope).result = .ok output →
        (run level budget (.program (.block hoisted)) scope).result = .ok output ∧
        ∃ final following, (executeAll level budget statements ⟨scope, []⟩).result = .ok final ∧
          (executeAll level budget hoisted ⟨scope, []⟩).result = .ok following ∧
          following.output = final.output ∧ following.scope.AgreeOn Set.univ final.scope) ∧
    ∀ statement state next key value, state.scope.find? key = none →
      (execute level budget statement state).result = .ok next → next.scope.find? key = none →
        ∃ following,
          (execute level budget statement ⟨state.scope.bind key value, state.output⟩).result =
            .ok following ∧
          following.output = next.output ∧
          following.scope.AgreeOn Set.univ (next.scope.bind key value) := by
  constructor
  · intro statements hoisted hoists scope output ran
    obtain ⟨final, executed, printed⟩ := run_ok_iff.mp ran
    obtain ⟨following, moved, beside⟩ := executeAll_hoisted hoists executed
    refine ⟨run_ok_iff.mpr ⟨following, moved, beside.output.trans printed⟩, ?_⟩
    exact ⟨final, following, executed, moved, beside.output, beside.scope.agree Set.univ⟩
  · intro statement state next key value free executed undeclared
    obtain ⟨following, carried, beside⟩ := execute_goes_over statement
      (State.beside_bind value free) (Scope.avoids_only undeclared) executed
    have same := (beside.caught_up undeclared).scope.agree Set.univ
    exact ⟨following, carried, beside.output, same⟩

def early : Node :=
  .functionDeclaration (.identifier (.text "g")) [.identifier (.text "x")]
    (.conditionalExpression (.identifier (.text "x")) (.identifier (.text "x"))
      (.call (.identifier (.text "f")) [.identifier (.text "x")]))

def late : Node :=
  .functionDeclaration (.identifier (.text "f")) [.identifier (.text "x")]
    (.unaryExpression (.text "!") (.identifier (.text "x")))

def calls (argument : Bool) : Node :=
  .printStatement (.call (.identifier (.text "g")) [.booleanLiteral argument])

theorem functions_hoisted_calls :
    (run 0 ⟨2, 1⟩ (.program (.block [early, calls true, late, calls false])) .initial).result =
        .ok [.boolean true, .boolean true] ∧
      (run 0 ⟨2, 1⟩ (.program (.block [late, early, calls true, calls false])) .initial).result =
        .ok [.boolean true, .boolean true] := by
  have ran : (run 0 ⟨2, 1⟩ (.program (.block [early, calls true, late, calls false]))
      .initial).result = .ok [.boolean true, .boolean true] := rfl
  have hoists : Hoists [early, calls true, late, calls false]
      [late, early, calls true, calls false] :=
    .single (.earlier [] [early, calls true] [calls false] _ _ _)
  exact ⟨ran, ((functions_hoisted 0 ⟨2, 1⟩).1 _ _ hoists _ _ ran).1⟩

end Bella
