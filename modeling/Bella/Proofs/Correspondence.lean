import Bella.Proofs.Alike
import Bella.Proofs.Names
import Bella.Proofs.Safety

/-! Runs side by side in scopes that correspond on the names of a tree. Expressions have the same
values, made of functions that the scopes have there already; statements keep a correspondence that
bindings keep. -/

namespace Bella

open Traced

def SameEvery (holds : Datum → List Datum → Node → Prop) (value other : Value) : Prop :=
  value = other ∧ value.Every holds

def SameAll (holds : Datum → List Datum → Node → Prop) (values others : List Value) : Prop :=
  values = others ∧ ∀ value ∈ values, value.Every holds

section

variable {holds : Datum → List Datum → Node → Prop}

theorem Outcome.Ensures.of_ok {outcome : Outcome Value} {result : Except Fault Value}
    {value : Value} {allowed : Misuse → Prop}
    (sound : outcome.Ensures (Value.Every holds) allowed) (known : result = outcome.result)
    (ended : result = .ok value) : value.Every holds := by
  cases outcome with
  | ok made =>
      obtain rfl := Except.ok.inj (known.symm.trans ended)
      exact sound
  | error misuse => cases known.symm.trans ended

theorem unaryResult_every {operator : Datum} {operand value : Value}
    (ended : unaryResult operator operand = .ok value) : value.Every holds := by
  obtain ⟨outcome, rule⟩ := unaryRule_total operator operand
  have sound : outcome.Ensures (Value.Every holds) Vocabulary.unrestricted.Allows :=
    rule.ensures trivial
  exact sound.of_ok (unaryResult_of_rule rule) ended

theorem binaryResult_every {operator : Datum} {left right value : Value}
    (ended : binaryResult operator left right = .ok value) : value.Every holds := by
  obtain ⟨outcome, rule⟩ := binaryRule_total operator left right
  have sound : outcome.Ensures (Value.Every holds) Vocabulary.unrestricted.Allows :=
    rule.ensures trivial
  exact sound.of_ok (binaryResult_of_rule rule) ended

theorem subscriptResult_every {array subscript value : Value} (every : array.Every holds)
    (ended : subscriptResult array subscript = .ok value) : value.Every holds := by
  obtain ⟨outcome, rule⟩ := subscriptRule_total array subscript
  have sound : outcome.Ensures (Value.Every holds) Vocabulary.unrestricted.Allows :=
    rule.ensures every
  exact sound.of_ok (subscriptResult_of_rule rule) ended

theorem builtinResult_every {builtin : Builtin}
    {arguments : List Value} {value : Value} (arity : arguments.length = builtin.arity)
    (ended : builtinResult builtin arguments = .ok value) : value.Every holds := by
  have sound : (Traced.ofExcept (builtinResult builtin arguments)).Ensures (Value.Every holds)
      Vocabulary.unrestricted.Excuses := builtinResult_ensures arity
  exact (ensures_iff.mp sound).1 value ended

/-- Only functions that are declared look at the scope of a call. -/
theorem applyFunction_scopeless (level depth : Nat) {callee : Value}
    (builtin : ∀ name parameters body, callee ≠ .function name parameters body)
    (arguments : List Value) (one other : Scope) :
    (applyFunction level depth callee arguments one).Alike
      (applyFunction level depth callee arguments other) (SameEvery holds) := by
  cases callee with
  | builtin builtin =>
      simp only [applyFunction]
      refine alike_ofExcept fun _ checked => alike_same fun _ _ => ?_
      exact alike_result fun value ended =>
        ⟨rfl, builtinResult_every (checkArity_length checked) ended⟩
  | function name parameters body => exact absurd rfl (builtin name parameters body)
  | number | boolean | array | foreign =>
      simp only [applyFunction]
      exact alike_fail _

end

section

variable {first second : Application} {one other : Scope} {names : Set Key}
  {holds : Datum → List Datum → Node → Prop}

theorem get_alike {name : Datum}
    (found : ∀ key, name.key? = some key → one.find? key = other.find? key)
    (every : ∀ key value, name.key? = some key → one.find? key = some value →
      value.Every holds) :
    (ofExcept (one.get name)).Alike (ofExcept (other.get name)) (SameEvery holds) := by
  cases named : name.key? with
  | none =>
      rw [Scope.get_unnamed named, Scope.get_unnamed named]
      exact alike_fail _
  | some key =>
      have same := found key named
      cases bound : one.find? key with
      | none =>
          rw [Scope.get_unbound named bound, Scope.get_unbound named (same ▸ bound)]
          exact alike_fail _
      | some value =>
          rw [Scope.get_bound named bound, Scope.get_bound named (same ▸ bound)]
          exact alike_pure ⟨rfl, every key value named bound⟩

mutual

theorem evaluate_alike (found : ∀ key ∈ names, one.find? key = other.find? key)
    (every : one.EveryAt names holds)
    (applied : ∀ function arguments, function.Every holds →
      (∀ argument ∈ arguments, argument.Every holds) →
      (first function arguments one).Alike (second function arguments other) (SameEvery holds)) :
    ∀ node : Node, node.Within names →
      (evaluate first one node).Alike (evaluate second other node) (SameEvery holds)
  | .numeral datum, _ => by
      simp only [evaluate]
      refine alike_result fun value ended => ⟨rfl, ?_⟩
      cases read : numeralValue datum with
      | ok number =>
          rw [read] at ended
          exact Except.ok.inj ended ▸ .number number
      | error fault =>
          rw [read] at ended
          cases ended
  | .booleanLiteral truth, _ => by
      simp only [evaluate]
      exact alike_pure ⟨rfl, .boolean truth⟩
  | .identifier name, within => by
      simp only [evaluate]
      have known (key : Key) (named : name.key? = some key) : key ∈ names :=
        within key (by simp [Node.names, named])
      exact get_alike (fun key named => found key (known key named))
        fun key value named => every key (known key named) value
  | .unaryExpression operator expression, within => by
      simp only [evaluate]
      refine alike_bind (evaluate_alike found every applied expression within) ?_
      rintro operand _ ⟨rfl, -⟩
      exact alike_result fun value ended => ⟨rfl, unaryResult_every ended⟩
  | .binaryExpression operator left right, within => by
      simp only [Node.Within, Node.names, List.forall_mem_append] at within
      simp only [evaluate]
      refine alike_bind (evaluate_alike found every applied left within.1) ?_
      rintro leftValue _ ⟨rfl, -⟩
      refine alike_bind (evaluate_alike found every applied right within.2) ?_
      rintro rightValue _ ⟨rfl, -⟩
      exact alike_result fun value ended => ⟨rfl, binaryResult_every ended⟩
  | .conditionalExpression test consequent alternate, within => by
      simp only [Node.Within, Node.names, List.forall_mem_append] at within
      simp only [evaluate]
      refine alike_bind (evaluate_alike found every applied test within.1.1) ?_
      rintro value _ ⟨rfl, -⟩
      split
      · exact evaluate_alike found every applied consequent within.1.2
      · exact evaluate_alike found every applied alternate within.2
      · exact alike_fail _
  | .arrayLiteral elements, within => by
      simp only [evaluate]
      refine alike_bind (evaluateAll_alike found every applied elements within) ?_
      rintro items _ ⟨rfl, each⟩
      exact alike_pure ⟨rfl, .array each⟩
  | .subscriptExpression array subscript, within => by
      simp only [Node.Within, Node.names, List.forall_mem_append] at within
      simp only [evaluate]
      refine alike_bind (evaluate_alike found every applied array within.1) ?_
      rintro arrayValue _ ⟨rfl, admitted⟩
      refine alike_bind (evaluate_alike found every applied subscript within.2) ?_
      rintro subscriptValue _ ⟨rfl, -⟩
      exact alike_result fun value ended => ⟨rfl, subscriptResult_every admitted ended⟩
  | .call callee arguments, within => by
      simp only [Node.Within, Node.names, List.forall_mem_append] at within
      simp only [evaluate]
      split
      · exact alike_fail _
      · rename_i name known
        obtain rfl := Node.name?_eq_some known
        refine alike_ofExcept fun key keyed => ?_
        have member : key ∈ names := within.1 key (by simp [Node.names, Scope.keyOf_ok keyed])
        refine alike_bind (evaluateAll_alike found every applied arguments within.2) ?_
        rintro values _ ⟨rfl, each⟩
        rw [← found key member]
        cases bound : one.find? key with
        | none => exact alike_fail _
        | some function => exact applied function values (every key member function bound) each
  | .variableDeclaration _ _, _ | .functionDeclaration _ _ _, _ | .assignment _ _, _
  | .printStatement _, _ | .whileStatement _ _, _ | .block _, _ | .program _, _ => by
      simp only [evaluate]
      exact alike_fail _

theorem evaluateAll_alike (found : ∀ key ∈ names, one.find? key = other.find? key)
    (every : one.EveryAt names holds)
    (applied : ∀ function arguments, function.Every holds →
      (∀ argument ∈ arguments, argument.Every holds) →
      (first function arguments one).Alike (second function arguments other) (SameEvery holds)) :
    ∀ nodes : List Node, (∀ key ∈ namesOfAll nodes, key ∈ names) →
      (evaluateAll first one nodes).Alike (evaluateAll second other nodes) (SameAll holds)
  | [], _ => by
      simp only [evaluateAll]
      exact alike_pure ⟨rfl, by simp⟩
  | node :: rest, within => by
      simp only [namesOfAll, List.forall_mem_append] at within
      simp only [evaluateAll]
      refine alike_bind (evaluate_alike found every applied node within.1) ?_
      rintro value _ ⟨rfl, admitted⟩
      refine alike_bind (evaluateAll_alike found every applied rest within.2) ?_
      rintro values _ ⟨rfl, each⟩
      exact alike_pure ⟨rfl, List.forall_mem_cons.mpr ⟨admitted, each⟩⟩

end

end

/-- Scopes that correspond: expressions with names among `names` are evaluated alike in them, those
names have the same bindings in both, and binding one of them as a statement does keeps it so. -/
structure Correspondence (first second : Evaluator) (names : Set Key) (fit : Value → Prop)
    (scopes : Scope → Scope → Prop) : Prop where
  evaluate : ∀ {one other : Scope} {node : Node}, scopes one other → node.Within names →
    (first one node).Alike (second other node) fun value made => value = made ∧ fit value
  found : ∀ {one other : Scope} {key : Key}, scopes one other → key ∈ names →
    one.find? key = other.find? key
  constants : ∀ {one other : Scope} {key : Key}, scopes one other → key ∈ names →
    (key ∈ one.constants ↔ key ∈ other.constants)
  bind : ∀ {one other : Scope} {key : Key} {value : Value}, scopes one other → key ∈ names →
    one.find? key = none ∨ one.Assignable key → fit value →
    scopes (one.bind key value) (other.bind key value)

structure StatesAlike (scopes : Scope → Scope → Prop) (earlier before : List Value)
    (one other : State) : Prop where
  scopes : scopes one.scope other.scope
  output : ∃ printed, one.output = earlier ++ printed ∧ other.output = before ++ printed

section

variable {first second : Evaluator} {names : Set Key} {fit : Value → Prop}
  {scopes : Scope → Scope → Prop} {earlier before : List Value} {α β : Type}
  {related : α → β → Prop}

theorem Correspondence.mayDeclare_alike
    (correspondence : Correspondence first second names fit scopes) {one other : Scope}
    {name : Datum} (corresponding : scopes one other)
    (known : ∀ key, name.key? = some key → key ∈ names) {next : Unit → Traced α}
    {following : Unit → Traced β}
    (after : ∀ key, name.key? = some key → key ∈ names → one.find? key = none →
      other.find? key = none → (next ()).Alike (following ()) related) :
    (ofExcept (one.mayDeclare name) >>= next).Alike
      (ofExcept (other.mayDeclare name) >>= following) related := by
  cases named : name.key? with
  | none =>
      rw [Scope.mayDeclare_unnamed named, Scope.mayDeclare_unnamed named]
      exact alike_fail _
  | some key =>
      have same := correspondence.found corresponding (known key named)
      cases found : one.find? key with
      | none =>
          have fresh : other.find? key = none := same ▸ found
          rw [Scope.mayDeclare_fresh named found, Scope.mayDeclare_fresh named fresh]
          exact after key named (known key named) found fresh
      | some value =>
          rw [Scope.mayDeclare_bound named found, Scope.mayDeclare_bound named (same ▸ found)]
          exact alike_fail _

theorem Correspondence.mayAssign_alike
    (correspondence : Correspondence first second names fit scopes) {one other : Scope}
    {name : Datum} (corresponding : scopes one other)
    (known : ∀ key, name.key? = some key → key ∈ names) {next : Unit → Traced α}
    {following : Unit → Traced β}
    (after : ∀ key, name.key? = some key → key ∈ names → one.Assignable key →
      other.Assignable key → (next ()).Alike (following ()) related) :
    (ofExcept (one.mayAssign name) >>= next).Alike
      (ofExcept (other.mayAssign name) >>= following) related := by
  cases named : name.key? with
  | none =>
      rw [Scope.mayAssign_unnamed named, Scope.mayAssign_unnamed named]
      exact alike_fail _
  | some key =>
      have same := correspondence.found corresponding (known key named)
      have status := correspondence.constants corresponding (known key named)
      cases found : one.find? key with
      | none =>
          rw [Scope.mayAssign_unbound named found, Scope.mayAssign_unbound named (same ▸ found)]
          exact alike_fail _
      | some value =>
          have bound : other.find? key = some value := same ▸ found
          cases function : value.isFunction with
          | true =>
              rw [Scope.mayAssign_function named found function,
                Scope.mayAssign_function named bound function]
              exact alike_fail _
          | false =>
              by_cases constant : key ∈ one.constants
              · rw [Scope.mayAssign_constant named found function constant,
                  Scope.mayAssign_constant named bound function (status.mp constant)]
                exact alike_fail _
              · have assignable : one.Assignable key := ⟨value, found, function, constant⟩
                have matching : other.Assignable key :=
                  ⟨value, bound, function, fun member => constant (status.mpr member)⟩
                rw [Scope.mayAssign_assignable named assignable,
                  Scope.mayAssign_assignable named matching]
                exact after key named (known key named) assignable matching

variable {level turns : Nat}

mutual

theorem executeBy_alike (correspondence : Correspondence first second names fit scopes) :
    ∀ statement : Node, statement.Within names → (∀ value ∈ statement.functions, fit value) →
      ∀ one other : State, StatesAlike scopes earlier before one other →
        (executeBy level turns first statement one).Alike
          (executeBy level turns second statement other) (StatesAlike scopes earlier before)
  | .variableDeclaration id initializer, within, _, one, other, alike => by
      simp only [Node.Within, Node.names, List.forall_mem_append] at within
      simp only [executeBy]
      refine alike_ofExcept fun name named => ?_
      obtain rfl := nameOf_ok named
      have known (key : Key) (keyed : name.key? = some key) : key ∈ names :=
        within.1 key (by simp [Node.names, keyed])
      refine correspondence.mayDeclare_alike alike.scopes known
        fun key keyed member fresh unbound => ?_
      refine alike_bind (correspondence.evaluate alike.scopes within.2) ?_
      rintro value _ ⟨rfl, suitable⟩
      refine alike_same fun _ _ => ?_
      rw [Scope.declare_fresh value keyed fresh, Scope.declare_fresh value keyed unbound]
      exact alike_pure ⟨correspondence.bind alike.scopes member (.inl fresh) suitable, alike.output⟩
  | .functionDeclaration id parameters body, within, declared, one, other, alike => by
      simp only [Node.Within, Node.names, List.forall_mem_append] at within
      simp only [executeBy]
      refine alike_ofExcept fun name named => ?_
      obtain rfl := nameOf_ok named
      have known (key : Key) (keyed : name.key? = some key) : key ∈ names :=
        within.1.1 key (by simp [Node.names, keyed])
      refine correspondence.mayDeclare_alike alike.scopes known
        fun key keyed member fresh unbound => ?_
      refine alike_ofExcept fun texts written => ?_
      obtain rfl := parameterNames_ok written
      refine alike_same fun _ _ => ?_
      have suitable : fit (.function name texts body) :=
        declared _ (by simp [Node.functions, Node.name?, List.filterMap_map, Function.comp_def])
      rw [Scope.declare_fresh _ keyed fresh, Scope.declare_fresh _ keyed unbound]
      exact alike_pure ⟨correspondence.bind alike.scopes member (.inl fresh) suitable, alike.output⟩
  | .assignment target source, within, _, one, other, alike => by
      simp only [Node.Within, Node.names, List.forall_mem_append] at within
      simp only [executeBy]
      refine alike_ofExcept fun name named => ?_
      obtain rfl := nameOf_ok named
      have known (key : Key) (keyed : name.key? = some key) : key ∈ names :=
        within.1 key (by simp [Node.names, keyed])
      refine correspondence.mayAssign_alike alike.scopes known
        fun key keyed member assignable matching => ?_
      refine alike_bind (correspondence.evaluate alike.scopes within.2) ?_
      rintro value _ ⟨rfl, suitable⟩
      refine alike_same fun _ _ => ?_
      rw [Scope.assign_assignable value keyed assignable,
        Scope.assign_assignable value keyed matching]
      exact alike_pure
        ⟨correspondence.bind alike.scopes member (.inr assignable) suitable, alike.output⟩
  | .printStatement expression, within, _, one, other, alike => by
      simp only [executeBy]
      refine alike_bind (correspondence.evaluate alike.scopes within) ?_
      rintro value _ ⟨rfl, -⟩
      refine alike_same fun _ _ => alike_pure ⟨alike.scopes, ?_⟩
      obtain ⟨printed, one, other⟩ := alike.output
      exact ⟨printed ++ [value], by simp [one], by simp [other]⟩
  | .whileStatement test body, within, declared, one, other, alike => by
      simp only [Node.Within, Node.names, List.forall_mem_append] at within
      simp only [executeBy]
      refine alike_repeatWhile (fun current matching corresponding => ?_) turns alike
      unfold loopTurn
      refine alike_bind (correspondence.evaluate corresponding.scopes within.1) ?_
      rintro value _ ⟨rfl, -⟩
      refine alike_same fun _ _ => ?_
      split
      · refine alike_bind (executeBodyBy_alike correspondence body within.2 declared current matching
          corresponding) fun next following later => ?_
        exact alike_pure ⟨rfl, later⟩
      · exact alike_pure ⟨rfl, corresponding⟩
  | .block statements, within, declared, one, other, alike => by
      simp only [executeBy]
      exact executeAllBy_alike correspondence statements within declared one other alike
  | .numeral _, _, _, _, _, _ | .booleanLiteral _, _, _, _, _, _ | .identifier _, _, _, _, _, _
  | .unaryExpression _ _, _, _, _, _, _ | .binaryExpression _ _ _, _, _, _, _, _
  | .conditionalExpression _ _ _, _, _, _, _, _ | .arrayLiteral _, _, _, _, _, _
  | .subscriptExpression _ _, _, _, _, _, _ | .call _ _, _, _, _, _, _
  | .program _, _, _, _, _, _ => by
      simp only [executeBy]
      exact alike_fail _

theorem executeBodyBy_alike (correspondence : Correspondence first second names fit scopes) :
    ∀ body : Node, body.Within names → (∀ value ∈ body.functions, fit value) →
      ∀ one other : State, StatesAlike scopes earlier before one other →
        (executeBodyBy level turns first body one).Alike
          (executeBodyBy level turns second body other) (StatesAlike scopes earlier before)
  | .block statements, within, declared, one, other, alike => by
      simp only [executeBodyBy]
      exact executeAllBy_alike correspondence statements within declared one other alike
  | .numeral _, _, _, _, _, _ | .booleanLiteral _, _, _, _, _, _ | .identifier _, _, _, _, _, _
  | .unaryExpression _ _, _, _, _, _, _ | .binaryExpression _ _ _, _, _, _, _, _
  | .conditionalExpression _ _ _, _, _, _, _, _ | .arrayLiteral _, _, _, _, _, _
  | .subscriptExpression _ _, _, _, _, _, _ | .call _ _, _, _, _, _, _
  | .variableDeclaration _ _, _, _, _, _, _ | .functionDeclaration _ _ _, _, _, _, _, _
  | .assignment _ _, _, _, _, _, _ | .printStatement _, _, _, _, _, _
  | .whileStatement _ _, _, _, _, _, _ | .program _, _, _, _, _, _ => by
      simp only [executeBodyBy]
      exact alike_fail _

theorem executeAllBy_alike (correspondence : Correspondence first second names fit scopes) :
    ∀ statements : List Node, (∀ key ∈ namesOfAll statements, key ∈ names) →
      (∀ value ∈ functionsOfAll statements, fit value) →
      ∀ one other : State, StatesAlike scopes earlier before one other →
        (executeAllBy level turns first statements one).Alike
          (executeAllBy level turns second statements other) (StatesAlike scopes earlier before)
  | [], _, _, one, other, alike => by
      simp only [executeAllBy]
      exact alike_pure alike
  | statement :: rest, within, declared, one, other, alike => by
      simp only [namesOfAll, List.forall_mem_append] at within
      simp only [functionsOfAll, List.forall_mem_append] at declared
      simp only [executeAllBy]
      refine alike_bind (executeBy_alike correspondence statement within.1 declared.1 one other alike)
        fun next following later => ?_
      exact executeAllBy_alike correspondence rest within.2 declared.2 next following later

end

end

end Bella
