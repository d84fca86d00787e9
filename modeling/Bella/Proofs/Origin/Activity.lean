import Bella.Proofs.Outcome
import Bella.Proofs.Rules.Faults
import Mathlib.Data.List.Forall2
import Mathlib.Logic.Relation

/-! The activities inside of a statement: every expression that is evaluated, in its scope, and every
function that is applied, with its arguments. Each starts others and makes a value, and no value comes
up that is not made of those in the scope or by the operations. -/

namespace Bella

open Traced

/-- A value that a program makes. Of functions, only those that are declared are. -/
inductive Value.Made (declared : Datum → List Datum → Node → Prop) : Value → Prop
  | number (value : Number) : Made declared (.number value)
  | boolean (value : Bool) : Made declared (.boolean value)
  | array {items : List Value} (each : ∀ item ∈ items, Made declared item) :
      Made declared (.array items)
  | builtin (function : Builtin) : Made declared (.builtin function)
  | function {name : Datum} {parameters : List Datum} {body : Node}
      (known : declared name parameters body) : Made declared (.function name parameters body)

def Scope.Made (declared : Datum → List Datum → Node → Prop) (scope : Scope) : Prop :=
  ∀ binding ∈ scope.bindings, binding.2.Made declared

inductive Activity where
  | evaluation (depth : Nat) (scope : Scope) (node : Node)
  | application (depth : Nat) (function : Value) (arguments : List Value) (scope : Scope)

def Activity.result (level : Nat) : Activity → Except Fault Value
  | .evaluation depth scope node => (evaluate (applyFunction level depth) scope node).result
  | .application depth function arguments scope =>
      (applyFunction level depth function arguments scope).result

def Activity.Made (declared : Datum → List Datum → Node → Prop) : Activity → Prop
  | .evaluation _ scope _ => scope.Made declared
  | .application _ function arguments scope =>
      function.Made declared ∧ (∀ argument ∈ arguments, argument.Made declared) ∧
        scope.Made declared

def Node.operands : Node → List Node
  | .unaryExpression _ expression => [expression]
  | .binaryExpression _ left right => [left, right]
  | .conditionalExpression test _ _ => [test]
  | .arrayLiteral elements => elements
  | .subscriptExpression array subscript => [array, subscript]
  | .call (.identifier name) arguments => if name.key?.isSome then arguments else []
  | _ => []

/-- An activity starts another. An operand is evaluated when those before it have been, and a call is
made when all its arguments have been. -/
inductive Activity.Starts (level : Nat) : Activity → Activity → Prop
  | operand {depth : Nat} {scope : Scope} {node operand : Node} {earlier later : List Node}
      (split : node.operands = earlier ++ operand :: later)
      (ended : ∀ other ∈ earlier, ∃ value,
        (evaluation depth scope other).result level = .ok value) :
      Starts level (.evaluation depth scope node) (.evaluation depth scope operand)
  | consequent {depth : Nat} {scope : Scope} {test positive negative : Node}
      (tested : (evaluation depth scope test).result level = .ok (.boolean true)) :
      Starts level (.evaluation depth scope (.conditionalExpression test positive negative))
        (.evaluation depth scope positive)
  | alternate {depth : Nat} {scope : Scope} {test positive negative : Node}
      (tested : (evaluation depth scope test).result level = .ok (.boolean false)) :
      Starts level (.evaluation depth scope (.conditionalExpression test positive negative))
        (.evaluation depth scope negative)
  | call {depth : Nat} {scope : Scope} {name : Datum} {key : Key} {nodes : List Node}
      {arguments : List Value} {function : Value} (named : name.key? = some key)
      (given : List.Forall₂ (fun node argument =>
        (evaluation depth scope node).result level = .ok argument) nodes arguments)
      (found : scope.find? key = some function) :
      Starts level (.evaluation depth scope (.call (.identifier name) nodes))
        (.application depth function arguments scope)
  | body {depth : Nat} {scope : Scope} {name : Datum} {parameters : List Datum} {body : Node}
      {arguments : List Value} {bindings : List (Key × Value)}
      (fits : arguments.length = parameters.length)
      (bound : bindParameters parameters arguments = .ok bindings) :
      Starts level (.application (depth + 1) (.function name parameters body) arguments scope)
        (.evaluation depth (scope.extend bindings) body)

def Activity.LeadsTo (level : Nat) : Activity → Activity → Prop :=
  Relation.ReflTransGen (Starts level)

section

variable {declared known : Datum → List Datum → Node → Prop} {value : Value} {scope : Scope}

theorem Value.Made.mono (more : ∀ name parameters body, declared name parameters body →
    known name parameters body) (made : value.Made declared) : value.Made known := by
  induction made with
  | number value => exact .number value
  | boolean value => exact .boolean value
  | array _ ih => exact .array ih
  | builtin function => exact .builtin function
  | function holds => exact .function (more _ _ _ holds)

theorem Scope.Made.found (made : scope.Made declared) {key : Key}
    (found : scope.find? key = some value) : value.Made declared := by
  obtain ⟨binding, taken, rfl⟩ := Option.map_eq_some_iff.mp found
  exact made binding (List.mem_of_find?_eq_some taken)

theorem mem_bindIn {key : Key} {bindings : List (Key × Value)} {binding : Key × Value}
    (inside : binding ∈ Scope.bindIn key value bindings) : binding = (key, value) ∨ binding ∈ bindings := by
  induction bindings with
  | nil => exact .inl (List.mem_singleton.mp inside)
  | cons first rest ih =>
      rw [Scope.bindIn] at inside
      split at inside
      · rcases List.mem_cons.mp inside with same | later
        · exact .inl same
        · exact .inr (List.mem_cons_of_mem _ later)
      · rcases List.mem_cons.mp inside with same | later
        · exact .inr (same ▸ List.mem_cons_self)
        · exact (ih later).imp_right (List.mem_cons_of_mem _)

theorem Scope.Made.bind (made : scope.Made declared) (key : Key) (bound : value.Made declared) :
    (scope.bind key value).Made declared := by
  intro binding inside
  rcases mem_bindIn inside with rfl | old
  · exact bound
  · exact made binding old

theorem Scope.Made.extend (made : scope.Made declared) {bindings : List (Key × Value)}
    (bound : ∀ binding ∈ bindings, binding.2.Made declared) :
    (scope.extend bindings).Made declared := by
  induction bindings generalizing scope with
  | nil => exact made
  | cons binding rest ih =>
      rw [List.forall_mem_cons] at bound
      exact ih (made.bind binding.1 bound.1) bound.2

theorem initial_made : Scope.initial.Made declared := by
  have empty : (Scope.mk [] (Scope.builtinBindings.map fun binding => .text binding.1)).Made
      declared := nofun
  refine empty.extend fun binding inside => ?_
  obtain ⟨original, listed, rfl⟩ := List.mem_map.mp inside
  rcases List.mem_cons.mp listed with rfl | listed
  · exact .number Number.pi
  · obtain ⟨builtin, -, rfl⟩ := List.mem_map.mp listed
    exact .builtin builtin

end

def Event.Made (named : Datum → Prop) (declared : Datum → List Datum → Node → Prop) : Event → Prop
  | .started _ | .finished _ => True
  | .declared name value | .assigned name value => named name ∧ value.Made declared
  | .defined name parameters => named name ∧ ∀ parameter ∈ parameters, named (.text parameter)
  | .printed value | .guarded value => value.Made declared
  | .called name arguments =>
      (∃ parameters body, declared name parameters body) ∧
        ∀ argument ∈ arguments, argument.Made declared
  | .calledBuiltin _ arguments => ∀ argument ∈ arguments, argument.Made declared

def Fault.Made (named : Datum → Prop) (declared : Datum → List Datum → Node → Prop) : Fault → Prop
  | .misuse (.notCallable callee) => callee.Made declared
  | .misuse cause => cause.Tells named
  | _ => True

/-- A computation that tells only what is made, and if it ends with a value, with one that is made. -/
structure Traced.Makes {α : Type} (named : Datum → Prop) (declared : Datum → List Datum → Node → Prop)
    (holds : α → Prop) (run : Traced α) : Prop where
  events : ∀ event ∈ run.events, event.Made named declared
  value : ∀ value, run.result = .ok value → holds value
  fault : ∀ fault, run.result = .error fault → fault.Made named declared

section

variable {α β : Type} {named : Datum → Prop} {declared : Datum → List Datum → Node → Prop}
  {holds : α → Prop} {afterwards : β → Prop}

theorem makes_pure {value : α} (holding : holds value) :
    (pure value : Traced α).Makes named declared holds :=
  ⟨List.forall_mem_nil _, fun _ same => Except.ok.inj same ▸ holding, nofun⟩

theorem makes_fail {fault : Fault} (made : fault.Made named declared) :
    (fail fault : Traced α).Makes named declared holds :=
  ⟨List.forall_mem_nil _, nofun, fun _ same => Except.error.inj same ▸ made⟩

theorem Fault.IsPlain.made {fault : Fault} (plain : fault.IsPlain named) : fault.Made named declared := by
  cases fault with
  | misuse cause =>
      cases cause with
      | notCallable callee => exact plain.elim
      | _ => exact plain
  | _ => trivial

theorem makes_ofExcept {result : Except Fault α} (plain : PlainFaults named result)
    (each : ∀ value, result = .ok value → holds value) : (ofExcept result).Makes named declared holds :=
  ⟨List.forall_mem_nil _, each, fun fault failed => (plain fault failed).made⟩

theorem makes_note (level : Nat) {event : Event} (made : event.Made named declared) :
    (note level event).Makes named declared fun _ => True := by
  refine ⟨fun told inside => ?_, fun _ _ => trivial, nofun⟩
  rw [note] at inside
  split at inside
  · exact List.mem_singleton.mp inside ▸ made
  · cases inside

theorem makes_bind {first : Traced α} {next : α → Traced β} (before : first.Makes named declared holds)
    (after : ∀ value, holds value → (next value).Makes named declared afterwards) :
    (first >>= next).Makes named declared afterwards := by
  obtain ⟨events, result⟩ := first
  obtain ⟨told, ended, failed⟩ := before
  cases result with
  | error fault => exact ⟨told, nofun, fun _ same => Except.error.inj same ▸ failed fault rfl⟩
  | ok value =>
      obtain ⟨further, last, broken⟩ := after value (ended value rfl)
      exact ⟨List.forall_mem_append.mpr ⟨told, further⟩, last, broken⟩

theorem makes_after {result : Except Fault α} {next : α → Traced β} (plain : PlainFaults named result)
    (after : ∀ value, result = .ok value → (next value).Makes named declared afterwards) :
    (ofExcept result >>= next).Makes named declared afterwards :=
  makes_bind (makes_ofExcept plain fun _ ended => ended) after

theorem made_of_outcome {result : Except Fault Value} {outcome : Outcome Value}
    (known : result = outcome.result) (sound : ∀ value, outcome = .ok value → value.Made declared)
    (value : Value) (ended : result = .ok value) : value.Made declared := by
  subst known
  cases outcome with
  | ok other => exact Except.ok.inj ended ▸ sound other rfl
  | error misuse => cases ended

theorem unaryResult_made (operator : Datum) (operand : Value) :
    ∀ value, unaryResult operator operand = .ok value → value.Made declared := by
  obtain ⟨outcome, rule⟩ := unaryRule_total operator operand
  refine made_of_outcome (unaryResult_of_rule rule) ?_
  rintro value rfl
  cases rule with
  | negate number => exact .number _
  | invert truth => exact .boolean _

theorem binaryResult_made (operator : Datum) (left right : Value) :
    ∀ value, binaryResult operator left right = .ok value → value.Made declared := by
  obtain ⟨outcome, rule⟩ := binaryRule_total operator left right
  refine made_of_outcome (binaryResult_of_rule rule) ?_
  rintro value rfl
  cases rule with
  | numbers rule =>
      cases rule with
      | greater | less | greaterOrEqual | lessOrEqual | equal | notEqual => exact .boolean _
      | _ => exact .number _
  | conjunction | disjunction => exact .boolean _

theorem subscriptResult_made {array : Value} (subscript : Value) (made : array.Made declared) :
    ∀ value, subscriptResult array subscript = .ok value → value.Made declared := by
  obtain ⟨outcome, rule⟩ := subscriptRule_total array subscript
  refine made_of_outcome (subscriptResult_of_rule rule) ?_
  rintro value rfl
  cases rule with
  | item whole found =>
      cases made with
      | array each => exact each _ (List.mem_of_getElem? found)

theorem builtinResult_made (builtin : Builtin) (arguments : List Value) :
    ∀ value, builtinResult builtin arguments = .ok value → value.Made declared := by
  intro value ended
  rw [builtinResult] at ended
  cases given : numbersOf builtin arguments with
  | error fault => simp [given] at ended
  | ok numbers =>
      rw [given, ok_bind] at ended
      cases computed : builtin.compute numbers with
      | error refusal =>
          rw [computed] at ended
          cases ended
      | ok number =>
          rw [computed] at ended
          exact Except.ok.inj ended ▸ .number number

theorem numeralValue_made (datum : Datum) :
    ∀ value, (numeralValue datum).map Value.number = .ok value → value.Made declared := by
  intro value ended
  cases read : numeralValue datum with
  | error fault =>
      rw [read] at ended
      cases ended
  | ok number =>
      rw [read] at ended
      exact Except.ok.inj ended ▸ .number number

theorem get_made {scope : Scope} (made : scope.Made declared) (name : Datum) :
    ∀ value, scope.get name = .ok value → value.Made declared := by
  intro value ended
  cases known : name.key? with
  | none =>
      rw [Scope.get_unnamed known] at ended
      cases ended
  | some key =>
      cases found : scope.find? key with
      | none =>
          rw [Scope.get_unbound known found] at ended
          cases ended
      | some bound =>
          rw [Scope.get_bound known found] at ended
          exact Except.ok.inj ended ▸ made.found found

end

section

variable {named : Datum → Prop} {declared : Datum → List Datum → Node → Prop} {scope : Scope}
  {apply : Application}

mutual

theorem evaluate_makes (applied : ∀ function arguments, function.Made declared →
      (∀ argument ∈ arguments, argument.Made declared) →
      (apply function arguments scope).Makes named declared (Value.Made declared))
    (made : scope.Made declared) :
    ∀ node : Node, node.Within (keysOf named) →
      (evaluate apply scope node).Makes named declared (Value.Made declared)
  | .numeral value, _ => by
      rw [evaluate]
      exact makes_ofExcept (plain_map (numeral_plain value) _) (numeralValue_made value)
  | .booleanLiteral value, _ => by
      rw [evaluate]
      exact makes_pure (.boolean value)
  | .identifier name, within => by
      rw [evaluate]
      exact makes_ofExcept (get_plain (nameOf_named within rfl) scope) (get_made made name)
  | .unaryExpression operator expression, within => by
      rw [evaluate]
      exact makes_bind (evaluate_makes applied made expression within) fun operand _ =>
        makes_ofExcept (unary_plain operator operand) (unaryResult_made operator operand)
  | .binaryExpression operator left right, within => by
      rw [evaluate]
      obtain ⟨first, second⟩ := List.forall_mem_append.mp within
      exact makes_bind (evaluate_makes applied made left first) fun leftValue _ =>
        makes_bind (evaluate_makes applied made right second) fun rightValue _ =>
          makes_ofExcept (binary_plain operator leftValue rightValue)
            (binaryResult_made operator leftValue rightValue)
  | .conditionalExpression test positive negative, within => by
      rw [evaluate]
      obtain ⟨before, last⟩ := List.forall_mem_append.mp within
      obtain ⟨first, second⟩ := List.forall_mem_append.mp before
      refine makes_bind (evaluate_makes applied made test first) fun value _ => ?_
      split
      · exact evaluate_makes applied made positive second
      · exact evaluate_makes applied made negative last
      · exact makes_fail trivial
  | .arrayLiteral elements, within => by
      rw [evaluate]
      exact makes_bind (evaluateAll_makes applied made elements within) fun items each =>
        makes_pure (.array each)
  | .subscriptExpression array subscript, within => by
      rw [evaluate]
      obtain ⟨first, second⟩ := List.forall_mem_append.mp within
      exact makes_bind (evaluate_makes applied made array first) fun arrayValue whole =>
        makes_bind (evaluate_makes applied made subscript second) fun subscriptValue _ =>
          makes_ofExcept (subscript_plain arrayValue subscriptValue)
            (subscriptResult_made subscriptValue whole)
  | .call callee arguments, within => by
      rw [evaluate]
      obtain ⟨first, others⟩ := List.forall_mem_append.mp within
      cases called : callee.name? with
      | none => exact makes_fail trivial
      | some name =>
          refine makes_after (keyOf_plain name) fun key keyed => ?_
          refine makes_bind (evaluateAll_makes applied made arguments others) fun values each => ?_
          cases found : scope.find? key with
          | none =>
              have known : nameOf callee = .ok name := by rw [nameOf, called]
              exact makes_fail (nameOf_named first known key (Scope.keyOf_ok keyed))
          | some function => exact applied function values (made.found found) each
  | .variableDeclaration _ _, _ | .functionDeclaration _ _ _, _ | .assignment _ _, _
  | .printStatement _, _ | .whileStatement _ _, _ | .block _, _ | .program _, _ => by
      simp only [evaluate]
      exact makes_fail trivial

theorem evaluateAll_makes (applied : ∀ function arguments, function.Made declared →
      (∀ argument ∈ arguments, argument.Made declared) →
      (apply function arguments scope).Makes named declared (Value.Made declared))
    (made : scope.Made declared) :
    ∀ nodes : List Node, (∀ key ∈ namesOfAll nodes, key ∈ keysOf named) →
      (evaluateAll apply scope nodes).Makes named declared fun values =>
        ∀ value ∈ values, value.Made declared
  | [], _ => by
      rw [evaluateAll]
      exact makes_pure (List.forall_mem_nil _)
  | node :: rest, within => by
      rw [evaluateAll]
      obtain ⟨here, after⟩ := List.forall_mem_append.mp within
      exact makes_bind (evaluate_makes applied made node here) fun value first =>
        makes_bind (evaluateAll_makes applied made rest after) fun values others =>
          makes_pure (List.forall_mem_cons.mpr ⟨first, others⟩)

end

theorem applyFunction_makes (level depth : Nat)
    (told : ∀ name parameters body, declared name parameters body →
      named name ∧ body.Within (keysOf named))
    {function : Value} {arguments : List Value} (made : scope.Made declared)
    (callee : function.Made declared) (each : ∀ argument ∈ arguments, argument.Made declared) :
    (applyFunction level depth function arguments scope).Makes named declared (Value.Made declared) := by
  induction depth using Nat.strongRecOn generalizing function arguments scope with
  | ind depth ih =>
      have called : Fault.Made named declared (.misuse (.notCallable function)) := callee
      cases callee with
      | builtin builtin =>
          rw [applyFunction]
          refine makes_after (checkArity_plain _ _ (.inr ⟨builtin, rfl⟩)) fun _ _ => ?_
          exact makes_bind (makes_note level each) fun _ _ =>
            makes_ofExcept (builtin_plain builtin arguments) (builtinResult_made builtin arguments)
      | @function name parameters body known =>
          obtain ⟨spoken, within⟩ := told name parameters body known
          rw [applyFunction]
          refine makes_after (checkArity_plain _ _ (.inl spoken)) fun _ checked => ?_
          have fits := checkArity_length checked
          refine makes_bind (makes_note level ⟨⟨parameters, body, known⟩, each⟩) fun _ _ => ?_
          refine makes_after (bindParameters_plain fits) fun bindings bound => ?_
          cases depth with
          | zero => exact makes_fail trivial
          | succ depth =>
              have inner : (scope.extend bindings).Made declared :=
                made.extend fun binding inside =>
                  each _ ((bindParameters_ok fits bound).2 binding inside)
              exact evaluate_makes (fun _ _ => ih depth (Nat.lt_succ_self depth) inner) inner body within
      | number | boolean | array =>
          rw [applyFunction]
          · exact makes_fail called
          · simp
          · simp

end

section

variable {declared : Datum → List Datum → Node → Prop}

theorem Activity.Made.result {activity : Activity} (made : activity.Made declared) {level : Nat}
    {value : Value} (ended : activity.result level = .ok value) : value.Made declared := by
  have within (node : Node) : node.Within (keysOf fun _ => True) := fun _ _ _ _ => trivial
  have told (name : Datum) (parameters : List Datum) (body : Node) (_ : declared name parameters body) :
      True ∧ body.Within (keysOf fun _ => True) := ⟨trivial, within body⟩
  cases activity with
  | evaluation depth scope node =>
      have makes : (evaluate (applyFunction level depth) scope node).Makes (fun _ => True) declared
          (Value.Made declared) :=
        evaluate_makes (fun _ _ => applyFunction_makes level depth told made) made node (within node)
      exact makes.value value ended
  | application depth function arguments scope =>
      obtain ⟨callee, each, inScope⟩ := made
      have makes : (applyFunction level depth function arguments scope).Makes (fun _ => True) declared
          (Value.Made declared) :=
        applyFunction_makes level depth told inScope callee each
      exact makes.value value ended

theorem Activity.Made.starts {level : Nat} {activity next : Activity} (made : activity.Made declared)
    (start : activity.Starts level next) : next.Made declared := by
  cases start with
  | operand | consequent | alternate => exact made
  | @call depth scope name key nodes arguments function named given found =>
      refine ⟨Scope.Made.found made found, ?_, made⟩
      obtain ⟨length, each⟩ := List.forall₂_iff_get.mp given
      intro argument inside
      obtain ⟨index, rfl⟩ := List.mem_iff_get.mp inside
      have bound : index < nodes.length := length.symm ▸ index.isLt
      have operand : (evaluation depth scope (nodes.get ⟨index, bound⟩)).Made declared := made
      exact operand.result (each index bound index.isLt)
  | body fits bound =>
      obtain ⟨-, each, inScope⟩ := made
      exact inScope.extend fun binding inside =>
        each _ ((bindParameters_ok fits bound).2 binding inside)

theorem Activity.Made.leads {level : Nat} {activity later : Activity} (made : activity.Made declared)
    (leads : activity.LeadsTo level later) : later.Made declared := by
  induction leads with
  | refl => exact made
  | tail _ start ih => exact ih.starts start

end

end Bella
