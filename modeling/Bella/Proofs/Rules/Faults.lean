import Bella.Proofs.Names
import Bella.Proofs.Rules.Parameters
import Bella.Proofs.Rules.Primitive

/-! The faults of the operations. Each of them refuses its operands, whatever the budget is, and tells of no
other names than it is given. -/

namespace Bella

/-- The names in the message of a misuse. A value that is called has a text, and no name. -/
def Misuse.Tells (named : Datum → Prop) : Misuse → Prop
  | .unbound name | .alreadyDeclared name | .assignedFunction name | .assignedConstant name => named name
  | .wrongArity callee _ _ => named callee ∨ ∃ builtin : Builtin, callee = .text builtin.name
  | .repeatedParameter parameter function => named parameter ∧ named function
  | .notCallable _ => False
  | _ => True

/-- A fault that comes of the operands alone, as the faults of all operations do: nothing is spent, and
nothing is called. -/
def Fault.IsPlain (named : Datum → Prop) : Fault → Prop
  | .recursionTooDeep | .loopTooLong => False
  | .misuse cause => cause.Tells named
  | _ => True

def PlainFaults {α : Type} (named : Datum → Prop) (result : Except Fault α) : Prop :=
  ∀ fault, result = .error fault → fault.IsPlain named

/-- The keys of which every name is one that may be told. -/
def keysOf (named : Datum → Prop) : Set Key :=
  {key | ∀ name : Datum, name.key? = some key → named name}

section

variable {α β : Type} {named : Datum → Prop}

theorem plain_ok (value : α) : PlainFaults named (.ok value) :=
  nofun

theorem plain_error {fault : Fault} (plain : fault.IsPlain named) :
    PlainFaults named (.error fault : Except Fault α) :=
  fun _ same => Except.error.inj same ▸ plain

theorem plain_bind {first : Except Fault α} {next : α → Except Fault β}
    (before : PlainFaults named first) (after : ∀ value, first = .ok value → PlainFaults named (next value)) :
    PlainFaults named (first >>= next) := by
  cases first with
  | ok value => exact after value rfl
  | error fault => exact plain_error (before fault rfl)

theorem plain_map {result : Except Fault α} (plain : PlainFaults named result) (after : α → β) :
    PlainFaults named (result.map after) := by
  cases result with
  | ok value => exact plain_ok _
  | error fault => exact plain_error (plain fault rfl)

theorem unary_plain (operator : Datum) (operand : Value) :
    PlainFaults named (unaryResult operator operand) := by
  obtain ⟨outcome, rule⟩ := unaryRule_total operator operand
  rw [unaryResult_of_rule rule]
  cases rule with
  | negate | invert => exact plain_ok _
  | negateMismatch | invertMismatch | unknown => exact plain_error trivial

theorem binary_plain (operator : Datum) (left right : Value) :
    PlainFaults named (binaryResult operator left right) := by
  obtain ⟨outcome, rule⟩ := binaryRule_total operator left right
  rw [binaryResult_of_rule rule]
  cases rule with
  | numbers rule =>
      cases rule with
      | divideByZero zero => exact plain_error trivial
      | _ => exact plain_ok _
  | conjunction | disjunction => exact plain_ok _
  | numericMismatch | booleanMismatch | unknown => exact plain_error trivial

theorem subscript_plain (array subscript : Value) :
    PlainFaults named (subscriptResult array subscript) := by
  obtain ⟨outcome, rule⟩ := subscriptRule_total array subscript
  rw [subscriptResult_of_rule rule]
  cases rule with
  | item => exact plain_ok _
  | outOfBounds | subscriptMismatch | arrayMismatch => exact plain_error trivial

theorem numeral_plain (datum : Datum) : PlainFaults named (numeralValue datum) := by
  cases datum with
  | integer value =>
      rw [numeralValue]
      cases Number.ofInt value with
      | infinite negative => exact plain_error trivial
      | nan | finite negative rank => exact plain_ok _
  | text value =>
      rw [numeralValue]
      split
      · exact plain_ok _
      · exact plain_error trivial
  | real value | boolean value | labelledNan label => exact plain_ok _
  | null | list items | object entries => exact plain_error trivial

theorem numbersOf_plain (builtin : Builtin) (arguments : List Value) :
    PlainFaults named (numbersOf builtin arguments) := by
  induction arguments with
  | nil => exact plain_ok _
  | cons argument rest ih =>
      cases argument with
      | number value => exact plain_map ih _
      | _ => exact plain_error trivial

theorem builtin_plain (builtin : Builtin) (arguments : List Value) :
    PlainFaults named (builtinResult builtin arguments) := by
  refine plain_bind (numbersOf_plain builtin arguments) fun numbers _ => ?_
  cases builtin.compute numbers with
  | ok value => exact plain_ok _
  | error refusal => exact plain_error trivial

theorem keyOf_plain (name : Datum) : PlainFaults named (Scope.keyOf name) := by
  rw [Scope.keyOf]
  split
  · exact plain_ok _
  · exact plain_error trivial

theorem nameOf_plain (node : Node) : PlainFaults named (nameOf node) := by
  rw [nameOf]
  split
  · exact plain_ok _
  · exact plain_error trivial

theorem checkArity_plain {callee : Datum} (expected given : Nat)
    (known : named callee ∨ ∃ builtin : Builtin, callee = .text builtin.name) :
    PlainFaults named (checkArity callee expected given) := by
  rw [checkArity]
  split
  · exact plain_ok _
  · exact plain_error known

theorem bindParameters_plain {parameters : List Datum} {arguments : List Value}
    (fits : arguments.length = parameters.length) :
    PlainFaults named (bindParameters parameters arguments) := by
  rcases bindParameters_cases fits with ⟨keys, known⟩ | refused
  · rw [bindParameters_named fits known]
    exact plain_ok _
  · rw [refused]
    exact plain_error trivial

theorem parameterTexts_plain (parameters : List Datum) :
    PlainFaults named (parameterTexts parameters) := by
  induction parameters with
  | nil => exact plain_ok _
  | cons parameter rest ih =>
      cases parameter with
      | text name => exact plain_map ih _
      | _ => exact plain_error trivial

section

variable {name : Datum} (known : ∀ key, name.key? = some key → named name)

include known

theorem get_plain (scope : Scope) : PlainFaults named (scope.get name) := by
  refine plain_bind (keyOf_plain name) fun key keyed => ?_
  split
  · exact plain_ok _
  · exact plain_error (known key (Scope.keyOf_ok keyed))

theorem mayDeclare_plain (scope : Scope) : PlainFaults named (scope.mayDeclare name) := by
  refine plain_bind (keyOf_plain name) fun key keyed => ?_
  split
  · exact plain_error (known key (Scope.keyOf_ok keyed))
  · exact plain_ok _

theorem mayAssign_plain (scope : Scope) : PlainFaults named (scope.mayAssign name) := by
  refine plain_bind (keyOf_plain name) fun key keyed => ?_
  have told := known key (Scope.keyOf_ok keyed)
  split
  · exact plain_error told
  · split
    · exact plain_error told
    · split
      · exact plain_error told
      · exact plain_ok _

theorem declare_plain (scope : Scope) (value : Value) : PlainFaults named (scope.declare name value) :=
  plain_bind (mayDeclare_plain known scope) fun _ _ =>
    plain_bind (keyOf_plain name) fun _ _ => plain_ok _

theorem assign_plain (scope : Scope) (value : Value) : PlainFaults named (scope.assign name value) :=
  plain_bind (mayAssign_plain known scope) fun _ _ =>
    plain_bind (keyOf_plain name) fun _ _ => plain_ok _

end

theorem nameOf_named {node : Node} {name : Datum} (within : node.Within (keysOf named))
    (found : nameOf node = .ok name) : ∀ key, name.key? = some key → named name := by
  intro key known
  obtain rfl := nameOf_ok found
  exact within key (by simp [Node.names, known]) name known

theorem parameterNames_plain {function : Datum} (told : named function) (seen : List Key)
    {parameters : List Node} (within : ∀ parameter ∈ parameters, parameter.Within (keysOf named)) :
    PlainFaults named (parameterNames function seen parameters) := by
  induction parameters generalizing seen with
  | nil => exact plain_ok _
  | cons parameter rest ih =>
      obtain ⟨first, others⟩ := List.forall_mem_cons.mp within
      rw [parameterNames]
      refine plain_bind (nameOf_plain parameter) fun name found => ?_
      refine plain_bind (keyOf_plain name) fun key keyed => ?_
      split
      · exact plain_error ⟨nameOf_named first found key (Scope.keyOf_ok keyed), told⟩
      · exact plain_bind (ih _ others) fun _ _ => plain_ok _

end

end Bella
