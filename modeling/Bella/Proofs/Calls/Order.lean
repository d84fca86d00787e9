import Bella.Proofs.LexicalScope
import Bella.Proofs.Origin.Functions

/-! Calls in the order of declarations. If every body calls only what is declared before its function,
and no parameter stands in the way, then a call leads only to calls of functions that are declared
earlier still. Main statement: along a run no more calls are nested than functions have been declared. -/

namespace Bella

mutual

def Node.hasLoop : Node → Bool
  | .whileStatement _ _ => true
  | .block statements => anyHasLoop statements
  | .program block => block.hasLoop
  | _ => false

def anyHasLoop : List Node → Bool
  | [] => false
  | node :: rest => node.hasLoop || anyHasLoop rest

end

mutual

def Node.callees : Node → List Key
  | .unaryExpression _ expression => expression.callees
  | .binaryExpression _ left right => left.callees ++ right.callees
  | .conditionalExpression test consequent alternate =>
      test.callees ++ consequent.callees ++ alternate.callees
  | .arrayLiteral elements => calleesOfAll elements
  | .subscriptExpression array subscript => array.callees ++ subscript.callees
  | .call callee arguments => (callee.name?.bind Datum.key?).toList ++ calleesOfAll arguments
  | _ => []

def calleesOfAll : List Node → List Key
  | [] => []
  | node :: rest => node.callees ++ calleesOfAll rest

end

namespace Value

def callees : Value → List Key
  | .function _ _ body => body.callees
  | _ => []

def declaredKey? : Value → Option Key
  | .function name _ _ => name.key?
  | _ => none

end Value

def IsBuiltinKey (key : Key) : Prop :=
  ∃ binding ∈ Scope.builtinBindings, key = .text binding.1

instance (key : Key) : Decidable (IsBuiltinKey key) :=
  inferInstanceAs (Decidable (∃ binding ∈ Scope.builtinBindings, key = .text binding.1))

section

variable (functions : List Value)

def CallsEarlier : Prop :=
  ∀ index : Fin functions.length, ∀ key ∈ functions[index].callees,
    IsBuiltinKey key ∨ ∃ other ∈ functions.take index, other.declaredKey? = some key

def Unhidden : Prop :=
  ∀ function ∈ functions, ∀ key ∈ function.callees, ∀ other ∈ functions,
    key ∉ other.parameterKeys

instance : Decidable (CallsEarlier functions) :=
  inferInstanceAs (Decidable (∀ index : Fin functions.length, ∀ key ∈ functions[index].callees,
    IsBuiltinKey key ∨ ∃ other ∈ functions.take index, other.declaredKey? = some key))

instance : Decidable (Unhidden functions) :=
  inferInstanceAs (Decidable (∀ function ∈ functions, ∀ key ∈ function.callees,
    ∀ other ∈ functions, key ∉ other.parameterKeys))

end

/-- There are no loops, and each function calls only what is declared before it, under names that are
not parameters of any function. -/
structure IsLayered (program : Node) : Prop where
  loopless : program.hasLoop = false
  earlier : CallsEarlier program.functions
  unhidden : Unhidden program.functions

instance (program : Node) : Decidable (IsLayered program) :=
  decidable_of_iff
    (program.hasLoop = false ∧ CallsEarlier program.functions ∧ Unhidden program.functions)
    ⟨fun ⟨loopless, earlier, unhidden⟩ => ⟨loopless, earlier, unhidden⟩,
      fun ⟨loopless, earlier, unhidden⟩ => ⟨loopless, earlier, unhidden⟩⟩

def Scope.Reaches (scope : Scope) (keys : List Key) (limit : List Value) : Prop :=
  ∀ key ∈ keys, ∀ name parameters body,
    scope.find? key = some (.function name parameters body) →
      .function name parameters body ∈ limit

section

variable (functions : List Value)

def Scope.Descends (scope : Scope) : Prop :=
  ∀ before function after, functions = before ++ function :: after →
    scope.Reaches function.callees before

/-- What an activity may still call are functions of the limit; a call itself is of the first function
behind it. -/
def Activity.Descends (limit : List Value) : Activity → Prop
  | .evaluation _ scope node => scope.Descends functions ∧ scope.Reaches node.callees limit
  | .application _ (.function name parameters body) _ scope =>
      scope.Descends functions ∧ ∃ after, functions = limit ++ .function name parameters body :: after
  | .application _ _ _ scope => scope.Descends functions

end

def Activity.calls : Activity → Nat
  | .application _ (.function _ _ _) _ _ => 1
  | _ => 0

/-- An activity on the way inside of another, with so many calls of declared functions from the one to
the other. -/
inductive Activity.Nests (level : Nat) (first : Activity) : Nat → Activity → Prop
  | here : Nests level first 0 first
  | step {calls : Nat} {activity next : Activity} (before : Nests level first calls activity)
      (starts : activity.Starts level next) : Nests level first (calls + next.calls) next

section

variable {functions limit before after : List Value} {scope : Scope}

theorem anyHasLoop_append (first second : List Node) :
    anyHasLoop (first ++ second) = (anyHasLoop first || anyHasLoop second) := by
  induction first with
  | nil => rfl
  | cons node rest ih => rw [List.cons_append, anyHasLoop, anyHasLoop, ih, Bool.or_assoc]

theorem functionsOfAll_append (first second : List Node) :
    functionsOfAll (first ++ second) = functionsOfAll first ++ functionsOfAll second := by
  induction first with
  | nil => rfl
  | cons node rest ih => rw [List.cons_append, functionsOfAll, functionsOfAll, ih, List.append_assoc]

theorem mem_calleesOfAll {nodes : List Node} {node : Node} {key : Key} (inside : node ∈ nodes)
    (called : key ∈ node.callees) : key ∈ calleesOfAll nodes := by
  induction nodes with
  | nil => cases inside
  | cons first rest ih =>
      rw [calleesOfAll, List.mem_append]
      rcases List.mem_cons.mp inside with rfl | later
      · exact .inl called
      · exact .inr (ih later)

theorem mem_callees_of_operand {node operand : Node} {key : Key} (inside : operand ∈ node.operands)
    (called : key ∈ operand.callees) : key ∈ node.callees := by
  cases node with
  | unaryExpression operator expression =>
      obtain rfl := List.mem_singleton.mp inside
      exact called
  | binaryExpression operator left right | subscriptExpression left right =>
      rw [Node.callees, List.mem_append]
      rcases List.mem_pair.mp inside with rfl | rfl
      · exact .inl called
      · exact .inr called
  | conditionalExpression test consequent alternate =>
      obtain rfl := List.mem_singleton.mp inside
      exact List.mem_append_left _ (List.mem_append_left _ called)
  | arrayLiteral elements => exact mem_calleesOfAll inside called
  | call callee arguments =>
      cases callee with
      | identifier name =>
          rw [Node.operands] at inside
          split at inside
          · exact List.mem_append_right _ (mem_calleesOfAll inside called)
          · cases inside
      | _ => cases inside
  | _ => cases inside

theorem Scope.Reaches.mono {keys fewer : List Key} {more : List Value} (reaches : scope.Reaches keys limit)
    (within : ∀ key ∈ fewer, key ∈ keys) (wider : ∀ function ∈ limit, function ∈ more) :
    scope.Reaches fewer more :=
  fun key called name parameters body found =>
    wider _ (reaches key (within key called) name parameters body found)

theorem Scope.Reaches.callee {keys : List Key} (reaches : scope.Reaches keys limit) {key : Key}
    (called : key ∈ keys) {function : Value} (found : scope.find? key = some function)
    (name : Datum) (parameters : List Datum) (body : Node)
    (declared : function = .function name parameters body) : function ∈ limit := by
  subst declared
  exact reaches key called name parameters body found

theorem Scope.Reaches.extend {keys : List Key} {bindings : List (Key × Value)}
    (reaches : scope.Reaches keys limit) (absent : ∀ key ∈ keys, key ∉ bindings.map (·.1)) :
    (scope.extend bindings).Reaches keys limit := by
  intro key called name parameters body found
  rw [Scope.find?_extend_absent scope (absent key called)] at found
  exact reaches key called name parameters body found

theorem Scope.Descends.extend (descends : scope.Descends functions) (unhidden : Unhidden functions)
    {name : Datum} {parameters : List Datum} {body : Node} {arguments : List Value}
    {bindings : List (Key × Value)}
    (split : functions = before ++ .function name parameters body :: after)
    (fits : arguments.length = parameters.length)
    (bound : bindParameters parameters arguments = .ok bindings) :
    (scope.extend bindings).Descends functions ∧ (scope.extend bindings).Reaches body.callees before := by
  have keys : bindings.map (·.1) = (Value.function name parameters body).parameterKeys :=
    (bindParameters_ok fits bound).1
  have own : Value.function name parameters body ∈ functions :=
    split ▸ List.mem_append_right _ List.mem_cons_self
  have absent (function : Value) (inside : function ∈ functions) :
      ∀ key ∈ function.callees, key ∉ bindings.map (·.1) :=
    fun key called => keys ▸ unhidden function inside key called _ own
  refine ⟨fun earlier function later parts => ?_, ?_⟩
  · exact (descends earlier function later parts).extend
      (absent function (parts ▸ List.mem_append_right _ List.mem_cons_self))
  · exact (descends before _ after split).extend (absent _ own)

variable {level : Nat} {activity next : Activity}

/-- An activity starts only what may still call less, and a call takes one function off. -/
theorem Activity.Descends.starts (unhidden : Unhidden functions) (prior : limit <+: functions)
    (descends : activity.Descends functions limit) (starts : activity.Starts level next) :
    ∃ lower, lower <+: functions ∧ next.Descends functions lower ∧
      next.calls + lower.length ≤ limit.length := by
  have narrower {depth other : Nat} {scope : Scope} {node part : Node}
      (descends : (Activity.evaluation depth scope node).Descends functions limit)
      (within : ∀ key ∈ part.callees, key ∈ node.callees) :
      (Activity.evaluation other scope part).Descends functions limit :=
    ⟨descends.1, descends.2.mono within fun _ same => same⟩
  have idle {depth : Nat} {scope : Scope} {node : Node} :
      (Activity.evaluation depth scope node).calls + limit.length ≤ limit.length := by
    simp [Activity.calls]
  cases starts with
  | operand split ended =>
      have inside := split ▸ List.mem_append_right _ List.mem_cons_self
      exact ⟨limit, prior, narrower descends fun key => mem_callees_of_operand inside, idle⟩
  | consequent tested =>
      exact ⟨limit, prior, narrower descends fun key called =>
        List.mem_append_left _ (List.mem_append_right _ called), idle⟩
  | alternate tested =>
      exact ⟨limit, prior, narrower descends fun key called => List.mem_append_right _ called, idle⟩
  | @call depth scope name key nodes arguments function named given found =>
      have called : key ∈ (Node.call (.identifier name) nodes).callees := by
        simp [Node.callees, Node.name?, named]
      obtain ⟨descends, reaches⟩ := descends
      cases function with
      | function name parameters body =>
          obtain ⟨before, after, rfl⟩ :=
            List.append_of_mem (reaches key called name parameters body found)
          obtain ⟨rest, rfl⟩ := prior
          refine ⟨before, ?_, ⟨descends, after ++ rest, ?_⟩, ?_⟩
          · rw [List.append_assoc]
            exact List.prefix_append _ _
          · rw [List.append_assoc, List.cons_append]
          · rw [Activity.calls, List.length_append, List.length_cons]
            omega
      | _ => exact ⟨limit, prior, descends, by simp [Activity.calls]⟩
  | body fits bound =>
      obtain ⟨descends, after, split⟩ := descends
      exact ⟨limit, prior, descends.extend unhidden split fits bound, idle⟩

theorem Activity.Nests.bounded {first : Activity} {calls : Nat} (unhidden : Unhidden functions)
    (descends : first.Descends functions functions) (nests : first.Nests level calls activity) :
    calls ≤ functions.length := by
  have lower : ∃ lower, lower <+: functions ∧ activity.Descends functions lower ∧
      calls + lower.length ≤ functions.length := by
    induction nests with
    | here => exact ⟨functions, List.prefix_refl _, descends, by omega⟩
    | step _ starts ih =>
        obtain ⟨limit, prior, below, fewer⟩ := ih
        obtain ⟨lower, within, further, less⟩ := below.starts unhidden prior starts
        exact ⟨lower, within, further, by omega⟩
  obtain ⟨lower, -, -, fewer⟩ := lower
  omega

end

section

variable {level : Nat} {budget : Budget} {line : List Node} {start moment earlier later : Moment}

theorem Advances.functions (advances : Advances level budget earlier later)
    (loopless : anyHasLoop earlier.pending = false) :
    functionsOfAll earlier.pending = functionsOfAll earlier.next ++ functionsOfAll later.pending ∧
      anyHasLoop later.pending = false := by
  cases advances with
  | statement simple executed =>
      rw [anyHasLoop, Bool.or_eq_false_iff] at loopless
      refine ⟨?_, loopless.2⟩
      rw [Moment.next_simple simple, functionsOfAll, functionsOfAll, functionsOfAll, List.append_nil]
  | block =>
      rw [anyHasLoop, Bool.or_eq_false_iff] at loopless
      refine ⟨(functionsOfAll_append _ _).symm, ?_⟩
      rw [anyHasLoop_append, Bool.or_eq_false_iff]
      exact loopless
  | turn tested | leave tested untrue => cases loopless

/-- Without loops the functions of the executed statements and of those still pending are all that
there are. -/
theorem Arrives.functions (arrives : Arrives level budget start line moment)
    (loopless : anyHasLoop start.pending = false) :
    functionsOfAll start.pending = functionsOfAll line ++ functionsOfAll moment.pending ∧
      anyHasLoop moment.pending = false := by
  induction arrives with
  | here => exact ⟨rfl, loopless⟩
  | step _ advances ih =>
      obtain ⟨split, loopless⟩ := ih
      obtain ⟨next, further⟩ := advances.functions loopless
      exact ⟨by rw [split, next, functionsOfAll_append, List.append_assoc], further⟩

theorem Arrives.leads (arrives : Arrives level budget start line moment) :
    LeadsTo level budget start moment := by
  induction arrives with
  | here => exact .refl
  | step _ advances ih => exact ih.tail advances

theorem functions_declaration (name : Datum) (parameters : List Datum) (body : Node) :
    (Node.functionDeclaration (.identifier name) (parameters.map .identifier) body).functions =
      [.function name parameters body] := by
  have names : (parameters.map Node.identifier).filterMap Node.name? = parameters := by
    rw [List.filterMap_map]
    exact List.filterMap_some
  rw [Node.functions, names]
  rfl

theorem mem_functionsOfAll_of_mem {nodes : List Node} {node : Node} (inside : node ∈ nodes)
    {function : Value} (declared : function ∈ node.functions) : function ∈ functionsOfAll nodes := by
  obtain ⟨before, after, rfl⟩ := List.append_of_mem inside
  rw [functionsOfAll_append, functionsOfAll]
  exact List.mem_append_right _ (List.mem_append_left _ declared)

theorem mem_functionsOfAll_of_declared {name : Datum} {parameters : List Datum} {body : Node}
    (declared : DeclaredBy line name parameters body) :
    .function name parameters body ∈ functionsOfAll line := by
  refine mem_functionsOfAll_of_mem declared.1 ?_
  rw [functions_declaration]
  exact List.mem_singleton_self _

theorem binds_functions {statement : Node} {state next : State}
    (simple : statement.isCompound = false)
    (executed : (execute level budget statement state).result = .ok next) :
    ∀ function ∈ statement.functions, ∀ key, function.declaredKey? = some key →
      next.scope.find? key = some function := by
  cases statement with
  | functionDeclaration id parameters body =>
      obtain ⟨name, key, names, rfl, keyed, -, written, -, rfl⟩ := definition_ok_iff.mp executed
      obtain rfl := parameterNames_ok written
      rw [functions_declaration]
      intro function inside other declared
      obtain rfl := List.mem_singleton.mp inside
      obtain rfl : key = other := Option.some.inj (keyed.symm.trans declared)
      rw [Scope.find?_bind, if_pos rfl]
  | program block => cases executed
  | whileStatement test body => cases simple
  | block statements => cases simple
  | _ => exact nofun

theorem isFunction_of_mem {nodes : List Node} {function : Value}
    (inside : function ∈ functionsOfAll nodes) : function.isFunction = true := by
  obtain ⟨id, parameters, body, rfl, -⟩ := mem_functionsOfAll nodes function inside
  rfl

theorem Arrives.bound (arrives : Arrives level budget start line moment) :
    ∀ function ∈ functionsOfAll line, ∀ key, function.declaredKey? = some key →
      moment.state.scope.find? key = some function := by
  induction arrives with
  | here => exact nofun
  | @step line earlier later _ advances ih =>
      intro function inside key declared
      rw [functionsOfAll_append, List.mem_append] at inside
      rcases inside with before | now
      · exact advances.continues.1.fixed key function (ih function before key declared)
          (.inr (isFunction_of_mem before))
      · cases advances with
        | statement simple executed =>
            rw [Moment.next_simple simple, functionsOfAll, functionsOfAll, List.append_nil] at now
            exact binds_functions simple executed function now key declared
        | block | turn tested | leave tested untrue =>
            simp [Moment.next, Node.isCompound, functionsOfAll] at now

theorem IsLayered.of_split {program : Node} (layered : IsLayered program)
    {before after : List Value} {function : Value} (split : program.functions = before ++ function :: after) :
    ∀ key ∈ function.callees, IsBuiltinKey key ∨ ∃ other ∈ before, other.declaredKey? = some key := by
  have within : before.length < program.functions.length := by
    rw [split, List.length_append, List.length_cons]
    omega
  have own : program.functions[before.length] = function := by
    simp only [split, List.getElem_append_right (Nat.le_refl _), Nat.sub_self, List.getElem_cons_zero]
  have prior : program.functions.take before.length = before := by
    rw [split, List.take_left]
  have earlier := layered.earlier ⟨before.length, within⟩
  simp only [Fin.getElem_fin, own, prior] at earlier
  exact earlier

theorem builtin_ne_function {binding : String × Value} (listed : binding ∈ Scope.builtinBindings)
    (name : Datum) (parameters : List Datum) (body : Node) :
    binding.2 ≠ .function name parameters body := by
  rcases List.mem_cons.mp listed with rfl | listed
  · exact nofun
  · obtain ⟨builtin, -, rfl⟩ := List.mem_map.mp listed
    exact nofun

variable {statements : List Node}

/-- At each moment the functions declared so far call only each other, in their order, and there are no
others in scope. -/
theorem Arrives.descends (layered : IsLayered (.program (.block statements)))
    (arrives : Arrives level budget ⟨statements, ⟨.initial, []⟩⟩ line moment) :
    functionsOfAll line <+: functionsOfAll statements ∧ Unhidden (functionsOfAll line) ∧
      moment.state.scope.Descends (functionsOfAll line) ∧
      ∀ keys, moment.state.scope.Reaches keys (functionsOfAll line) := by
  obtain ⟨split, -⟩ := arrives.functions layered.loopless
  have prior : functionsOfAll line <+: functionsOfAll statements := ⟨_, split.symm⟩
  have subset {function : Value} (inside : function ∈ functionsOfAll line) :
      function ∈ (Node.program (.block statements)).functions := prior.subset inside
  refine ⟨prior, ?_, ?_, ?_⟩
  · intro function inside key called other declared
    exact layered.unhidden function (subset inside) key called other (subset declared)
  · intro before function after parts key called name parameters body found
    have whole : (Node.program (.block statements)).functions =
        before ++ function :: (after ++ functionsOfAll moment.pending) := by
      rw [← List.cons_append, ← List.append_assoc, ← parts]
      exact split
    rcases layered.of_split whole key called with ⟨binding, listed, rfl⟩ | ⟨other, earlier, declared⟩
    · obtain ⟨constant, initially⟩ := initial_builtins binding listed
      have kept := arrives.leads.continues.1.fixed _ _ initially (.inl constant)
      exact absurd (Option.some.inj (kept.symm.trans found)) (builtin_ne_function listed _ _ _)
    · have inside : other ∈ functionsOfAll line := parts ▸ List.mem_append_left _ earlier
      have bound := arrives.bound other inside key declared
      exact Option.some.inj (bound.symm.trans found) ▸ earlier
  · intro keys key _ name parameters body found
    have made := (arrives.made ⟨initial_made, List.forall_mem_nil _⟩).1.found found
    cases made with
    | function declared => exact mem_functionsOfAll_of_declared declared

theorem Moment.Starts.descends {first : Activity} (starts : moment.Starts budget first)
    {functions : List Value} (descends : moment.state.scope.Descends functions)
    (reaches : ∀ keys, moment.state.scope.Reaches keys functions) :
    first.Descends functions functions := by
  cases starts <;> exact ⟨descends, reaches _⟩

theorem calls_bounded (layered : IsLayered (.program (.block statements)))
    (leads : LeadsTo level budget ⟨statements, ⟨.initial, []⟩⟩ moment) {first activity : Activity}
    {calls : Nat} (starts : moment.Starts budget first) (nests : first.Nests level calls activity) :
    calls ≤ (functionsOfAll statements).length := by
  obtain ⟨line, arrives⟩ := leads.arrives
  obtain ⟨prior, unhidden, descends, reaches⟩ := arrives.descends layered
  exact (nests.bounded unhidden (starts.descends descends reaches)).trans prior.length_le

end

end Bella
