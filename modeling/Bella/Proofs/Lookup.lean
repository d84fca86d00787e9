import Bella.Execution

/-! Scopes by keys: what each operation on names does once the name's key is known. -/

namespace Bella

section

variable {ε α β : Type}

@[simp] theorem ok_bind (value : α) (next : α → Except ε β) :
    (Except.ok value >>= next) = next value :=
  rfl

@[simp] theorem error_bind (fault : ε) (next : α → Except ε β) :
    ((Except.error fault : Except ε α) >>= next) = .error fault :=
  rfl

@[simp] theorem except_pure (value : α) : (pure value : Except ε α) = .ok value :=
  rfl

@[simp] theorem except_throw (fault : ε) : (throw fault : Except ε α) = .error fault :=
  rfl

end

theorem Node.name?_eq_some {node : Node} {name : Datum} (known : node.name? = some name) :
    node = .identifier name := by
  cases node with
  | identifier other => rw [Option.some.inj known]
  | _ => cases known

theorem nameOf_ok {node : Node} {name : Datum} (named : nameOf node = .ok name) :
    node = .identifier name := by
  cases node with
  | identifier other => rw [Except.ok.inj named]
  | _ => cases named

def Scope.Assignable (scope : Scope) (key : Key) : Prop :=
  ∃ value, scope.find? key = some value ∧ value.isFunction = false ∧ key ∉ scope.constants

namespace Scope

variable {scope : Scope} {name : Datum} {key : Key} {value : Value}

theorem keyOf_named (named : name.key? = some key) : keyOf name = .ok key := by
  simp [keyOf, named]

theorem keyOf_unnamed (unnamed : name.key? = none) : keyOf name = .error .unusableName := by
  simp [keyOf, unnamed]

theorem keyOf_ok (known : keyOf name = .ok key) :
    name.key? = some key := by
  cases named : name.key? with
  | none => simp [keyOf_unnamed named] at known
  | some other =>
      rw [keyOf_named named] at known
      rw [Except.ok.inj known]

theorem get_bound (named : name.key? = some key) (bound : scope.find? key = some value) :
    scope.get name = .ok value := by
  simp [get, keyOf_named named, bound]

theorem get_unbound (named : name.key? = some key) (unbound : scope.find? key = none) :
    scope.get name = .error (.misuse (.unbound name)) := by
  simp [get, keyOf_named named, unbound]

theorem get_unnamed (unnamed : name.key? = none) : scope.get name = .error .unusableName := by
  simp [get, keyOf_unnamed unnamed]

theorem mayDeclare_fresh (named : name.key? = some key) (fresh : scope.find? key = none) :
    scope.mayDeclare name = .ok () := by
  simp [mayDeclare, keyOf_named named, fresh]

theorem mayDeclare_bound (named : name.key? = some key) (bound : scope.find? key = some value) :
    scope.mayDeclare name = .error (.misuse (.alreadyDeclared name)) := by
  simp [mayDeclare, keyOf_named named, bound]

theorem mayDeclare_unnamed (unnamed : name.key? = none) :
    scope.mayDeclare name = .error .unusableName := by
  simp [mayDeclare, keyOf_unnamed unnamed]

theorem declare_fresh (value : Value) (named : name.key? = some key)
    (fresh : scope.find? key = none) :
    scope.declare name value = .ok (scope.bind key value) := by
  simp [declare, mayDeclare_fresh named fresh, keyOf_named named]

theorem mayAssign_assignable (named : name.key? = some key) (assignable : scope.Assignable key) :
    scope.mayAssign name = .ok () := by
  obtain ⟨value, bound, data, free⟩ := assignable
  simp [mayAssign, keyOf_named named, bound, data, free]

theorem mayAssign_unbound (named : name.key? = some key) (unbound : scope.find? key = none) :
    scope.mayAssign name = .error (.misuse (.unbound name)) := by
  simp [mayAssign, keyOf_named named, unbound]

theorem mayAssign_function (named : name.key? = some key) (bound : scope.find? key = some value)
    (function : value.isFunction = true) :
    scope.mayAssign name = .error (.misuse (.assignedFunction name)) := by
  simp [mayAssign, keyOf_named named, bound, function]

theorem mayAssign_constant (named : name.key? = some key) (bound : scope.find? key = some value)
    (data : value.isFunction = false) (constant : key ∈ scope.constants) :
    scope.mayAssign name = .error (.misuse (.assignedConstant name)) := by
  simp [mayAssign, keyOf_named named, bound, data, constant]

theorem mayAssign_unnamed (unnamed : name.key? = none) :
    scope.mayAssign name = .error .unusableName := by
  simp [mayAssign, keyOf_unnamed unnamed]

theorem assign_assignable (value : Value) (named : name.key? = some key)
    (assignable : scope.Assignable key) :
    scope.assign name value = .ok (scope.bind key value) := by
  simp [assign, mayAssign_assignable named assignable, keyOf_named named]

theorem mayDeclare_cases (scope : Scope) (named : name.key? = some key) :
    (scope.find? key = none ∧ scope.mayDeclare name = .ok ()) ∨
      ∃ value, scope.find? key = some value ∧
        scope.mayDeclare name = .error (.misuse (.alreadyDeclared name)) := by
  cases found : scope.find? key with
  | none => exact .inl ⟨rfl, mayDeclare_fresh named found⟩
  | some value => exact .inr ⟨value, rfl, mayDeclare_bound named found⟩

theorem mayAssign_cases (scope : Scope) (named : name.key? = some key) :
    (scope.Assignable key ∧ scope.mayAssign name = .ok ()) ∨
      ∃ misuse ∈ [Misuse.unbound name, .assignedFunction name, .assignedConstant name],
        scope.mayAssign name = .error (.misuse misuse) := by
  cases found : scope.find? key with
  | none => exact .inr ⟨_, by simp, mayAssign_unbound named found⟩
  | some value =>
      cases function : value.isFunction with
      | true => exact .inr ⟨_, by simp, mayAssign_function named found function⟩
      | false =>
          by_cases constant : key ∈ scope.constants
          · exact .inr ⟨_, by simp, mayAssign_constant named found function constant⟩
          · have assignable : scope.Assignable key := ⟨value, found, function, constant⟩
            exact .inl ⟨assignable, mayAssign_assignable named assignable⟩

/-- An extension hides what it binds and nothing else. -/
theorem find?_extend (scope : Scope) (bindings : List (Key × Value)) (key : Key) :
    (scope.extend bindings).find? key =
      ((Scope.mk [] []).extend bindings |>.find? key).or (scope.find? key) := by
  induction bindings generalizing scope with
  | nil => rfl
  | cons binding rest ih =>
      obtain ⟨first, value⟩ := binding
      have later := ih (scope.bind first value)
      have alone := ih ((Scope.mk [] []).bind first value)
      simp only [extend, List.foldl_cons] at later alone ⊢
      rw [later, alone, find?_bind, find?_bind]
      by_cases same : first = key
      · simp [same]
      · simp [same, find?]

theorem find?_extend_absent (scope : Scope) {bindings : List (Key × Value)} {key : Key}
    (absent : key ∉ bindings.map (·.1)) : (scope.extend bindings).find? key = scope.find? key := by
  induction bindings generalizing scope with
  | nil => rfl
  | cons binding rest ih =>
      simp only [List.map_cons, List.mem_cons, not_or] at absent
      have later := ih (scope.bind binding.1 binding.2) absent.2
      rw [find?_bind, if_neg (Ne.symm absent.1)] at later
      exact later

theorem find?_extend_bound (one other : Scope) {bindings : List (Key × Value)} {key : Key}
    (bound : key ∈ bindings.map (·.1)) :
    (one.extend bindings).find? key = (other.extend bindings).find? key := by
  induction bindings generalizing one other with
  | nil => simp at bound
  | cons binding rest ih =>
      by_cases later : key ∈ rest.map (·.1)
      · exact ih (one.bind binding.1 binding.2) (other.bind binding.1 binding.2) later
      · have same : binding.1 = key := by
          rcases List.mem_cons.mp bound with equal | member
          · exact equal.symm
          · exact absurd member later
        have first := find?_extend_absent (one.bind binding.1 binding.2) later
        have second := find?_extend_absent (other.bind binding.1 binding.2) later
        rw [find?_bind, if_pos same] at first second
        exact first.trans second.symm

theorem find?_extend_cases {scope : Scope} {bindings : List (Key × Value)} {key : Key}
    {value : Value} (found : (scope.extend bindings).find? key = some value) :
    (key, value) ∈ bindings ∨ scope.find? key = some value := by
  induction bindings generalizing scope with
  | nil => exact .inr found
  | cons binding rest ih =>
      rcases ih found with later | earlier
      · exact .inl (List.mem_cons_of_mem _ later)
      · rw [find?_bind] at earlier
        by_cases same : binding.1 = key
        · rw [if_pos same] at earlier
          have bound : binding = (key, value) := Prod.ext same (Option.some.inj earlier)
          exact .inl (bound ▸ List.mem_cons_self)
        · rw [if_neg same] at earlier
          exact .inr earlier

end Scope

theorem bindParameters_cons (parameter : Datum) (rest : List Datum) (argument : Value)
    (others : List Value) :
    bindParameters (parameter :: rest) (argument :: others) =
      (do
        let key ← Scope.keyOf parameter
        let later ← bindParameters rest others
        return (key, argument) :: later) := by
  unfold bindParameters
  rw [List.zip_cons_cons, List.mapM_cons]
  change ((Scope.keyOf parameter >>= fun key => pure (key, argument)) >>= _) = _
  cases Scope.keyOf parameter with
  | ok key => rfl
  | error fault => rfl

theorem bindParameters_named {parameters : List Datum} {keys : List Key} {arguments : List Value}
    (arity : arguments.length = parameters.length)
    (named : parameters.map Datum.key? = keys.map some) :
    bindParameters parameters arguments = .ok (keys.zip arguments) := by
  induction parameters generalizing keys arguments with
  | nil =>
      obtain rfl : keys = [] := by simpa using named.symm
      rfl
  | cons parameter rest ih =>
      cases keys with
      | nil => simp at named
      | cons key later =>
          cases arguments with
          | nil => simp at arity
          | cons argument others =>
              simp only [List.map_cons, List.cons.injEq] at named
              have tail := ih (by simpa using arity) named.2
              simp [bindParameters_cons, Scope.keyOf_named named.1, tail]

theorem bindParameters_cases {parameters : List Datum} {arguments : List Value}
    (arity : arguments.length = parameters.length) :
    (∃ keys : List Key, parameters.map Datum.key? = keys.map some) ∨
      bindParameters parameters arguments = .error .unusableName := by
  induction parameters generalizing arguments with
  | nil => exact .inl ⟨[], rfl⟩
  | cons parameter rest ih =>
      cases arguments with
      | nil => simp at arity
      | cons argument others =>
          cases named : parameter.key? with
          | none => exact .inr (by simp [bindParameters_cons, Scope.keyOf_unnamed named])
          | some key =>
              have fewer : others.length = rest.length := by simpa using arity
              rcases ih fewer with ⟨keys, known⟩ | refused
              · exact .inl ⟨key :: keys, by simp [named, known]⟩
              · refine .inr ?_
                simp [bindParameters_cons, Scope.keyOf_named named, refused]

theorem bindParameters_ok {parameters : List Datum} {arguments : List Value}
    {bindings : List (Key × Value)} (arity : arguments.length = parameters.length)
    (bound : bindParameters parameters arguments = .ok bindings) :
    bindings.map (·.1) = parameters.filterMap Datum.key? ∧
      ∀ binding ∈ bindings, binding.2 ∈ arguments := by
  rcases bindParameters_cases arity with ⟨keys, named⟩ | refused
  · rw [bindParameters_named arity named] at bound
    obtain rfl := Except.ok.inj bound
    have length : keys.length = arguments.length := by
      rw [arity, ← List.length_map Datum.key?, named, List.length_map]
    have ordered : parameters.filterMap Datum.key? = keys := by
      calc
        parameters.filterMap Datum.key? = (parameters.map Datum.key?).filterMap id := by
          rw [List.filterMap_map, Function.id_comp]
        _ = (keys.map some).filterMap id := by rw [named]
        _ = keys := by rw [List.filterMap_map, Function.id_comp, List.filterMap_some]
    refine ⟨?_, fun binding member => (List.of_mem_zip member).2⟩
    rw [ordered, List.map_fst_zip (Nat.le_of_eq length)]
  · cases refused.symm.trans bound

end Bella
