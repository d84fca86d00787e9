import Bella.Fault

/-! Scopes bind names to values. A scope never changes; every operation that binds a name
returns a new scope. Constants are names that no assignment may bind anew. -/

namespace Bella

structure Scope where
  bindings : List (Key × Value)
  constants : List Key

namespace Scope

def find? (scope : Scope) (key : Key) : Option Value :=
  (scope.bindings.find? fun binding => binding.1 == key).map (·.2)

def bindIn (key : Key) (value : Value) : List (Key × Value) → List (Key × Value)
  | [] => [(key, value)]
  | (other, old) :: rest =>
      if other = key then (key, value) :: rest else (other, old) :: bindIn key value rest

def bind (scope : Scope) (key : Key) (value : Value) : Scope :=
  { scope with bindings := bindIn key value scope.bindings }

theorem find?_bindIn (key other : Key) (value : Value) (bindings : List (Key × Value)) :
    ((bindIn key value bindings).find? fun binding => binding.1 == other).map (·.2) =
      if key = other then some value
      else (bindings.find? fun binding => binding.1 == other).map (·.2) := by
  induction bindings with
  | nil =>
      by_cases same : key = other
      · simp [bindIn, same]
      · simp [bindIn, same]
  | cons binding rest ih =>
      obtain ⟨first, old⟩ := binding
      by_cases taken : first = key
      · by_cases same : key = other
        · simp [bindIn, taken, same]
        · simp [bindIn, taken, same]
      · by_cases found : first = other
        · subst found
          simp [bindIn, taken, Ne.symm taken]
        · simpa [bindIn, taken, found] using ih

theorem find?_bind (scope : Scope) (key other : Key) (value : Value) :
    (scope.bind key value).find? other = if key = other then some value else scope.find? other :=
  find?_bindIn key other value scope.bindings

def keyOf (name : Datum) : Except Fault Key :=
  match name.key? with
  | some key => .ok key
  | none => .error .unusableName

def contains (scope : Scope) (name : Datum) : Except Fault Bool :=
  (keyOf name).map fun key => (scope.find? key).isSome

def get (scope : Scope) (name : Datum) : Except Fault Value := do
  let key ← keyOf name
  match scope.find? key with
  | some value => return value
  | none => throw (.misuse (.unbound name))

def mayDeclare (scope : Scope) (name : Datum) : Except Fault Unit := do
  let key ← keyOf name
  match scope.find? key with
  | some _ => throw (.misuse (.alreadyDeclared name))
  | none => return ()

/-- Refuses an assignment to a name that is not bound, to a function, and to a constant, in this
order. -/
def mayAssign (scope : Scope) (name : Datum) : Except Fault Unit := do
  let key ← keyOf name
  match scope.find? key with
  | none => throw (.misuse (.unbound name))
  | some value =>
      if value.isFunction then throw (.misuse (.assignedFunction name))
      else if scope.constants.contains key then throw (.misuse (.assignedConstant name))
      else return ()

def declare (scope : Scope) (name : Datum) (value : Value) : Except Fault Scope := do
  scope.mayDeclare name
  return scope.bind (← keyOf name) value

def assign (scope : Scope) (name : Datum) (value : Value) : Except Fault Scope := do
  scope.mayAssign name
  return scope.bind (← keyOf name) value

def extend (scope : Scope) (bindings : List (Key × Value)) : Scope :=
  bindings.foldl (fun extended binding => extended.bind binding.1 binding.2) scope

def ofBindings (bindings : List (Key × Value)) (constants : List Key) : Scope :=
  (Scope.mk [] constants).extend bindings

def builtinBindings : List (String × Value) :=
  ("pi", .number Number.pi) :: Builtin.all.map fun builtin => (builtin.name, .builtin builtin)

def initial : Scope :=
  ofBindings (builtinBindings.map fun binding => (.text binding.1, binding.2))
    (builtinBindings.map fun binding => .text binding.1)

end Scope

end Bella
