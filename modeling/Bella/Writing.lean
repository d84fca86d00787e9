import Bella.Execution

/-! Lines that are written. A line has to be made first, which fails for arrays that are nested too deep
and for integers with too many digits, and then to be encoded, which fails for half of a surrogate pair.
The first line that cannot be written ends a computation. Where the message of a misuse cannot be made, that
is what is raised. -/

namespace Bella

/-- What the machine allows: a budget for runs, and how deep arrays may be nested in a value whose text is
made. -/
structure Limits extends Budget where
  nesting : Nat

def Limits.ample : Limits := ⟨.ample, 1000⟩

def Text.fault? (text : Text) : Option Fault :=
  if text.string?.isSome then none else some .unencodableText

namespace Datum

mutual

/-- Why the text of a datum cannot be made. -/
def fault? (nesting : Nat) : Datum → Option Fault
  | .integer value =>
      if longestNumeral < (Nat.toDigits 10 value.natAbs).length then some .overlongInteger else none
  | .list items =>
      match nesting with
      | 0 => some .recursionTooDeep
      | nesting + 1 => faults? nesting items
  | .object members =>
      match nesting with
      | 0 => some .recursionTooDeep
      | nesting + 1 => memberFaults? nesting members
  | _ => none

def faults? (nesting : Nat) : List Datum → Option Fault
  | [] => none
  | item :: rest => (fault? nesting item).or (faults? nesting rest)

def memberFaults? (nesting : Nat) : List (Text × Datum) → Option Fault
  | [] => none
  | (_, value) :: rest => (fault? nesting value).or (memberFaults? nesting rest)

end

end Datum

namespace Value

mutual

def fault? (nesting : Nat) : Value → Option Fault
  | .array items =>
      match nesting with
      | 0 => some .recursionTooDeep
      | nesting + 1 => faults? nesting items
  | .function name _ _ => name.fault? nesting
  | _ => none

def faults? (nesting : Nat) : List Value → Option Fault
  | [] => none
  | item :: rest => (fault? nesting item).or (faults? nesting rest)

end

def lineFault? (nesting : Nat) (value : Value) : Option Fault :=
  (value.fault? nesting).or value.text.fault?

end Value

namespace Event

def partFault? (nesting : Nat) : Event → Option Fault
  | .started _ | .finished _ => none
  | .declared name value | .assigned name value => (name.fault? nesting).or (value.fault? nesting)
  | .defined name _ => name.fault? nesting
  | .printed value | .guarded value => value.fault? nesting
  | .called name arguments => (name.fault? nesting).or (Value.faults? nesting arguments)
  | .calledBuiltin _ arguments => Value.faults? nesting arguments

def fault? (nesting : Nat) (event : Event) : Option Fault :=
  (event.partFault? nesting).or event.text.fault?

end Event

/-- Why the message of a misuse cannot be made. -/
def Misuse.fault? (nesting : Nat) : Misuse → Option Fault
  | .unbound name | .alreadyDeclared name | .assignedFunction name | .assignedConstant name
  | .wrongArity name _ _ | .unknownUnary name | .unknownBinary name => name.fault? nesting
  | .repeatedParameter parameter function => (parameter.fault? nesting).or (function.fault? nesting)
  | .notCallable callee => callee.fault? nesting
  | _ => none

def Fault.raised (nesting : Nat) : Fault → Fault
  | .misuse cause => (cause.fault? nesting).getD (.misuse cause)
  | fault => fault

def Traced.written {α : Type} (nesting : Nat) (traced : Traced α) : Traced α :=
  match traced.events.findSome? (Event.fault? nesting) with
  | none => ⟨traced.events, traced.result.mapError (Fault.raised nesting)⟩
  | some fault =>
      ⟨traced.events.takeWhile fun event => (event.fault? nesting).isNone, .error fault⟩

def writtenRun (limits : Limits) (level : Nat) (program : Node) (scope : Scope) :
    Traced (List Value) :=
  (run level limits.toBudget program scope).written limits.nesting

end Bella
