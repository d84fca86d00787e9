import Bella.Fault

/-! The trace of a run. Events are recorded as they happen, also those before a fault, and each
has the least level at which it is told. -/

namespace Bella

inductive Event where
  | started (statements : Nat)
  | finished (outputs : Nat)
  | declared (name : Datum) (value : Value)
  | defined (name : Datum) (parameters : List Text)
  | assigned (name : Datum) (value : Value)
  | printed (value : Value)
  | guarded (value : Value)
  | called (name : Datum) (arguments : List Value)
  | calledBuiltin (builtin : Builtin) (arguments : List Value)

namespace Event

def level : Event → Nat
  | .started _ | .finished _ => 1
  | .declared _ _ | .defined _ _ | .assigned _ _ | .printed _ => 2
  | .guarded _ | .called _ _ | .calledBuiltin _ _ => 3

def argumentsText (arguments : List Text) : Text :=
  "(" ++ Text.separated ", " arguments ++ ")"

def text : Event → Text
  | .started statements => "run program with " ++ toString statements ++ " statements"
  | .finished outputs => "program finished with " ++ toString outputs ++ " outputs"
  | .declared name value =>
      "declare " ++ name.display ++ ": " ++ value.kind.label ++ " = " ++ value.text
  | .defined name parameters => "define function " ++ name.display ++ argumentsText parameters
  | .assigned name value => "assign " ++ name.display ++ " = " ++ value.text
  | .printed value => "print " ++ value.text
  | .guarded value => "while condition -> " ++ value.text
  | .called name arguments => "call " ++ name.display ++ argumentsText (Value.texts arguments)
  | .calledBuiltin builtin arguments =>
      "call builtin " ++ builtin.name ++ argumentsText (Value.texts arguments)

end Event

structure Traced (α : Type) where
  events : List Event
  result : Except Fault α

namespace Traced

variable {α β : Type}

protected def pure (value : α) : Traced α :=
  ⟨[], .ok value⟩

protected def bind (first : Traced α) (next : α → Traced β) : Traced β :=
  match first.result with
  | .ok value =>
      let second := next value
      ⟨first.events ++ second.events, second.result⟩
  | .error fault => ⟨first.events, .error fault⟩

protected theorem bind_pure (first : Traced α) : first.bind Traced.pure = first := by
  obtain ⟨events, result⟩ := first
  cases result <;> simp [Traced.bind, Traced.pure]

protected theorem bind_assoc {γ : Type} (first : Traced α) (next : α → Traced β)
    (last : β → Traced γ) :
    (first.bind next).bind last = first.bind fun value => (next value).bind last := by
  obtain ⟨events, result⟩ := first
  cases result with
  | error fault => rfl
  | ok value =>
      rcases step : next value with ⟨nextEvents, nextResult⟩
      cases nextResult <;> simp [Traced.bind, step]

instance : Monad Traced where
  pure := Traced.pure
  bind := Traced.bind

instance : LawfulMonad Traced :=
  LawfulMonad.mk' Traced Traced.bind_pure (fun _ _ => rfl) Traced.bind_assoc

def ofExcept (result : Except Fault α) : Traced α :=
  ⟨[], result⟩

def fail (fault : Fault) : Traced α :=
  ⟨[], .error fault⟩

def note (level : Nat) (event : Event) : Traced Unit :=
  ⟨if event.level ≤ level then [event] else [], .ok ()⟩

/-- Goes on with `turn` until it ends the loop with no state to go on with. The events of the
turns before are in `recorded`, the last first. -/
def repeatFrom (turn : α → Traced (α × Bool)) :
    (turns : Nat) → (recorded : List Event) → α → Traced α
  | 0, recorded, _ => ⟨recorded.reverse, .error .loopTooLong⟩
  | turns + 1, recorded, state =>
      let taken := turn state
      let recorded := taken.events.reverseAux recorded
      match taken.result with
      | .error fault => ⟨recorded.reverse, .error fault⟩
      | .ok (next, true) => repeatFrom turn turns recorded next
      | .ok (next, false) => ⟨recorded.reverse, .ok next⟩

def repeatWhile (turn : α → Traced (α × Bool)) (turns : Nat) (state : α) : Traced α :=
  repeatFrom turn turns [] state

end Traced

end Bella
