import Bella.Execution

/-! What is known of the end of a computation: something of its value if it has one, and otherwise
something of its fault. The events on the way do not matter. -/

namespace Bella.Traced

variable {α β : Type}

def Ensures (run : Traced α) (holds : α → Prop) (excused : Fault → Prop) : Prop :=
  match run.result with
  | .ok value => holds value
  | .error fault => excused fault

variable {holds : α → Prop} {excused : Fault → Prop}

theorem ensures_pure {value : α} (holding : holds value) :
    (pure value : Traced α).Ensures holds excused :=
  holding

theorem ensures_fail {fault : Fault} (excuse : excused fault) :
    (fail fault : Traced α).Ensures holds excused :=
  excuse

theorem result_bind (first : Traced α) (next : α → Traced β) :
    (first >>= next).result = first.result.bind fun value => (next value).result := by
  obtain ⟨events, result⟩ := first
  cases result <;> rfl

theorem ensures_bind {first : Traced α} {next : α → Traced β} {holds : α → Prop}
    {afterwards : β → Prop} {excused : Fault → Prop} (before : first.Ensures holds excused)
    (after : ∀ value, holds value → (next value).Ensures afterwards excused) :
    (first >>= next).Ensures afterwards excused := by
  unfold Ensures at before ⊢
  rw [result_bind]
  cases ended : first.result with
  | ok value =>
      rw [ended] at before
      exact after value before
  | error fault =>
      rw [ended] at before
      exact before

theorem ensures_known {result : Except Fault β} {value : β} {next : β → Traced α}
    (known : result = .ok value) (after : (next value).Ensures holds excused) :
    (ofExcept result >>= next).Ensures holds excused := by
  subst known
  exact after

theorem ensures_note {level : Nat} {event : Event} {next : Unit → Traced α}
    (after : (next ()).Ensures holds excused) :
    (note level event >>= next).Ensures holds excused :=
  have noted : (note level event).Ensures (fun _ => True) excused := trivial
  ensures_bind noted fun _ _ => after

theorem ensures_mono {run : Traced α} {weaker : α → Prop} {forgiven : Fault → Prop}
    (ensured : run.Ensures holds excused) (values : ∀ value, holds value → weaker value)
    (faults : ∀ fault, excused fault → forgiven fault) : run.Ensures weaker forgiven := by
  unfold Ensures at ensured ⊢
  cases ended : run.result with
  | ok value =>
      rw [ended] at ensured
      exact values value ensured
  | error fault =>
      rw [ended] at ensured
      exact faults fault ensured

theorem ensures_iff {run : Traced α} :
    run.Ensures holds excused ↔
      (∀ value, run.result = .ok value → holds value) ∧
        ∀ fault, run.result = .error fault → excused fault := by
  unfold Ensures
  cases run.result with
  | ok value => simp
  | error fault => simp

theorem repeatFrom_result (turn : α → Traced (α × Bool)) (turns : Nat)
    (recorded : List Event) (state : α) :
    (repeatFrom turn turns recorded state).result = (repeatWhile turn turns state).result := by
  induction turns generalizing recorded state with
  | zero => rfl
  | succ turns ih =>
      simp only [repeatWhile, repeatFrom]
      cases (turn state).result with
      | error fault => rfl
      | ok pair =>
          obtain ⟨next, again⟩ := pair
          cases again with
          | false => rfl
          | true => exact (ih _ next).trans (ih _ next).symm

theorem repeatWhile_succ (turn : α → Traced (α × Bool)) (turns : Nat) (state : α) :
    (repeatWhile turn (turns + 1) state).result =
      (turn state).result.bind fun taken =>
        if taken.2 then (repeatWhile turn turns taken.1).result else .ok taken.1 := by
  simp only [repeatWhile, repeatFrom, Except.bind]
  cases (turn state).result with
  | error fault => rfl
  | ok pair =>
      obtain ⟨next, again⟩ := pair
      cases again with
      | false => rfl
      | true => exact repeatFrom_result turn turns _ next

theorem ensures_repeatWhile {turn : α → Traced (α × Bool)} (invariant : α → Prop) (turns : Nat)
    {state : α} (endless : excused .loopTooLong) (initially : invariant state)
    (preserved : ∀ current, invariant current →
      (turn current).Ensures
        (fun taken => if taken.2 then invariant taken.1 else holds taken.1) excused) :
    (repeatWhile turn turns state).Ensures holds excused := by
  induction turns generalizing state with
  | zero => exact endless
  | succ turns ih =>
      have step := preserved state initially
      unfold Ensures at step ⊢
      rw [repeatWhile_succ]
      cases ended : (turn state).result with
      | error fault =>
          rw [ended] at step
          exact step
      | ok taken =>
          obtain ⟨next, again⟩ := taken
          rw [ended] at step
          cases again with
          | false => exact step
          | true => exact ih step

end Bella.Traced
