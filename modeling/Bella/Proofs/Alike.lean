import Bella.Proofs.Outcome

/-! Two computations side by side. They end alike if both end with values that correspond, or both
with one fault; that both spend their budget is a case of the latter. -/

namespace Bella.Traced

variable {α β γ δ : Type}

def Alike (first : Traced α) (second : Traced β) (related : α → β → Prop) : Prop :=
  match first.result, second.result with
  | .ok value, .ok other => related value other
  | .error fault, .error reason => fault = reason
  | _, _ => False

variable {related : α → β → Prop}

theorem alike_pure {value : α} {other : β} (corresponding : related value other) :
    (pure value : Traced α).Alike (pure other) related :=
  corresponding

theorem alike_fail (fault : Fault) : (fail fault : Traced α).Alike (fail fault) related :=
  rfl

theorem alike_bind {first : Traced α} {second : Traced β} {next : α → Traced γ}
    {following : β → Traced δ} {afterwards : γ → δ → Prop} (before : first.Alike second related)
    (after : ∀ value other, related value other →
      (next value).Alike (following other) afterwards) :
    (first >>= next).Alike (second >>= following) afterwards := by
  unfold Alike at before ⊢
  rw [result_bind, result_bind]
  cases one : first.result with
  | ok value =>
      cases two : second.result with
      | ok other =>
          rw [one, two] at before
          exact after value other before
      | error reason =>
          rw [one, two] at before
          exact before.elim
  | error fault =>
      cases two : second.result with
      | ok other =>
          rw [one, two] at before
          exact before.elim
      | error reason =>
          rw [one, two] at before
          exact before

theorem alike_self {run : Traced α} {related : α → α → Prop}
    (values : ∀ value, run.result = .ok value → related value value) :
    run.Alike run related := by
  unfold Alike
  cases ended : run.result with
  | ok value => exact values value ended
  | error fault => rfl

theorem alike_same {run : Traced γ} {next : γ → Traced α} {following : γ → Traced β}
    (after : ∀ value, run.result = .ok value → (next value).Alike (following value) related) :
    (run >>= next).Alike (run >>= following) related := by
  have same : run.Alike run fun value other => value = other ∧ run.result = .ok value :=
    alike_self fun value ended => ⟨rfl, ended⟩
  refine alike_bind same fun value other both => ?_
  obtain ⟨rfl, ended⟩ := both
  exact after value ended

theorem alike_ofExcept {result : Except Fault γ} {next : γ → Traced α} {following : γ → Traced β}
    (after : ∀ value, result = .ok value → (next value).Alike (following value) related) :
    (ofExcept result >>= next).Alike (ofExcept result >>= following) related :=
  alike_same after

theorem alike_result {result : Except Fault α} {related : α → α → Prop}
    (values : ∀ value, result = .ok value → related value value) :
    (ofExcept result).Alike (ofExcept result) related :=
  alike_self values

theorem alike_mono {first : Traced α} {second : Traced β} {weaker : α → β → Prop}
    (alike : first.Alike second related)
    (values : ∀ value other, related value other → weaker value other) :
    first.Alike second weaker := by
  unfold Alike at alike ⊢
  split at alike
  · exact values _ _ alike
  · exact alike
  · exact alike.elim

theorem alike_eq_iff {first second : Traced α} :
    (first.Alike second fun value other => value = other) ↔ first.result = second.result := by
  unfold Alike
  cases first.result <;> cases second.result <;> simp

theorem alike_map_iff {first : Traced α} {second : Traced β} {change : β → α} :
    (first.Alike second fun value other => value = change other) ↔
      first.result = second.result.map change := by
  unfold Alike
  cases first.result <;> cases second.result <;> simp [Except.map]

theorem alike_repeatWhile {turn : α → Traced (α × Bool)} {other : β → Traced (β × Bool)}
    (alike : ∀ current matching, related current matching →
      (turn current).Alike (other matching) fun taken made =>
        taken.2 = made.2 ∧ related taken.1 made.1)
    (turns : Nat) {state : α} {matched : β} (initially : related state matched) :
    (repeatWhile turn turns state).Alike (repeatWhile other turns matched) related := by
  induction turns generalizing state matched with
  | zero => exact alike_fail .loopTooLong
  | succ turns ih =>
      have step := alike state matched initially
      unfold Alike at step ⊢
      rw [repeatWhile_succ, repeatWhile_succ]
      cases one : (turn state).result with
      | ok taken =>
          cases two : (other matched).result with
          | ok made =>
              rw [one, two] at step
              obtain ⟨next, again⟩ := taken
              obtain ⟨following, further⟩ := made
              obtain ⟨rfl, corresponding⟩ := step
              cases again with
              | false => exact corresponding
              | true => exact ih corresponding
          | error reason =>
              rw [one, two] at step
              exact step.elim
      | error fault =>
          cases two : (other matched).result with
          | ok made =>
              rw [one, two] at step
              exact step.elim
          | error reason =>
              rw [one, two] at step
              exact step

end Bella.Traced
