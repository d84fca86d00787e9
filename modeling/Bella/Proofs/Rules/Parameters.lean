import Bella.Proofs.Outcome
import Bella.Proofs.Rules.Judgement

/-! The parameters of a function declaration: they are bound as they are written, or one of them is
the first that repeats an earlier one. -/

namespace Bella

def Fresh (seen : List Key) (names : List Text) : Prop :=
  names.Nodup ∧ ∀ name ∈ names, Key.text name ∉ seen

theorem fresh_of_nodup {names : List Text} (distinct : names.Nodup) : Fresh [] names :=
  ⟨distinct, by simp⟩

theorem fresh_cons {seen : List Key} {name : Text} {rest : List Text}
    (fresh : Fresh seen (name :: rest)) :
    Key.text name ∉ seen ∧ Fresh (.text name :: seen) rest := by
  obtain ⟨distinct, unseen⟩ := fresh
  rw [List.nodup_cons] at distinct
  rw [List.forall_mem_cons] at unseen
  refine ⟨unseen.1, distinct.2, fun other member => ?_⟩
  simp only [List.mem_cons, Key.text.injEq, not_or]
  exact ⟨fun same => distinct.1 (same ▸ member), unseen.2 other member⟩

theorem parameterNames_cons (function : Datum) (seen : List Key) (name : Text)
    (rest : List Text) :
    parameterNames function seen ((name :: rest).map parameterNode) =
      if Key.text name ∈ seen then .error (.misuse (.repeatedParameter (.text name) function))
      else (parameterNames function (.text name :: seen) (rest.map parameterNode)).map
        (.text name :: ·) := by
  simp only [List.map_cons, parameterNames, parameterNode, nameOf, Node.name?, Scope.keyOf,
    Datum.key?]
  by_cases known : Key.text name ∈ seen
  · have contained : seen.contains (Key.text name) = true := List.contains_iff_mem.mpr known
    simp only [ok_bind, contained, if_pos known]
    rfl
  · have missing : seen.contains (Key.text name) = false := by simpa using known
    simp only [ok_bind, missing, if_neg known]
    rfl

theorem parameterNames_fresh (function : Datum) {seen : List Key} {names : List Text}
    (fresh : Fresh seen names) :
    parameterNames function seen (names.map parameterNode) = .ok (names.map .text) := by
  induction names generalizing seen with
  | nil => rfl
  | cons name rest ih =>
      obtain ⟨unseen, later⟩ := fresh_cons fresh
      rw [parameterNames_cons, if_neg unseen, ih later]
      rfl

theorem parameterNames_repeated (function : Datum) {seen : List Key} {earlier : List Text}
    {repeated : Text} (later : List Text) (fresh : Fresh seen earlier)
    (again : Key.text repeated ∈ seen ∨ repeated ∈ earlier) :
    parameterNames function seen ((earlier ++ repeated :: later).map parameterNode) =
      .error (.misuse (.repeatedParameter (.text repeated) function)) := by
  induction earlier generalizing seen with
  | nil =>
      have known : Key.text repeated ∈ seen := by simpa using again
      rw [List.nil_append, parameterNames_cons, if_pos known]
  | cons name rest ih =>
      obtain ⟨unseen, remaining⟩ := fresh_cons fresh
      have known : Key.text repeated ∈ Key.text name :: seen ∨ repeated ∈ rest := by
        simp only [List.mem_cons, Key.text.injEq] at again ⊢
        rcases again with before | same | after
        · exact .inl (.inr before)
        · exact .inl (.inl same)
        · exact .inr after
      rw [List.cons_append, parameterNames_cons, if_neg unseen, ih remaining known]
      rfl

theorem nodup_or_repeated {α : Type} (items : List α) :
    items.Nodup ∨ ∃ earlier repeated later,
      items = earlier ++ repeated :: later ∧ earlier.Nodup ∧ repeated ∈ earlier := by
  suffices ∀ earlier : List α, earlier.Nodup → (earlier ++ items).Nodup ∨
      ∃ before repeated later,
        earlier ++ items = before ++ repeated :: later ∧ before.Nodup ∧ repeated ∈ before from
    this [] List.nodup_nil
  induction items with
  | nil =>
      intro earlier distinct
      exact .inl (by simpa using distinct)
  | cons item rest ih =>
      intro earlier distinct
      by_cases known : item ∈ earlier
      · exact .inr ⟨earlier, item, rest, rfl, distinct, known⟩
      · have longer : (earlier ++ [item]).Nodup := by
          rw [List.nodup_append]
          refine ⟨distinct, by simp, fun one member other single => ?_⟩
          rw [List.mem_singleton] at single
          exact fun same => known (single ▸ same ▸ member)
        simpa using ih (earlier ++ [item]) longer

theorem parameterTexts_map (names : List Text) :
    parameterTexts (names.map .text) = .ok names := by
  induction names with
  | nil => rfl
  | cons name rest ih => simp [parameterTexts, ih, Except.map]

theorem noteDefinition_result (level : Nat) (name : Datum) (parameters : List Text) :
    (noteDefinition level name (parameters.map .text)).result = .ok () := by
  unfold noteDefinition
  split
  · rfl
  · rw [Traced.result_bind]
    simp only [Traced.ofExcept, parameterTexts_map]
    rfl

end Bella
