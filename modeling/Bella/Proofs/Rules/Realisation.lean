import Bella.Proofs.Rules.Completeness
import Bella.Proofs.Rules.Soundness
import Bella.Proofs.Safety

/-! Evaluation and execution realise their rules. Main statement: in a scope of the language, an
expression or statement ends as the rules derive and in no other way, and it spends every budget if
and only if they derive nothing. -/

namespace Bella

open Traced

variable {α : Type}

def Endless (run : Budget → Traced α) : Prop :=
  ∀ budget, ∃ fault : Fault, fault.Exhausted ∧ (run budget).result = .error fault

/-- A run realises rules if it has the outcomes that they derive, and no end where they derive
none. Which of the large budgets it has does not matter. -/
structure Realises (run : Budget → Traced α) (rules : Outcome α → Prop) : Prop where
  ends : ∀ outcome, (∃ budget, (run budget).result = outcome.result) ↔ rules outcome
  settles : ∀ outcome, rules outcome → Settles run outcome
  endless : Endless run ↔ ∀ outcome, ¬rules outcome

theorem excuses_cases {vocabulary : Vocabulary} {fault : Fault}
    (excused : vocabulary.Excuses fault) :
    (∃ misuse, fault = .misuse misuse ∧ vocabulary.Allows misuse) ∨ fault.Exhausted := by
  cases fault with
  | misuse cause => exact .inl ⟨cause, rfl, excused⟩
  | _ => exact .inr excused

theorem not_exhausted_of_result {outcome : Outcome α} {fault : Fault}
    (ended : outcome.result = .error fault) : ¬fault.Exhausted := by
  cases outcome with
  | ok value => simp at ended
  | error misuse =>
      simp only [Outcome.result_error, Except.error.injEq] at ended
      subst ended
      exact id

theorem outcome_or_exhausted {run : Traced α} {holding : α → Prop} {vocabulary : Vocabulary}
    (safe : run.Ensures holding vocabulary.Excuses) :
    (∃ outcome : Outcome α, run.result = outcome.result ∧
        outcome.Ensures holding vocabulary.Allows) ∨
      ∃ fault : Fault, fault.Exhausted ∧ run.result = .error fault := by
  unfold Ensures at safe
  cases ended : run.result with
  | ok value =>
      rw [ended] at safe
      exact .inl ⟨.ok value, rfl, safe⟩
  | error fault =>
      rw [ended] at safe
      rcases excuses_cases safe with ⟨misuse, rfl, allowed⟩ | exhausted
      · exact .inl ⟨.error misuse, rfl, allowed⟩
      · exact .inr ⟨fault, exhausted, rfl⟩

theorem realises_of {run : Budget → Traced α} {rules : Outcome α → Prop} {holding : α → Prop}
    {vocabulary : Vocabulary} (follows : ∀ budget, (run budget).Follows rules)
    (settles : ∀ outcome, rules outcome → Settles run outcome)
    (safe : ∀ budget, (run budget).Ensures holding vocabulary.Excuses) : Realises run rules where
  ends outcome := by
    constructor
    · rintro ⟨budget, ended⟩
      exact follows_iff.mp (follows budget) outcome ended
    · exact fun derived => (settles outcome derived).exists
  settles := settles
  endless := by
    constructor
    · intro endless outcome derived
      obtain ⟨budget, ended⟩ := (settles outcome derived).exists
      obtain ⟨fault, exhausted, spent⟩ := endless budget
      exact not_exhausted_of_result (ended.symm.trans spent) exhausted
    · intro nothing budget
      rcases outcome_or_exhausted (safe budget) with ⟨outcome, ended, _⟩ | spent
      · exact absurd (follows_iff.mp (follows budget) outcome ended) (nothing outcome)
      · exact spent

inductive Runs : Node → Scope → Outcome (List Value) → Prop
  | program {statements : List Node} {scope : Scope} {outcome : Outcome State}
      (executed : ExecutesAll statements ⟨scope, []⟩ outcome) :
      Runs (.program (.block statements)) scope (outcome.map State.output)

section

variable {vocabulary : Vocabulary} {scope : Scope} {program : Node}

theorem run_follows (level : Nat) (budget : Budget) (shaped : program.IsProgram vocabulary) :
    (run level budget program scope).Follows (Runs program scope) := by
  obtain ⟨each⟩ := shaped
  refine follows_note ?_
  refine follows_bind (executeAll_follows level budget each ⟨scope, []⟩)
    (fun misuse failed => .program failed) fun final ended => ?_
  exact follows_note (follows_pure (.program ended))

theorem run_settles (level : Nat) {outcome : Outcome (List Value)}
    (derived : Runs program scope outcome) :
    Settles (fun budget => run level budget program scope) outcome := by
  obtain ⟨executed⟩ := derived
  refine settles_note ?_
  rename_i ended
  cases ended with
  | error misuse => exact settles_fails (executed.settles level)
  | ok final =>
      exact settles_bind (executed.settles level) (settles_note (settles_result fun _ => rfl))

theorem run_ensures (level : Nat) (budget : Budget) (shaped : program.IsProgram vocabulary)
    (sound : scope.EveryAt Set.univ vocabulary.Admits) :
    (run level budget program scope).Ensures (fun _ => True) vocabulary.Excuses := by
  obtain ⟨each⟩ := shaped
  have initially : State.Sound vocabulary ⟨scope, []⟩ := sound
  refine ensures_note ?_
  refine ensures_bind (executeAll_ensures level budget each initially) fun final _ => ?_
  exact ensures_note (ensures_pure trivial)

theorem run_realises (level : Nat) (shaped : program.IsProgram vocabulary)
    (sound : scope.EveryAt Set.univ vocabulary.Admits) :
    Realises (fun budget => run level budget program scope) (Runs program scope) :=
  realises_of (fun budget => run_follows level budget shaped)
    (fun _ derived => run_settles level derived) fun budget => run_ensures level budget shaped sound

end

/-- Evaluation and execution have exactly the outcomes that the rules give them. -/
theorem outcomes_by_rules (level : Nat) {scope : Scope}
    (sound : scope.EveryAt Set.univ Vocabulary.unrestricted.Admits) :
    (∀ expression : Node, expression.IsExpression .unrestricted →
      Realises (fun budget => evaluateIn level budget scope expression)
        (Evaluates scope expression)) ∧
    ∀ (statement : Node) (output : List Value), statement.IsStatement .unrestricted →
      Realises (fun budget => execute level budget statement ⟨scope, output⟩)
        (Executes statement ⟨scope, output⟩) := by
  constructor
  · intro expression shaped
    exact realises_of (fun budget => evaluateIn_follows level budget scope expression)
      (fun _ derived => derived.settles level)
      fun budget => evaluateIn_ensures level budget sound shaped
  · intro statement output shaped
    exact realises_of (fun budget => execute_follows level budget shaped ⟨scope, output⟩)
      (fun _ derived => derived.settles level)
      fun budget => execute_ensures level budget shaped sound

def endlessFunction : Value :=
  .function (.text "f") [.text "x"]
    (.call (.identifier (.text "f")) [.identifier (.text "x")])

theorem outcomes_by_rules_endlessFunction :
    (Scope.initial.bind (.text "f") endlessFunction).EveryAt Set.univ
        Vocabulary.unrestricted.Admits ∧
      (Node.call (.identifier (.text "f")) [.booleanLiteral true]).IsExpression .unrestricted ∧
      Realises
        (fun budget => evaluateIn 3 budget (Scope.initial.bind (.text "f") endlessFunction)
          (.call (.identifier (.text "f")) [.booleanLiteral true]))
        (Evaluates (Scope.initial.bind (.text "f") endlessFunction)
          (.call (.identifier (.text "f")) [.booleanLiteral true])) := by
  have body : (Node.call (.identifier (.text "f")) [.identifier (.text "x")]).IsExpression
      .unrestricted :=
    .call rfl fun argument member => List.mem_singleton.mp member ▸ .identifier rfl
  have sound : (Scope.initial.bind (.text "f") endlessFunction).EveryAt Set.univ
      Vocabulary.unrestricted.Admits :=
    bind_every (initial_every _ _) (.function ⟨⟨[.text "x"], rfl⟩, body⟩)
  have shaped : (Node.call (.identifier (.text "f")) [.booleanLiteral true]).IsExpression
      .unrestricted :=
    .call rfl fun argument member => List.mem_singleton.mp member ▸ .booleanLiteral true
  exact ⟨sound, shaped, (outcomes_by_rules 3 sound).1 _ shaped⟩

end Bella
