import Bella.Proofs.Exchange.Evaluation
import Bella.Proofs.Rules.Realisation

/-! Programs after an exchange of expressions. Main statement: if two expressions end alike in every
scope of native values, then so do a program and the program in which the second stands, in any places,
for the first. -/

namespace Bella

open Traced

variable {α β : Type}

inductive EndAlike (values : α → β → Prop) (one : Budget → Traced α) (two : Budget → Traced β) :
    Prop
  | ends {outcome : Outcome α} {following : Outcome β} (first : Settles one outcome)
      (second : Settles two following) (alike : outcome.Alike values following) :
      EndAlike values one two
  | endless (first : Endless one) (second : Endless two) : EndAlike values one two

theorem Outcome.result_injective {outcome other : Outcome α}
    (same : outcome.result = other.result) : outcome = other := by
  cases outcome with
  | ok value =>
      cases other with
      | ok another => exact congrArg _ (Except.ok.inj same)
      | error misuse => cases same
  | error misuse =>
      cases other with
      | ok value => cases same
      | error another => exact congrArg _ (Fault.misuse.inj (Except.error.inj same))

theorem Settles.unique {run : Budget → Traced α} {outcome other : Outcome α}
    (first : Settles run outcome) (second : Settles run other) : outcome = other := by
  obtain ⟨budget, one, two⟩ := (Eventually.and first second).exists
  exact Outcome.result_injective (one.symm.trans two)

theorem Settles.not_endless {run : Budget → Traced α} {outcome : Outcome α}
    (settles : Settles run outcome) : ¬ Endless run := by
  intro endless
  obtain ⟨budget, ended⟩ := Eventually.exists settles
  obtain ⟨fault, exhausted, spent⟩ := endless budget
  exact not_exhausted_of_result (ended.symm.trans spent) exhausted

theorem EndAlike.symm {values : α → α → Prop} (symmetric : ∀ {one two}, values one two → values two one)
    {one two : Budget → Traced α} (alike : EndAlike values one two) : EndAlike values two one := by
  cases alike with
  | endless first second => exact .endless second first
  | ends first second alike =>
      cases alike with
      | ok corresponding => exact .ends second first (.ok (symmetric corresponding))
      | error kind message => exact .ends second first (.error kind.symm message.symm)

section

variable {vocabulary : Vocabulary} {first second : Node}

theorem replaceable_of_endAlike (level : Nat) (one : first.IsExpression vocabulary)
    (equal : ∀ scope : Scope, scope.Native vocabulary →
      EndAlike Eq (fun budget => evaluateIn level budget scope first)
        fun budget => evaluateIn level budget scope second) :
    Replaceable vocabulary first second := by
  refine ⟨exchangedWithin_self one, fun scope native outcome derived => ?_⟩
  have settles := derived.settles level
  cases equal scope native with
  | endless endless _ => exact absurd endless settles.not_endless
  | @ends ending following before after alike =>
      obtain rfl := before.unique settles
      obtain ⟨budget, ended⟩ := Eventually.exists after
      exact ⟨following, follows_iff.mp (evaluateIn_follows level budget scope second) _ ended, alike⟩

def OutputsMatch (vocabulary : Vocabulary) (first second : Node) (output printed : List Value) :
    Prop :=
  List.Forall₂ (Value.Matches vocabulary first second) output printed ∧
    output.map Value.text = printed.map Value.text

theorem outputsMatch_of_matches {output printed : List Value}
    (matched : List.Forall₂ (Value.Matches vocabulary first second) output printed) :
    OutputsMatch vocabulary first second output printed := by
  refine ⟨matched, ?_⟩
  induction matched with
  | nil => rfl
  | cons head _ ih => rw [List.map_cons, List.map_cons, head.text_eq, ih]

theorem Runs.carries (replaceable : Replaceable vocabulary first second)
    (two : second.IsExpression vocabulary) {program other : Node} {scope : Scope}
    (shaped : program.IsProgram vocabulary) (native : scope.Native vocabulary)
    (exchanged : ExchangedProgram first second program other) {outcome : Outcome (List Value)}
    (derived : Runs program scope outcome) :
    ∃ following, Runs other scope following ∧
      outcome.Alike (OutputsMatch vocabulary first second) following := by
  obtain ⟨each⟩ := exchanged
  obtain ⟨shaped⟩ := shaped
  obtain ⟨executed⟩ := derived
  have initially : State.Matches vocabulary first second ⟨scope, []⟩ ⟨scope, []⟩ :=
    ⟨native.matched, .nil⟩
  obtain ⟨ending, again, alike⟩ := executed.carries replaceable two shaped initially each
  refine ⟨_, .program again, ?_⟩
  cases alike with
  | ok matched => exact .ok (outputsMatch_of_matches matched.output)
  | error kind message => exact .error kind message

/-- Expressions that end alike wherever they are evaluated may be exchanged in any places of a program:
the program ends alike, with an output of the same texts or an error of the same kind and message, or
without end. -/
theorem exchange_equal (level : Nat) (one : first.IsExpression vocabulary)
    (two : second.IsExpression vocabulary)
    (equal : ∀ scope : Scope, scope.Native vocabulary →
      EndAlike Eq (fun budget => evaluateIn level budget scope first)
        fun budget => evaluateIn level budget scope second)
    {program other : Node} (shaped : program.IsProgram vocabulary)
    (exchanged : ExchangedProgram first second program other) {scope : Scope}
    (native : scope.Native vocabulary) :
    EndAlike (OutputsMatch vocabulary first second)
      (fun budget => run level budget program scope)
      fun budget => run level budget other scope := by
  have forward := replaceable_of_endAlike level one equal
  have backward := replaceable_of_endAlike level two fun scope native =>
    (equal scope native).symm Eq.symm
  have realises := run_realises level shaped native.every
  have otherwise := run_realises level (exchanged.isProgram two shaped) native.every
  by_cases ended : ∃ outcome, Runs program scope outcome
  · obtain ⟨outcome, derived⟩ := ended
    obtain ⟨following, again, alike⟩ := derived.carries forward two shaped native exchanged
    exact .ends (realises.settles outcome derived) (otherwise.settles following again) alike
  · -- An outcome of the other program would be carried back.
    have nothing : ∀ following, ¬ Runs other scope following := by
      intro following derived
      obtain ⟨outcome, again, -⟩ := derived.carries backward one
        (exchanged.isProgram two shaped) native exchanged.symm
      exact ended ⟨outcome, again⟩
    exact .endless (realises.endless.mpr fun outcome derived => ended ⟨outcome, derived⟩)
      (otherwise.endless.mpr nothing)

end

theorem initial_native (vocabulary : Vocabulary) : Scope.initial.Native vocabulary := by
  intro key value found
  rcases Scope.find?_extend_cases found with member | absent
  · obtain ⟨binding, listed, same⟩ := List.mem_map.mp member
    obtain ⟨-, rfl⟩ := Prod.mk.inj same
    rcases List.mem_cons.mp listed with rfl | builtin
    · exact .number Number.pi
    · obtain ⟨function, -, rfl⟩ := List.mem_map.mp builtin
      exact .builtin function
  · cases absent

def negation : Node :=
  .unaryExpression (.text "!") (.booleanLiteral true)

def callOf (argument : Node) : Node :=
  .call (.identifier (.text "f")) [argument]

def recursion (argument : Node) : Node :=
  .program (.block
    [.functionDeclaration (.identifier (.text "f")) [.identifier (.text "x")]
        (.conditionalExpression (.identifier (.text "x")) (callOf argument) negation),
      .printStatement (callOf (.booleanLiteral true))])

theorem exchange_equal_recursion :
    ExchangedProgram negation (.booleanLiteral false) (recursion negation)
        (recursion (.booleanLiteral false)) ∧
      EndAlike (OutputsMatch .unrestricted negation (.booleanLiteral false))
        (fun budget => run 0 budget (recursion negation) .initial)
        fun budget => run 0 budget (recursion (.booleanLiteral false)) .initial := by
  have one : negation.IsExpression .unrestricted := .unaryExpression trivial (.booleanLiteral true)
  have two : (Node.booleanLiteral false).IsExpression .unrestricted := .booleanLiteral false
  have call {argument : Node} (given : argument.IsExpression .unrestricted) :
      (callOf argument).IsExpression .unrestricted :=
    .call rfl fun node member => List.mem_singleton.mp member ▸ given
  have parameter : (Node.identifier (.text "x")).IsExpression .unrestricted := .identifier rfl
  have shaped : (recursion negation).IsProgram .unrestricted := by
    refine .program fun statement member => ?_
    rcases List.mem_pair.mp member with rfl | rfl
    · exact .functionDeclaration [Text.ofString "x"] rfl
        (.conditionalExpression parameter (call one) one)
    · exact .printStatement (call (.booleanLiteral true))
  have exchanged : ExchangedProgram negation (.booleanLiteral false) (recursion negation)
      (recursion (.booleanLiteral false)) := by
    refine .program (.cons (.functionDeclaration _ _ (.within ?_)) (.cons ?_ .nil))
    · exact .conditionalExpression (.within (.identifier _))
        (.within (.call _ (.cons .here .nil))) (.within (exchangedWithin_self one))
    · exact .printStatement (.within (exchangedWithin_self (call (.booleanLiteral true))))
  have equal (scope : Scope) : EndAlike Eq (fun budget => evaluateIn 0 budget scope negation)
      fun budget => evaluateIn 0 budget scope (.booleanLiteral false) := by
    have ended : Outcome.Alike Eq (.ok (Value.boolean false)) (.ok (.boolean false)) := .ok rfl
    exact .ends (settles_result fun _ => rfl) (settles_result fun _ => rfl) ended
  exact ⟨exchanged, exchange_equal 0 one two (fun scope _ => equal scope) shaped exchanged
    (initial_native _)⟩

end Bella
