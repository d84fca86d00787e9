import Bella.Proofs.Origin.Functions
import Bella.Proofs.Trace.Levels

/-! What a run tells of. Main statement: from the initial scope every name in an event or in the message of
a misuse is one of the program's or that of a built-in function, and every function in them has one of the
program's for a name. -/

namespace Bella

open Traced

def Datum.NamedIn (names : Set Key) (name : Datum) : Prop :=
  ∃ key ∈ names, name.key? = some key

def DeclaredIn (names : Set Key) (name : Datum) (_ : List Datum) (body : Node) : Prop :=
  name.NamedIn names ∧ body.Within names

abbrev Traced.MakesIn {α : Type} (names : Set Key) (holds : α → Prop) (run : Traced α) : Prop :=
  run.Makes (Datum.NamedIn names) (DeclaredIn names) holds

abbrev Scope.MadeIn (names : Set Key) (scope : Scope) : Prop :=
  scope.Made (DeclaredIn names)

abbrev State.MadeIn (names : Set Key) (state : State) : Prop :=
  state.Made (DeclaredIn names)

abbrev Value.MadeIn (names : Set Key) (value : Value) : Prop :=
  value.Made (DeclaredIn names)

section

variable {α : Type} {named : Datum → Prop} {declared : Datum → List Datum → Node → Prop}
  {invariant : α → Prop}

theorem makes_repeatWhile {turn : α → Traced (α × Bool)}
    (each : ∀ state, invariant state →
      (turn state).Makes named declared fun taken => invariant taken.1)
    (turns : Nat) {state : α} (initially : invariant state) :
    (repeatWhile turn turns state).Makes named declared invariant := by
  induction turns generalizing state with
  | zero => exact makes_fail trivial
  | succ turns ih =>
      rw [repeatWhile_eq_bind]
      refine makes_bind (each state initially) fun taken holding => ?_
      split
      · exact ih holding
      · exact makes_pure holding

end

section

variable {names : Set Key} {level turns : Nat} {evaluator : Evaluator}

theorem Node.Within.keysOf {node : Node} (within : node.Within names) :
    node.Within (keysOf (Datum.NamedIn names)) :=
  fun key among _ known => ⟨key, within key among, known⟩

theorem nameOf_namedIn {id : Node} {name : Datum} (within : id.Within names)
    (found : nameOf id = .ok name) : ∀ key, name.key? = some key → name.NamedIn names :=
  nameOf_named within.keysOf found

theorem parameterNames_namedIn {function : Datum} {seen : List Key} {parameters : List Node}
    {found : List Datum} (bound : parameterNames function seen parameters = .ok found)
    (within : ∀ parameter ∈ parameters, parameter.Within names) : ∀ name ∈ found, name.NamedIn names := by
  induction parameters generalizing seen found with
  | nil =>
      obtain rfl := Except.ok.inj bound
      exact List.forall_mem_nil _
  | cons parameter rest ih =>
      obtain ⟨name, key, others, taken, known, -, later, rfl⟩ := parameterNames_cons_ok bound
      obtain ⟨first, remaining⟩ := List.forall_mem_cons.mp within
      exact List.forall_mem_cons.mpr
        ⟨nameOf_namedIn first taken key (Scope.keyOf_ok known), ih later remaining⟩

theorem noteDefinition_makes {name : Datum} {parameters : List Datum} (known : name.NamedIn names)
    (each : ∀ parameter ∈ parameters, parameter.NamedIn names) :
    (noteDefinition level name parameters).MakesIn names fun _ => True := by
  rw [noteDefinition]
  split
  · exact makes_pure trivial
  · refine makes_after (parameterTexts_plain parameters) fun texts written => makes_note level ⟨known, ?_⟩
    rcases parameterTexts_cases parameters with ⟨others, rfl⟩ | ⟨refused, -⟩
    · obtain rfl := Except.ok.inj ((parameterTexts_map others).symm.trans written)
      exact List.forall_mem_map.mp each
    · cases refused.symm.trans written

theorem within_of_mem {nodes : List Node} (within : ∀ key ∈ namesOfAll nodes, key ∈ names) :
    ∀ node ∈ nodes, node.Within names :=
  fun node inside key among => within key (mem_namesOfAll.mpr ⟨node, inside, among⟩)

mutual

theorem executeBy_makes (evaluated : ∀ scope node, node.Within names → scope.MadeIn names →
      (evaluator scope node).MakesIn names (Value.MadeIn names)) :
    ∀ (statement : Node) (state : State), statement.Within names → state.MadeIn names →
      (executeBy level turns evaluator statement state).MakesIn names (State.MadeIn names)
  | .variableDeclaration id initializer, state, within, made => by
      simp only [executeBy]
      obtain ⟨target, source⟩ := List.forall_mem_append.mp within
      refine makes_after (nameOf_plain id) fun name taken => ?_
      have named := nameOf_namedIn target taken
      refine makes_after (mayDeclare_plain named state.scope) fun _ allowed => ?_
      obtain ⟨key, keyed, fresh⟩ := Scope.mayDeclare_ok_iff.mp allowed
      refine makes_bind (evaluated _ _ source made.1) fun value valued => ?_
      refine makes_bind (makes_note level ⟨named key keyed, valued⟩) fun _ _ => ?_
      rw [Scope.declare_fresh value keyed fresh]
      exact makes_pure ⟨made.1.bind key valued, made.2⟩
  | .functionDeclaration id parameters body, state, within, made => by
      simp only [executeBy]
      obtain ⟨before, inner⟩ := List.forall_mem_append.mp within
      obtain ⟨target, others⟩ := List.forall_mem_append.mp before
      have each := within_of_mem others
      refine makes_after (nameOf_plain id) fun name taken => ?_
      have named := nameOf_namedIn target taken
      refine makes_after (mayDeclare_plain named state.scope) fun _ allowed => ?_
      obtain ⟨key, keyed, fresh⟩ := Scope.mayDeclare_ok_iff.mp allowed
      have known := named key keyed
      refine makes_after (parameterNames_plain known [] fun parameter inside =>
        (each parameter inside).keysOf) fun found bound => ?_
      refine makes_bind (noteDefinition_makes known (parameterNames_namedIn bound each)) fun _ _ => ?_
      rw [Scope.declare_fresh _ keyed fresh]
      exact makes_pure ⟨made.1.bind key (.function ⟨known, inner⟩), made.2⟩
  | .assignment target source, state, within, made => by
      simp only [executeBy]
      obtain ⟨first, second⟩ := List.forall_mem_append.mp within
      refine makes_after (nameOf_plain target) fun name taken => ?_
      have named := nameOf_namedIn first taken
      refine makes_after (mayAssign_plain named state.scope) fun _ allowed => ?_
      obtain ⟨key, keyed, assignable⟩ := Scope.mayAssign_ok_iff.mp allowed
      refine makes_bind (evaluated _ _ second made.1) fun value valued => ?_
      refine makes_bind (makes_note level ⟨named key keyed, valued⟩) fun _ _ => ?_
      rw [Scope.assign_assignable value keyed assignable]
      exact makes_pure ⟨made.1.bind key valued, made.2⟩
  | .printStatement expression, state, within, made => by
      simp only [executeBy]
      refine makes_bind (evaluated _ _ within made.1) fun value valued => ?_
      refine makes_bind (makes_note level valued) fun _ _ => makes_pure ⟨made.1, ?_⟩
      exact List.forall_mem_append.mpr ⟨made.2, List.forall_mem_singleton.mpr valued⟩
  | .whileStatement test body, state, within, made => by
      simp only [executeBy]
      obtain ⟨first, inner⟩ := List.forall_mem_append.mp within
      refine makes_repeatWhile (fun current holding => ?_) turns made
      unfold loopTurn
      refine makes_bind (evaluated _ _ first holding.1) fun value valued => ?_
      refine makes_bind (makes_note level valued) fun _ _ => ?_
      split
      · exact makes_bind (executeBodyBy_makes evaluated body current inner holding)
          fun next kept => makes_pure kept
      · exact makes_pure holding
  | .block statements, state, within, made => by
      simp only [executeBy]
      exact executeAllBy_makes evaluated statements state (within_of_mem within) made
  | .numeral _, _, _, _ | .booleanLiteral _, _, _, _ | .identifier _, _, _, _
  | .unaryExpression _ _, _, _, _ | .binaryExpression _ _ _, _, _, _
  | .conditionalExpression _ _ _, _, _, _ | .arrayLiteral _, _, _, _
  | .subscriptExpression _ _, _, _, _ | .call _ _, _, _, _ | .program _, _, _, _ => by
      simp only [executeBy]
      exact makes_fail trivial

theorem executeBodyBy_makes (evaluated : ∀ scope node, node.Within names → scope.MadeIn names →
      (evaluator scope node).MakesIn names (Value.MadeIn names)) :
    ∀ (body : Node) (state : State), body.Within names → state.MadeIn names →
      (executeBodyBy level turns evaluator body state).MakesIn names (State.MadeIn names)
  | .block statements, state, within, made => by
      simp only [executeBodyBy]
      exact executeAllBy_makes evaluated statements state (within_of_mem within) made
  | .numeral _, _, _, _ | .booleanLiteral _, _, _, _ | .identifier _, _, _, _
  | .unaryExpression _ _, _, _, _ | .binaryExpression _ _ _, _, _, _
  | .conditionalExpression _ _ _, _, _, _ | .arrayLiteral _, _, _, _
  | .subscriptExpression _ _, _, _, _ | .call _ _, _, _, _ | .variableDeclaration _ _, _, _, _
  | .functionDeclaration _ _ _, _, _, _ | .assignment _ _, _, _, _ | .printStatement _, _, _, _
  | .whileStatement _ _, _, _, _ | .program _, _, _, _ => by
      simp only [executeBodyBy]
      exact makes_fail trivial

theorem executeAllBy_makes (evaluated : ∀ scope node, node.Within names → scope.MadeIn names →
      (evaluator scope node).MakesIn names (Value.MadeIn names)) :
    ∀ (statements : List Node) (state : State), (∀ statement ∈ statements, statement.Within names) →
      state.MadeIn names →
      (executeAllBy level turns evaluator statements state).MakesIn names (State.MadeIn names)
  | [], state, _, made => by
      simp only [executeAllBy]
      exact makes_pure made
  | statement :: rest, state, within, made => by
      simp only [executeAllBy]
      obtain ⟨first, others⟩ := List.forall_mem_cons.mp within
      exact makes_bind (executeBy_makes evaluated statement state first made) fun next kept =>
        executeAllBy_makes evaluated rest next others kept

end

end

theorem run_makes (level : Nat) (budget : Budget) {program : Node} {names : Set Key}
    (within : program.Within names) :
    (run level budget program .initial).MakesIn names
      fun output => ∀ value ∈ output, value.MadeIn names := by
  have evaluated (scope : Scope) (node : Node) (within : node.Within names) (made : scope.MadeIn names) :
      (evaluateIn level budget scope node).MakesIn names (Value.MadeIn names) :=
    evaluate_makes (fun _ _ => applyFunction_makes level budget.depth
      (fun _ _ _ known => ⟨known.1, known.2.keysOf⟩) made) made node within.keysOf
  unfold run runBy
  cases program with
  | program body =>
      cases body with
      | block statements =>
          refine makes_bind (makes_note level trivial) fun _ _ => ?_
          refine makes_bind (executeAllBy_makes evaluated statements _ (within_of_mem within)
            ⟨initial_made, List.forall_mem_nil _⟩) fun final kept => ?_
          exact makes_bind (makes_note level trivial) fun _ _ => makes_pure kept.2
      | _ => exact makes_fail trivial
  | _ => exact makes_fail trivial

end Bella
