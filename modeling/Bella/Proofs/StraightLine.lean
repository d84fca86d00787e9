import Bella.Proofs.Sequence
import Bella.Proofs.Store
import Bella.Proofs.Success
import Mathlib.Data.List.Flatten
import Mathlib.Data.List.Nodup

/-! Successful runs as straight lines. A run that succeeds has opened its blocks and repeated the
bodies of its loops, so it is the execution in turn of a list of simple statements. Main statement: that
list declares every name at most once, hence a loop that declares a name takes at most one turn. -/

namespace Bella

open Traced

mutual

def Node.simpleStatements : Node → List Node
  | .variableDeclaration id initializer => [.variableDeclaration id initializer]
  | .functionDeclaration id parameters body => [.functionDeclaration id parameters body]
  | .assignment target source => [.assignment target source]
  | .printStatement expression => [.printStatement expression]
  | .whileStatement _ body => body.simpleStatements
  | .block statements => simpleStatementsOfAll statements
  | _ => []

def simpleStatementsOfAll : List Node → List Node
  | [] => []
  | statement :: rest => statement.simpleStatements ++ simpleStatementsOfAll rest

end

mutual

def Node.ownDeclarations : Node → List Node
  | .variableDeclaration id initializer => [.variableDeclaration id initializer]
  | .functionDeclaration id parameters body => [.functionDeclaration id parameters body]
  | .block statements => ownDeclarationsOfAll statements
  | _ => []

def ownDeclarationsOfAll : List Node → List Node
  | [] => []
  | statement :: rest => statement.ownDeclarations ++ ownDeclarationsOfAll rest

end

def Node.isDeclaration : Node → Bool
  | .variableDeclaration _ _ | .functionDeclaration _ _ _ => true
  | _ => false

/-- The name that a declaration declares. -/
def Node.declaredKey? : Node → Option Key
  | .variableDeclaration id _ | .functionDeclaration id _ _ => id.name?.bind Datum.key?
  | _ => none

def declaredKeys (line : List Node) : List Key :=
  line.filterMap Node.declaredKey?

theorem simpleStatementsOfAll_append (before after : List Node) :
    simpleStatementsOfAll (before ++ after) =
      simpleStatementsOfAll before ++ simpleStatementsOfAll after := by
  induction before with
  | nil => rfl
  | cons statement rest ih => simp [simpleStatementsOfAll, ih]

theorem ownDeclarationsOfAll_append (before after : List Node) :
    ownDeclarationsOfAll (before ++ after) =
      ownDeclarationsOfAll before ++ ownDeclarationsOfAll after := by
  induction before with
  | nil => rfl
  | cons statement rest ih => simp [ownDeclarationsOfAll, ih]

inductive Step where
  | executed (statement : Node)
  | turned (test body : Node)
  | left (test : Node) (scope : Scope)

def Step.statement? : Step → Option Node
  | .executed statement => some statement
  | _ => none

def Step.body? : Step → Option Node
  | .turned _ body => some body
  | _ => none

def lineOf (path : List Step) : List Node :=
  path.filterMap Step.statement?

def turnsOf (path : List Step) : List Node :=
  path.filterMap Step.body?

/-- A run of pending statements to their end, with its path. A block leaves its statements to be
executed, and a loop whose test is true leaves its body, and itself behind the body. -/
inductive Takes (level : Nat) (budget : Budget) : List Node → State → List Step → State → Prop
  | done {state : State} : Takes level budget [] state [] state
  | statement {statement : Node} {rest : List Node} {path : List Step} {state middle next : State}
      (simple : statement.isCompound = false)
      (executed : (execute level budget statement state).result = .ok middle)
      (later : Takes level budget rest middle path next) :
      Takes level budget (statement :: rest) state (.executed statement :: path) next
  | block {statements rest : List Node} {path : List Step} {state next : State}
      (later : Takes level budget (statements ++ rest) state path next) :
      Takes level budget (.block statements :: rest) state path next
  | turn {test : Node} {statements rest : List Node} {path : List Step} {state next : State}
      (tested : (evaluateIn level budget state.scope test).result = .ok (.boolean true))
      (later : Takes level budget
        (statements ++ .whileStatement test (.block statements) :: rest) state path next) :
      Takes level budget (.whileStatement test (.block statements) :: rest) state
        (.turned test (.block statements) :: path) next
  | leave {test body : Node} {rest : List Node} {path : List Step} {state next : State}
      {value : Value}
      (tested : (evaluateIn level budget state.scope test).result = .ok value)
      (untrue : value ≠ .boolean true)
      (later : Takes level budget rest state path next) :
      Takes level budget (.whileStatement test body :: rest) state
        (.left test state.scope :: path) next

/-- The keys are distinct, none is bound at first, and they are what is bound in addition at last. -/
structure State.Declares (keys : List Key) (earlier later : State) : Prop where
  distinct : keys.Nodup
  fresh : ∀ key ∈ keys, earlier.scope.find? key = none
  bound : ∀ key, (later.scope.find? key).isSome ↔
    (earlier.scope.find? key).isSome ∨ key ∈ keys

namespace State.Declares

variable {state middle next : State} {key : Key} {value : Value} {keys others : List Key}

theorem none_of_same (same : next.scope = state.scope) : state.Declares [] next :=
  ⟨List.nodup_nil, by simp, by simp [same]⟩

theorem none_of_bound (output : List Value) (bound : (state.scope.find? key).isSome) :
    state.Declares [] ⟨state.scope.bind key value, output⟩ := by
  refine ⟨List.nodup_nil, by simp, fun other => ?_⟩
  rw [Scope.find?_bind]
  by_cases same : key = other
  · simpa [← same] using bound
  · simp [same]

theorem one_of_fresh (output : List Value) (fresh : state.scope.find? key = none) :
    state.Declares [key] ⟨state.scope.bind key value, output⟩ := by
  refine ⟨List.nodup_singleton key, by simpa using fresh, fun other => ?_⟩
  rw [Scope.find?_bind]
  by_cases same : key = other
  · simp [same]
  · simp [same, Ne.symm same]

theorem append (before : state.Declares keys middle) (after : middle.Declares others next) :
    state.Declares (keys ++ others) next := by
  have unbound : ∀ key ∈ others, ¬ (state.scope.find? key).isSome ∧ key ∉ keys := by
    intro key member
    have absent := after.fresh key member
    rw [← not_or, ← before.bound key]
    simp [absent]
  refine ⟨?_, ?_, fun key => ?_⟩
  · refine List.nodup_append'.mpr ⟨before.distinct, after.distinct, fun key one other => ?_⟩
    exact (unbound key other).2 one
  · intro key member
    rcases List.mem_append.mp member with one | other
    · exact before.fresh key one
    · exact Option.not_isSome_iff_eq_none.mp (unbound key other).1
  · rw [after.bound key, before.bound key, List.mem_append, or_assoc]

end State.Declares

section

variable {level : Nat} {budget : Budget} {state next : State}

theorem simpleStatements_eq {statement : Node} (simple : statement.isCompound = false)
    (executed : (execute level budget statement state).result = .ok next) :
    statement.simpleStatements = [statement] := by
  cases statement with
  | variableDeclaration | functionDeclaration | assignment | printStatement => rfl
  | whileStatement test body => cases simple
  | block statements => cases simple
  | _ => cases executed

theorem declaredKey?_isSome {statement : Node} (declares : statement.isDeclaration = true)
    (executed : (execute level budget statement state).result = .ok next) :
    statement.declaredKey?.isSome := by
  cases statement with
  | variableDeclaration id initializer =>
      obtain ⟨name, key, value, rfl, keyed, -⟩ := declaration_ok_iff.mp executed
      simp [Node.declaredKey?, Node.name?, keyed]
  | functionDeclaration id parameters body =>
      obtain ⟨name, key, names, rfl, keyed, -⟩ := definition_ok_iff.mp executed
      simp [Node.declaredKey?, Node.name?, keyed]
  | _ => cases declares

/-- A simple statement declares its name if it is a declaration, and binds no new one otherwise. -/
theorem simple_declares {statement : Node} (simple : statement.isCompound = false)
    (executed : (execute level budget statement state).result = .ok next) :
    state.Declares (declaredKeys [statement]) next := by
  cases statement with
  | variableDeclaration id initializer =>
      obtain ⟨name, key, value, rfl, keyed, fresh, -, rfl⟩ := declaration_ok_iff.mp executed
      have declared :
          declaredKeys [.variableDeclaration (.identifier name) initializer] = [key] := by
        simp [declaredKeys, Node.declaredKey?, Node.name?, keyed]
      rw [declared]
      exact .one_of_fresh state.output fresh
  | functionDeclaration id parameters body =>
      obtain ⟨name, key, names, rfl, keyed, fresh, -, -, rfl⟩ := definition_ok_iff.mp executed
      have declared :
          declaredKeys [.functionDeclaration (.identifier name) parameters body] = [key] := by
        simp [declaredKeys, Node.declaredKey?, Node.name?, keyed]
      rw [declared]
      exact .one_of_fresh state.output fresh
  | assignment target source =>
      obtain ⟨name, key, value, rfl, -, ⟨current, found, -⟩, -, rfl⟩ :=
        assignment_ok_iff.mp executed
      exact .none_of_bound state.output (by simp [found])
  | printStatement expression =>
      obtain ⟨value, -, rfl⟩ := print_ok_iff.mp executed
      exact .none_of_same rfl
  | whileStatement test body => cases simple
  | block statements => cases simple
  | _ => cases executed

theorem LeadsTo.takes {earlier later : Moment} (run : LeadsTo level budget earlier later)
    (ended : later.pending = []) :
    ∃ path, Takes level budget earlier.pending earlier.state path later.state := by
  induction run using Relation.ReflTransGen.head_induction_on with
  | refl =>
      rw [ended]
      exact ⟨[], .done⟩
  | head step _ ih =>
      obtain ⟨path, taken⟩ := ih
      cases step with
      | statement simple executed => exact ⟨_, .statement simple executed taken⟩
      | block => exact ⟨_, .block taken⟩
      | turn tested => exact ⟨_, .turn tested taken⟩
      | leave tested untrue => exact ⟨_, .leave tested untrue taken⟩

variable {pending : List Node} {path : List Step}

theorem Takes.occurs (taken : Takes level budget pending state path next) :
    ∀ statement ∈ lineOf path, statement ∈ simpleStatementsOfAll pending := by
  induction taken with
  | done => simp [lineOf]
  | statement simple executed _ ih =>
      intro statement member
      rw [simpleStatementsOfAll, simpleStatements_eq simple executed]
      rcases List.mem_cons.mp member with first | later
      · exact List.mem_append_left _ (List.mem_singleton.mpr first)
      · exact List.mem_append_right _ (ih statement later)
  | block _ ih =>
      simpa only [simpleStatementsOfAll, Node.simpleStatements, simpleStatementsOfAll_append]
        using ih
  | turn tested _ ih =>
      intro statement member
      have inside := ih statement member
      simp only [simpleStatementsOfAll, Node.simpleStatements, simpleStatementsOfAll_append,
        List.mem_append] at inside ⊢
      rcases inside with body | body | later
      · exact .inl body
      · exact .inl body
      · exact .inr later
  | leave tested untrue _ ih =>
      intro statement member
      exact List.mem_append_right _ (ih statement member)

theorem Takes.executes (taken : Takes level budget pending state path next) :
    (executeEach level budget (lineOf path) state).result = .ok next := by
  induction taken with
  | done => rfl
  | statement simple executed _ ih => exact bind_ok_iff.mpr ⟨_, executed, ih⟩
  | block _ ih => exact ih
  | turn tested _ ih => exact ih
  | leave tested untrue _ ih => exact ih

theorem Takes.declares (taken : Takes level budget pending state path next) :
    state.Declares (declaredKeys (lineOf path)) next := by
  induction taken with
  | done => exact .none_of_same rfl
  | @statement statement _ path _ _ _ simple executed _ ih =>
      have split : declaredKeys (statement :: lineOf path) =
          declaredKeys [statement] ++ declaredKeys (lineOf path) :=
        List.filterMap_append (l := [statement])
      have first := simple_declares simple executed
      change State.Declares (declaredKeys (statement :: lineOf path)) _ _
      rw [split]
      exact first.append ih
  | block _ ih => exact ih
  | turn tested _ ih => exact ih
  | leave tested untrue _ ih => exact ih

theorem Takes.named (taken : Takes level budget pending state path next) :
    ∀ statement ∈ lineOf path, statement.isDeclaration = true →
      statement.declaredKey?.isSome := by
  induction taken with
  | done => simp [lineOf]
  | statement simple executed _ ih =>
      intro statement member declares
      rcases List.mem_cons.mp member with rfl | later
      · exact declaredKey?_isSome declares executed
      · exact ih statement later declares
  | block _ ih => exact ih
  | turn tested _ ih => exact ih
  | leave tested untrue _ ih => exact ih

theorem Takes.declarations (taken : Takes level budget pending state path next) :
    ((lineOf path).filter Node.isDeclaration).Perm
      (ownDeclarationsOfAll pending ++ (turnsOf path).flatMap Node.ownDeclarations) := by
  induction taken with
  | done => exact .refl []
  | @statement statement rest path _ _ _ simple executed _ ih =>
      cases statement with
      | variableDeclaration id initializer => exact ih.cons _
      | functionDeclaration id parameters body => exact ih.cons _
      | whileStatement test body => cases simple
      | block statements => cases simple
      | _ => exact ih
  | block _ ih => rwa [ownDeclarationsOfAll_append] at ih
  | turn tested _ ih =>
      rw [ownDeclarationsOfAll_append, List.append_assoc] at ih
      exact ih.trans (List.perm_append_comm_assoc _ _ _)
  | leave tested untrue _ ih => exact ih

theorem Takes.leaves (taken : Takes level budget pending state path next) :
    ∀ test scope, .left test scope ∈ path →
      ∃ value, (evaluateIn level budget scope test).result = .ok value ∧
        value ≠ .boolean true := by
  induction taken with
  | done => simp
  | statement simple executed _ ih => simpa using ih
  | block _ ih => exact ih
  | turn tested _ ih => simpa using ih
  | @leave _ _ _ _ _ _ value tested untrue _ ih =>
      intro test scope member
      rcases List.mem_cons.mp member with same | later
      · cases same
        exact ⟨value, tested, untrue⟩
      · exact ih test scope later

theorem declaredKeys_filter (line : List Node) :
    declaredKeys (line.filter Node.isDeclaration) = declaredKeys line := by
  unfold declaredKeys
  rw [List.filterMap_filter]
  refine List.filterMap_congr fun statement _ => ?_
  cases statement <;> rfl

/-- A second turn would declare the names of the body again. -/
theorem Takes.turns_once (taken : Takes level budget pending state path next) {body : Node}
    (declares : body.ownDeclarations ≠ []) : ¬ [body, body].Sublist (turnsOf path) := by
  intro twice
  have repeated : (body.ownDeclarations ++ body.ownDeclarations).Sublist
      (ownDeclarationsOfAll pending ++ (turnsOf path).flatMap Node.ownDeclarations) := by
    have inside := twice.flatMap Node.ownDeclarations
    simp only [List.flatMap_cons, List.flatMap_nil, List.append_nil] at inside
    exact inside.trans (List.sublist_append_right _ _)
  obtain ⟨declaration, own⟩ := List.exists_mem_of_ne_nil _ declares
  have listed := repeated.subset (List.mem_append_left _ own)
  obtain ⟨executed, declaring⟩ := List.mem_filter.mp (taken.declarations.mem_iff.mpr listed)
  obtain ⟨key, keyed⟩ := Option.isSome_iff_exists.mp (taken.named declaration executed declaring)
  have member : key ∈ declaredKeys body.ownDeclarations :=
    List.mem_filterMap.mpr ⟨declaration, own, keyed⟩
  have distinct : (declaredKeys (body.ownDeclarations ++ body.ownDeclarations)).Nodup := by
    refine (repeated.filterMap Node.declaredKey?).nodup ?_
    refine (taken.declarations.filterMap Node.declaredKey?).nodup_iff.mp ?_
    change (declaredKeys ((lineOf path).filter Node.isDeclaration)).Nodup
    rw [declaredKeys_filter]
    exact taken.declares.distinct
  rw [declaredKeys, List.filterMap_append] at distinct
  exact (List.nodup_append'.mp distinct).2.2 member member

/-- A statement that is executed successfully takes a path whose simple statements, executed in turn,
do the same and declare every name at most once. No loop that declares a name in its body, outside the
loops in there, is turned twice, and every loop is left where its test is not true. -/
theorem execution_straightened (level : Nat) (budget : Budget) {statement : Node}
    {state next : State} (executed : (execute level budget statement state).result = .ok next) :
    ∃ path, Takes level budget [statement] state path next ∧
      (∀ simple ∈ lineOf path, simple ∈ statement.simpleStatements) ∧
      (executeEach level budget (lineOf path) state).result = .ok next ∧
      state.Declares (declaredKeys (lineOf path)) next ∧
      (∀ body : Node, body.ownDeclarations ≠ [] → ¬ [body, body].Sublist (turnsOf path)) ∧
      (∀ test scope, .left test scope ∈ path →
        ∃ value, (evaluateIn level budget scope test).result = .ok value ∧
          value ≠ .boolean true) ∧
      ∀ test body, statement = .whileStatement test body →
        ∃ value, (evaluateIn level budget next.scope test).result = .ok value ∧
          value ≠ .boolean true := by
  have leads : LeadsTo level budget ⟨[statement], state⟩ ⟨[], next⟩ :=
    (ensures_iff.mp (execute_leads statement [] state)).1 next executed
  obtain ⟨path, taken⟩ := leads.takes rfl
  refine ⟨path, taken, ?_, taken.executes, taken.declares, ?_, taken.leaves, ?_⟩
  · have occurs := taken.occurs
    rwa [simpleStatementsOfAll, simpleStatementsOfAll, List.append_nil] at occurs
  · exact fun body declares => taken.turns_once declares
  · rintro test body rfl
    rw [execute, executeBy] at executed
    exact loop_leaves executed

def declaringLoop : Node :=
  .whileStatement (.identifier (.text "x")) (.block
    [.block [.variableDeclaration (.identifier (.text "y")) (.identifier (.text "x"))],
      .assignment (.identifier (.text "x")) (.booleanLiteral false)])

def loopState : State :=
  ⟨Scope.initial.bind (.text "x") (.boolean true), []⟩

def loopEnd : State :=
  ⟨(loopState.scope.bind (.text "y") (.boolean true)).bind (.text "x") (.boolean false), []⟩

theorem execution_straightened_loop :
    (execute 0 ⟨1, 2⟩ declaringLoop loopState).result = .ok loopEnd ∧
      ∃ path, Takes 0 ⟨1, 2⟩ [declaringLoop] loopState path loopEnd ∧
        (executeEach 0 ⟨1, 2⟩ (lineOf path) loopState).result = .ok loopEnd ∧
        loopState.Declares (declaredKeys (lineOf path)) loopEnd := by
  have executed : (execute 0 ⟨1, 2⟩ declaringLoop loopState).result = .ok loopEnd := rfl
  obtain ⟨path, taken, -, line, declares, -⟩ := execution_straightened 0 ⟨1, 2⟩ executed
  exact ⟨executed, path, taken, line, declares⟩

end

end Bella
