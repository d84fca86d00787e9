import Bella.Proofs.Correspondence
import Mathlib.Logic.Relation

/-! What a scope keeps. Names that are bound stay bound, constants and functions keep their values, and
output only grows. Main statement: so it is from any statement's start to its end, and between any two
moments of a run. -/

namespace Bella

open Traced

structure Scope.Keeps (earlier later : Scope) : Prop where
  bound : ∀ key, (earlier.find? key).isSome → (later.find? key).isSome
  constants : later.constants = earlier.constants
  fixed : ∀ key value, earlier.find? key = some value →
    key ∈ earlier.constants ∨ value.isFunction = true → later.find? key = some value

namespace Scope.Keeps

theorem refl (scope : Scope) : scope.Keeps scope :=
  ⟨fun _ found => found, rfl, fun _ _ found _ => found⟩

theorem trans {first second third : Scope} (before : first.Keeps second)
    (after : second.Keeps third) : first.Keeps third where
  bound key found := after.bound key (before.bound key found)
  constants := after.constants.trans before.constants
  fixed key value found protection := by
    have kept := before.fixed key value found protection
    exact after.fixed key value kept (by rwa [before.constants])

theorem bind {scope : Scope} {key : Key} (value : Value)
    (allowed : scope.find? key = none ∨ scope.Assignable key) :
    scope.Keeps (scope.bind key value) where
  bound other found := by
    rw [find?_bind]
    split
    · rfl
    · exact found
  constants := rfl
  fixed other old found protection := by
    rw [find?_bind]
    split
    · rename_i same
      subst same
      rcases allowed with fresh | ⟨current, known, data, noConstant⟩
      · cases fresh.symm.trans found
      · obtain rfl := Option.some.inj (known.symm.trans found)
        rcases protection with constant | function
        · exact absurd constant noConstant
        · cases data.symm.trans function
    · exact found

end Scope.Keeps

def State.Continues (earlier later : State) : Prop :=
  earlier.scope.Keeps later.scope ∧ earlier.output <+: later.output

theorem keeps_correspondence (level : Nat) (budget : Budget) (start : Scope) :
    Correspondence (evaluateIn level budget) (evaluateIn level budget) Set.univ (fun _ => True)
      fun one other => one = other ∧ start.Keeps one where
  evaluate := by
    rintro _ _ _ ⟨rfl, -⟩ -
    exact alike_self fun _ _ => ⟨rfl, trivial⟩
  found := by
    rintro _ _ _ ⟨rfl, -⟩ -
    rfl
  constants := by
    rintro _ _ _ ⟨rfl, -⟩ -
    rfl
  bind := by
    rintro one _ key value ⟨rfl, kept⟩ - allowed -
    exact ⟨rfl, kept.trans (.bind value allowed)⟩

theorem execute_continues (level : Nat) (budget : Budget) {statement : Node}
    {state next : State} (executed : (execute level budget statement state).result = .ok next) :
    state.Continues next := by
  have initially : StatesAlike (fun one other => one = other ∧ state.scope.Keeps one)
      state.output state.output state state :=
    ⟨⟨rfl, .refl state.scope⟩, [], by simp⟩
  have alike : (execute level budget statement state).Alike (execute level budget statement state)
      (StatesAlike (fun one other => one = other ∧ state.scope.Keeps one) state.output
        state.output) :=
    executeBy_alike (keeps_correspondence level budget state.scope) statement
      (fun _ _ => trivial) (fun _ _ => trivial) state state initially
  unfold Alike at alike
  rw [executed] at alike
  obtain ⟨⟨-, kept⟩, printed, grown, -⟩ := alike
  exact ⟨kept, printed, grown.symm⟩

structure Moment where
  pending : List Node
  state : State

def Node.isCompound : Node → Bool
  | .whileStatement _ _ | .block _ => true
  | _ => false

/-- One step of a run. A block is opened, a loop is entered once more or left, and any other
statement is executed. -/
inductive Advances (level : Nat) (budget : Budget) : Moment → Moment → Prop
  | statement {statement : Node} {rest : List Node} {state next : State}
      (simple : statement.isCompound = false)
      (executed : (execute level budget statement state).result = .ok next) :
      Advances level budget ⟨statement :: rest, state⟩ ⟨rest, next⟩
  | block {statements rest : List Node} {state : State} :
      Advances level budget ⟨.block statements :: rest, state⟩ ⟨statements ++ rest, state⟩
  | turn {test : Node} {statements rest : List Node} {state : State}
      (tested : (evaluateIn level budget state.scope test).result = .ok (.boolean true)) :
      Advances level budget ⟨.whileStatement test (.block statements) :: rest, state⟩
        ⟨statements ++ .whileStatement test (.block statements) :: rest, state⟩
  | leave {test body : Node} {rest : List Node} {state : State} {value : Value}
      (tested : (evaluateIn level budget state.scope test).result = .ok value)
      (untrue : value ≠ .boolean true) :
      Advances level budget ⟨.whileStatement test body :: rest, state⟩ ⟨rest, state⟩

def LeadsTo (level : Nat) (budget : Budget) : Moment → Moment → Prop :=
  Relation.ReflTransGen (Advances level budget)

inductive Moment.Stops (level : Nat) (budget : Budget) : Moment → Fault → Prop
  | statement {statement : Node} {rest : List Node} {state : State} {fault : Fault}
      (simple : statement.isCompound = false)
      (failed : (execute level budget statement state).result = .error fault) :
      Stops level budget ⟨statement :: rest, state⟩ fault
  | test {test body : Node} {rest : List Node} {state : State} {fault : Fault}
      (failed : (evaluateIn level budget state.scope test).result = .error fault) :
      Stops level budget ⟨.whileStatement test body :: rest, state⟩ fault
  | body {test body : Node} {rest : List Node} {state : State}
      (tested : (evaluateIn level budget state.scope test).result = .ok (.boolean true))
      (other : ∀ statements, body ≠ .block statements) :
      Stops level budget ⟨.whileStatement test body :: rest, state⟩ .missingPart
  | turns {test body : Node} {rest : List Node} {state : State} :
      Stops level budget ⟨.whileStatement test body :: rest, state⟩ .loopTooLong

def Moment.Fails (level : Nat) (budget : Budget) (start : Moment) (fault : Fault) : Prop :=
  ∃ moment, LeadsTo level budget start moment ∧ moment.Stops level budget fault

theorem State.Continues.refl (state : State) : state.Continues state :=
  ⟨.refl state.scope, List.prefix_refl _⟩

theorem State.Continues.trans {first second third : State} (before : first.Continues second)
    (after : second.Continues third) : first.Continues third :=
  ⟨before.1.trans after.1, before.2.trans after.2⟩

section

variable {level : Nat} {budget : Budget} {earlier later : Moment}

theorem Advances.continues (step : Advances level budget earlier later) :
    earlier.state.Continues later.state := by
  cases step with
  | statement simple executed => exact execute_continues level budget executed
  | block => exact .refl _
  | turn tested => exact .refl _
  | leave tested untrue => exact .refl _

/-- What each step keeps, a run keeps from any of its moments to any later one. -/
theorem LeadsTo.continues (run : LeadsTo level budget earlier later) :
    earlier.state.Continues later.state := by
  induction run with
  | refl => exact .refl _
  | tail _ step ih => exact ih.trans step.continues

theorem LeadsTo.fails {fault : Fault} (run : LeadsTo level budget earlier later)
    (fails : later.Fails level budget fault) : earlier.Fails level budget fault := by
  obtain ⟨moment, further, stops⟩ := fails
  exact ⟨moment, run.trans further, stops⟩

theorem advances_simple {statement : Node} (simple : statement.isCompound = false)
    (rest : List Node) (state : State) :
    (execute level budget statement state).Ensures
      (fun next => LeadsTo level budget ⟨statement :: rest, state⟩ ⟨rest, next⟩)
      (Moment.Fails level budget ⟨statement :: rest, state⟩) := by
  rw [ensures_iff]
  exact ⟨fun next executed => .single (.statement simple executed),
    fun fault failed => ⟨_, .refl, .statement simple failed⟩⟩

mutual

/-- A statement that is executed at one go leads where its steps lead, or fails where they stop. -/
theorem execute_leads : ∀ (statement : Node) (rest : List Node) (state : State),
    (execute level budget statement state).Ensures
      (fun next => LeadsTo level budget ⟨statement :: rest, state⟩ ⟨rest, next⟩)
      (Moment.Fails level budget ⟨statement :: rest, state⟩)
  | .whileStatement test body, rest, state => by
      unfold execute
      rw [executeBy]
      refine ensures_repeatWhile
        (fun current => LeadsTo level budget ⟨.whileStatement test body :: rest, state⟩
          ⟨.whileStatement test body :: rest, current⟩)
        budget.turns ⟨_, .refl, .turns⟩ .refl fun current earlier => ?_
      unfold loopTurn
      have tested : (evaluateIn level budget current.scope test).Ensures
          (fun value => (evaluateIn level budget current.scope test).result = .ok value)
          (Moment.Fails level budget ⟨.whileStatement test body :: rest, state⟩) :=
        ensures_iff.mpr ⟨fun _ ended => ended, fun _ failed => ⟨_, earlier, .test failed⟩⟩
      refine ensures_bind tested fun value ended => ensures_note ?_
      split
      · have entered := executeBody_leads body (.whileStatement test body :: rest) current
        refine ensures_bind (ensures_mono entered (fun _ taken => taken) fun fault broken => ?_)
          fun next taken => ?_
        · rcases broken with ⟨statements, rfl, fails⟩ | ⟨rfl, other⟩
          · exact earlier.fails (LeadsTo.fails (.single (.turn ended)) fails)
          · exact ⟨_, earlier, .body ended other⟩
        · obtain ⟨statements, rfl, turn⟩ := taken
          exact ensures_pure (earlier.trans (.head (.turn ended) turn))
      · rename_i untrue
        exact ensures_pure (earlier.tail (.leave ended fun same => untrue same))
  | .block statements, rest, state => by
      unfold execute
      rw [executeBy]
      exact ensures_mono (executeAll_leads statements rest state)
        (fun _ inner => .head .block inner) fun _ fails => LeadsTo.fails (.single .block) fails
  | .variableDeclaration _ _, rest, state | .functionDeclaration _ _ _, rest, state
  | .assignment _ _, rest, state | .printStatement _, rest, state | .numeral _, rest, state
  | .booleanLiteral _, rest, state | .identifier _, rest, state | .unaryExpression _ _, rest, state
  | .binaryExpression _ _ _, rest, state | .conditionalExpression _ _ _, rest, state
  | .arrayLiteral _, rest, state | .subscriptExpression _ _, rest, state | .call _ _, rest, state
  | .program _, rest, state => advances_simple rfl rest state

theorem executeBody_leads : ∀ (body : Node) (rest : List Node) (state : State),
    (executeBodyBy level budget.turns (evaluateIn level budget) body state).Ensures
      (fun next => ∃ statements, body = .block statements ∧
        LeadsTo level budget ⟨statements ++ rest, state⟩ ⟨rest, next⟩)
      fun fault => (∃ statements, body = .block statements ∧
          Moment.Fails level budget ⟨statements ++ rest, state⟩ fault) ∨
        fault = .missingPart ∧ ∀ statements, body ≠ .block statements
  | .block statements, rest, state => by
      rw [executeBodyBy]
      exact ensures_mono (executeAll_leads statements rest state)
        (fun _ inner => ⟨statements, rfl, inner⟩) fun _ fails => .inl ⟨statements, rfl, fails⟩
  | .variableDeclaration _ _, _, _ | .functionDeclaration _ _ _, _, _ | .assignment _ _, _, _
  | .printStatement _, _, _ | .whileStatement _ _, _, _ | .numeral _, _, _
  | .booleanLiteral _, _, _ | .identifier _, _, _ | .unaryExpression _ _, _, _
  | .binaryExpression _ _ _, _, _ | .conditionalExpression _ _ _, _, _ | .arrayLiteral _, _, _
  | .subscriptExpression _ _, _, _ | .call _ _, _, _ | .program _, _, _ => by
      simp only [executeBodyBy]
      exact ensures_fail (.inr ⟨rfl, nofun⟩)

theorem executeAll_leads : ∀ (statements rest : List Node) (state : State),
    (executeAll level budget statements state).Ensures
      (fun next => LeadsTo level budget ⟨statements ++ rest, state⟩ ⟨rest, next⟩)
      (Moment.Fails level budget ⟨statements ++ rest, state⟩)
  | [], rest, state => by
      unfold executeAll
      rw [executeAllBy]
      exact ensures_pure .refl
  | statement :: others, rest, state => by
      unfold executeAll
      rw [executeAllBy]
      refine ensures_bind (execute_leads statement (others ++ rest) state) fun next first => ?_
      exact ensures_mono (executeAll_leads others rest next) (fun _ later => first.trans later)
        fun _ fails => first.fails fails

end

end

theorem initial_builtins : ∀ binding ∈ Scope.builtinBindings,
    Key.text binding.1 ∈ Scope.initial.constants ∧
      Scope.initial.find? (.text binding.1) = some binding.2 := by
  intro binding member
  simp only [Scope.builtinBindings, Builtin.all, List.map_cons, List.map_nil, List.mem_cons,
    List.not_mem_nil, or_false] at member
  rcases member with rfl | rfl | rfl | rfl | rfl | rfl | rfl
  all_goals exact ⟨by decide, rfl⟩

/-- Execution only adds to what a scope keeps and to the output. From the initial scope it passes only
through moments where the names bound from the start have their values, and a name that is bound to a
function at one of them is bound to it at all later ones. -/
theorem execution_protects (level : Nat) (budget : Budget) :
    (∀ statement state next, (execute level budget statement state).result = .ok next →
      state.Continues next) ∧
    (∀ statements final, (executeAll level budget statements ⟨.initial, []⟩).result = .ok final →
      LeadsTo level budget ⟨statements, ⟨.initial, []⟩⟩ ⟨[], final⟩) ∧
    ∀ statements moment, LeadsTo level budget ⟨statements, ⟨.initial, []⟩⟩ moment →
      (∀ binding ∈ Scope.builtinBindings,
        moment.state.scope.find? (.text binding.1) = some binding.2) ∧
      ∀ later, LeadsTo level budget moment later →
        ∀ key function, moment.state.scope.find? key = some function →
          function.isFunction = true → later.state.scope.find? key = some function := by
  refine ⟨fun statement state next => execute_continues level budget, ?_, ?_⟩
  · intro statements final executed
    have leads := (ensures_iff.mp (executeAll_leads statements [] ⟨.initial, []⟩)).1 final executed
    rwa [List.append_nil] at leads
  · intro statements moment run
    constructor
    · intro binding member
      obtain ⟨constant, found⟩ := initial_builtins binding member
      exact run.continues.1.fixed _ _ found (.inl constant)
    · intro later further key function found isFunction
      exact further.continues.1.fixed _ _ found (.inr isFunction)

def identityFunction : Value :=
  .function (.text "f") [.text "x"] (.identifier (.text "x"))

def variableState : State :=
  ⟨(Scope.initial.bind (.text "f") identityFunction).bind (.text "g") (.boolean true), []⟩

theorem execution_protects_assigned :
    (execute 0 ⟨1, 1⟩ (.assignment (.identifier (.text "g")) (.identifier (.text "f")))
        variableState).result =
      .ok ⟨variableState.scope.bind (.text "g") identityFunction, []⟩ ∧
    variableState.Continues ⟨variableState.scope.bind (.text "g") identityFunction, []⟩ := by
  have executed : (execute 0 ⟨1, 1⟩
      (.assignment (.identifier (.text "g")) (.identifier (.text "f"))) variableState).result =
      .ok ⟨variableState.scope.bind (.text "g") identityFunction, []⟩ := rfl
  exact ⟨executed, (execution_protects 0 ⟨1, 1⟩).1 _ _ _ executed⟩

end Bella
