import Bella.Proofs.Origin.Functions
import Bella.Proofs.Trace.Levels

/-! What a trace tells from level two on. Evaluation adds nothing at that level, a simple statement
is told of just if it succeeds, and blocks and loops only lead from one such statement to the next. Main
statement: the events of a run are, in order, those of the simple statements that it has completed, up to
the moment where it ends or stops. -/

namespace Bella

open Traced

structure Completion where
  statement : Node
  before : State
  after : State
  event : Event

inductive Completion.Faithful : Completion → Prop
  | declaration {name : Datum} {key : Key} {initializer : Node} {value : Value} {state : State}
      (named : name.key? = some key) (fresh : state.scope.find? key = none) :
      Faithful ⟨.variableDeclaration (.identifier name) initializer, state,
        { state with scope := state.scope.bind key value }, .declared name value⟩
  | definition {name : Datum} {key : Key} {parameters : List Text} {body : Node} {state : State}
      (named : name.key? = some key) (fresh : state.scope.find? key = none) :
      Faithful ⟨.functionDeclaration (.identifier name) (parameters.map parameterNode) body, state,
        { state with
          scope := state.scope.bind key (.function name (parameters.map .text) body) },
        .defined name parameters⟩
  | assignment {name : Datum} {key : Key} {source : Node} {value : Value} {state : State}
      (named : name.key? = some key) (assignable : state.scope.Assignable key) :
      Faithful ⟨.assignment (.identifier name) source, state,
        { state with scope := state.scope.bind key value }, .assigned name value⟩
  | print {expression : Node} {value : Value} {state : State} :
      Faithful ⟨.printStatement expression, state,
        { state with output := state.output ++ [value] }, .printed value⟩

inductive Performs (level : Nat) (budget : Budget) (start : Moment) :
    List Completion → Moment → Prop
  | here : Performs level budget start [] start
  | passes {done : List Completion} {earlier later : Moment}
      (before : Performs level budget start done earlier)
      (advances : Advances level budget earlier later) (compound : earlier.next = []) :
      Performs level budget start done later
  | completes {done : List Completion} {statement : Node} {rest : List Node} {state next : State}
      {event : Event} (before : Performs level budget start done ⟨statement :: rest, state⟩)
      (simple : statement.isCompound = false)
      (executed : (execute level budget statement state).result = .ok next)
      (faithful : Completion.Faithful ⟨statement, state, next, event⟩) :
      Performs level budget start (done ++ [⟨statement, state, next, event⟩]) ⟨rest, next⟩

theorem Event.level_positive (event : Event) : 0 < event.level := by
  cases event <;> exact Nat.succ_pos _

theorem note_silent {level : Nat} {event : Event} (above : level < event.level) :
    note level event = pure () := by
  rw [note, if_neg (Nat.not_le_of_lt above)]
  rfl

theorem note_told {level : Nat} {event : Event} (within : event.level ≤ level) :
    note level event = ⟨[event], .ok ()⟩ := by
  rw [note, if_pos within]

section

variable {level : Nat} {budget : Budget}

theorem applyFunction_quiet (below : level < 3) (depth : Nat) :
    applyFunction level depth = applyFunction 0 depth := by
  have called (name : Datum) (arguments : List Value) :
      note level (.called name arguments) = note 0 (.called name arguments) :=
    (note_silent below).trans (note_silent (by exact Nat.succ_pos 2)).symm
  have builtin (function : Builtin) (arguments : List Value) :
      note level (.calledBuiltin function arguments) = note 0 (.calledBuiltin function arguments) :=
    (note_silent below).trans (note_silent (by exact Nat.succ_pos 2)).symm
  induction depth with
  | zero =>
      funext function arguments scope
      cases function <;> simp only [applyFunction, called, builtin]
  | succ depth ih =>
      funext function arguments scope
      cases function <;> simp only [applyFunction, called, builtin, ih]

theorem evaluateIn_quiet (below : level < 3) (budget : Budget) (scope : Scope) (node : Node) :
    evaluateIn level budget scope node =
      ofExcept (evaluateIn level budget scope node).result := by
  have same : evaluateIn level budget scope node = evaluateIn 0 budget scope node := by
    rw [evaluateIn, evaluateIn, applyFunction_quiet below]
  have silent : (evaluateIn 0 budget scope node).events = [] := by
    rw [evaluateIn_told (Nat.le_refl 0)]
    refine List.filter_eq_nil_iff.mpr fun event _ => ?_
    simpa using Nat.ne_of_gt event.level_positive
  rw [same]
  exact congrArg (Traced.mk · _) silent

def Traced.Tells {α : Type} (traced : Traced α) (holds : α → Event → Prop) : Prop :=
  (∃ fault, traced = fail fault) ∨ ∃ value event, traced = ⟨[event], .ok value⟩ ∧ holds value event

theorem ofExcept_ok_bind {α β : Type} (value : α) (next : α → Traced β) :
    (ofExcept (.ok value) >>= next) = next value :=
  rfl

theorem tells_check {α β : Type} {result : Except Fault α} {next : α → Traced β}
    {holds : β → Event → Prop}
    (after : ∀ value, result = .ok value → (next value).Tells holds) :
    (ofExcept result >>= next).Tells holds := by
  cases result with
  | error fault => exact .inl ⟨fault, rfl⟩
  | ok value => exact after value rfl

theorem tells_note {α : Type} {event : Event} {value : α} {holds : α → Event → Prop}
    (second : event.level = 2) (holding : holds value event) :
    (note 2 event >>= fun _ => pure value).Tells holds := by
  refine .inr ⟨value, event, ?_, holding⟩
  rw [note_told second.le]
  rfl

/-- At level two a simple statement is told of just if it succeeds. -/
theorem execute_tells {statement : Node} (simple : statement.isCompound = false) (state : State) :
    (execute 2 budget statement state).Tells fun next event =>
      Completion.Faithful ⟨statement, state, next, event⟩ := by
  have quiet := evaluateIn_quiet (show 2 < 3 by decide) budget state.scope
  unfold execute
  cases statement with
  | variableDeclaration id initializer =>
      rw [executeBy, quiet]
      refine tells_check fun name named => tells_check fun _ allowed => tells_check fun value _ => ?_
      obtain rfl := nameOf_ok named
      obtain ⟨key, keyed, fresh⟩ := Scope.mayDeclare_ok_iff.mp allowed
      rw [Scope.declare_fresh value keyed fresh]
      exact tells_note rfl (.declaration keyed fresh)
  | functionDeclaration id parameters body =>
      rw [executeBy]
      refine tells_check fun name named => tells_check fun _ allowed => tells_check fun names known => ?_
      obtain rfl := nameOf_ok named
      obtain rfl := parameterNames_ok known
      obtain ⟨key, keyed, fresh⟩ := Scope.mayDeclare_ok_iff.mp allowed
      rw [Scope.declare_fresh _ keyed fresh, noteDefinition, if_neg (lt_irrefl 2)]
      rcases parameterTexts_cases names with ⟨texts, rfl⟩ | ⟨refused, -⟩
      · rw [parameterTexts_map, ofExcept_ok_bind, List.map_map]
        exact tells_note rfl (.definition keyed fresh)
      · rw [refused]
        exact .inl ⟨_, rfl⟩
  | assignment target source =>
      rw [executeBy, quiet]
      refine tells_check fun name named => tells_check fun _ allowed => tells_check fun value _ => ?_
      obtain rfl := nameOf_ok named
      obtain ⟨key, keyed, assignable⟩ := Scope.mayAssign_ok_iff.mp allowed
      rw [Scope.assign_assignable value keyed assignable]
      exact tells_note rfl (.assignment keyed assignable)
  | printStatement expression =>
      rw [executeBy, quiet]
      exact tells_check fun value _ => tells_note rfl .print
  | whileStatement test body => cases simple
  | block statements => cases simple
  | _ =>
      simp only [executeBy]
      exact .inl ⟨_, rfl⟩

/-- A computation that starts at a moment and tells of all that it completes on the way, to the moment
of its value or to one where it stops. -/
def Traced.Records {α : Type} (budget : Budget) (start : Moment) (traced : Traced α)
    (arrival : α → Moment) : Prop :=
  ∃ done moment, Performs 2 budget start done moment ∧
    traced.events = done.map Completion.event ∧
    (∀ value, traced.result = .ok value → moment = arrival value) ∧
    ∀ fault, traced.result = .error fault → moment.Stops 2 budget fault

variable {start earlier later : Moment}

theorem Performs.trans {done further : List Completion}
    (before : Performs level budget start done earlier)
    (after : Performs level budget earlier further later) :
    Performs level budget start (done ++ further) later := by
  induction after with
  | here => rwa [List.append_nil]
  | passes _ advances compound ih => exact .passes ih advances compound
  | completes _ simple executed faithful ih =>
      rw [← List.append_assoc]
      exact .completes ih simple executed faithful

theorem records_pure {α : Type} {value : α} {arrival : α → Moment}
    (arrived : Performs 2 budget start [] (arrival value)) :
    (pure value : Traced α).Records budget start arrival := by
  refine ⟨[], _, arrived, rfl, fun other same => ?_, fun fault same => ?_⟩
  · obtain rfl := Except.ok.inj same
    rfl
  · cases same

theorem records_fail {α : Type} {fault : Fault} {arrival : α → Moment}
    (arrived : Performs 2 budget start [] later) (stops : later.Stops 2 budget fault) :
    (fail fault : Traced α).Records budget start arrival := by
  refine ⟨[], _, arrived, rfl, fun value same => ?_, fun other same => ?_⟩
  · cases same
  · obtain rfl := Except.error.inj same
    exact stops

theorem records_after {α : Type} {traced : Traced α} {arrival : α → Moment}
    (before : Performs 2 budget start [] earlier) (recorded : traced.Records budget earlier arrival) :
    traced.Records budget start arrival := by
  obtain ⟨done, moment, performed, events, arrives, stops⟩ := recorded
  exact ⟨done, moment, before.trans performed, events, arrives, stops⟩

theorem records_bind {α β : Type} {first : Traced α} {next : α → Traced β} {middle : α → Moment}
    {arrival : β → Moment} (before : first.Records budget start middle)
    (after : ∀ value, (next value).Records budget (middle value) arrival) :
    (first >>= next).Records budget start arrival := by
  obtain ⟨done, moment, performed, events, arrives, stops⟩ := before
  cases ended : first.result with
  | error fault =>
      rw [bind_of_error ended]
      refine ⟨done, moment, performed, events, fun _ same => ?_, fun other same => ?_⟩
      · cases same
      · obtain rfl := Except.error.inj same
        exact stops fault ended
  | ok value =>
      obtain rfl := arrives value ended
      obtain ⟨further, last, later, told, arrives, stops⟩ := after value
      rw [bind_of_ok ended]
      refine ⟨done ++ further, last, performed.trans later, ?_, arrives, stops⟩
      rw [List.map_append, ← events, ← told]

theorem records_simple {statement : Node} (simple : statement.isCompound = false)
    (rest : List Node) (state : State) :
    (execute 2 budget statement state).Records budget ⟨statement :: rest, state⟩ (Moment.mk rest) := by
  rcases execute_tells simple state with ⟨fault, failed⟩ | ⟨next, event, succeeded, faithful⟩
  · rw [failed]
    exact records_fail .here (.statement simple (congrArg Traced.result failed))
  · have executed : (execute 2 budget statement state).result = .ok next :=
      congrArg Traced.result succeeded
    refine ⟨_, _, .completes .here simple executed faithful, congrArg Traced.events succeeded, ?_, ?_⟩
    · intro value same
      obtain rfl := Except.ok.inj (executed.symm.trans same)
      rfl
    · intro fault same
      cases executed.symm.trans same

section

variable {test body : Node} {rest : List Node} {execution : State → Traced State}

theorem records_turn {state : State}
    (inside : (evaluateIn 2 budget state.scope test).result = .ok (.boolean true) →
      (execution state).Records budget ⟨.whileStatement test body :: rest, state⟩
        (Moment.mk (.whileStatement test body :: rest))) :
    (loopTurn 2 (evaluateIn 2 budget) test execution state).Records budget
      ⟨.whileStatement test body :: rest, state⟩
      fun taken => ⟨if taken.2 then .whileStatement test body :: rest else rest, taken.1⟩ := by
  unfold loopTurn
  rw [evaluateIn_quiet (show 2 < 3 by decide)]
  cases tested : (evaluateIn 2 budget state.scope test).result with
  | error fault => exact records_fail .here (.test tested)
  | ok value =>
      have silent : note 2 (.guarded value) = pure () := note_silent (Nat.lt_succ_self 2)
      rw [ofExcept_ok_bind, silent, pure_bind]
      split
      · exact records_bind (inside tested) fun next => records_pure .here
      · rename_i untrue
        exact records_pure (.passes .here (.leave tested fun same => untrue same) rfl)

theorem records_loop
    (inside : ∀ state, (evaluateIn 2 budget state.scope test).result = .ok (.boolean true) →
      (execution state).Records budget ⟨.whileStatement test body :: rest, state⟩
        (Moment.mk (.whileStatement test body :: rest)))
    (turns : Nat) (state : State) :
    (repeatWhile (loopTurn 2 (evaluateIn 2 budget) test execution) turns state).Records budget
      ⟨.whileStatement test body :: rest, state⟩ (Moment.mk rest) := by
  induction turns generalizing state with
  | zero => exact records_fail .here .turns
  | succ turns ih =>
      rw [repeatWhile_eq_bind]
      refine records_bind (records_turn (inside state)) fun taken => ?_
      obtain ⟨next, again⟩ := taken
      cases again with
      | true => exact ih next
      | false => exact records_pure .here

end

mutual

theorem execute_records : ∀ (statement : Node) (rest : List Node) (state : State),
    (execute 2 budget statement state).Records budget ⟨statement :: rest, state⟩ (Moment.mk rest)
  | .whileStatement test body, rest, state => by
      unfold execute
      rw [executeBy]
      exact records_loop (executeBody_records body test rest) budget.turns state
  | .block statements, rest, state => by
      unfold execute
      rw [executeBy]
      exact records_after (.passes .here .block rfl) (executeAll_records statements rest state)
  | .variableDeclaration _ _, rest, state | .functionDeclaration _ _ _, rest, state
  | .assignment _ _, rest, state | .printStatement _, rest, state | .numeral _, rest, state
  | .booleanLiteral _, rest, state | .identifier _, rest, state | .unaryExpression _ _, rest, state
  | .binaryExpression _ _ _, rest, state | .conditionalExpression _ _ _, rest, state
  | .arrayLiteral _, rest, state | .subscriptExpression _ _, rest, state | .call _ _, rest, state
  | .program _, rest, state => records_simple rfl rest state

theorem executeBody_records : ∀ (body test : Node) (rest : List Node) (state : State),
    (evaluateIn 2 budget state.scope test).result = .ok (.boolean true) →
    (executeBodyBy 2 budget.turns (evaluateIn 2 budget) body state).Records budget
      ⟨.whileStatement test body :: rest, state⟩ (Moment.mk (.whileStatement test body :: rest))
  | .block statements, test, rest, state, tested => by
      rw [executeBodyBy]
      exact records_after (.passes .here (.turn tested) rfl)
        (executeAll_records statements (.whileStatement test (.block statements) :: rest) state)
  | .variableDeclaration _ _, _, _, _, tested | .functionDeclaration _ _ _, _, _, _, tested
  | .assignment _ _, _, _, _, tested | .printStatement _, _, _, _, tested
  | .whileStatement _ _, _, _, _, tested | .numeral _, _, _, _, tested
  | .booleanLiteral _, _, _, _, tested | .identifier _, _, _, _, tested
  | .unaryExpression _ _, _, _, _, tested | .binaryExpression _ _ _, _, _, _, tested
  | .conditionalExpression _ _ _, _, _, _, tested | .arrayLiteral _, _, _, _, tested
  | .subscriptExpression _ _, _, _, _, tested | .call _ _, _, _, _, tested
  | .program _, _, _, _, tested => by
      simp only [executeBodyBy]
      exact records_fail .here (.body tested nofun)

theorem executeAll_records : ∀ (statements rest : List Node) (state : State),
    (executeAll 2 budget statements state).Records budget ⟨statements ++ rest, state⟩
      (Moment.mk rest)
  | [], rest, state => by
      unfold executeAll
      rw [executeAllBy]
      exact records_pure .here
  | statement :: others, rest, state => by
      unfold executeAll
      rw [executeAllBy]
      exact records_bind (execute_records statement (others ++ rest) state) fun next =>
        executeAll_records others rest next

end

theorem run_eq (level : Nat) (budget : Budget) (statements : List Node) (scope : Scope) :
    run level budget (.program (.block statements)) scope =
      note level (.started statements.length) >>= fun _ =>
        executeAll level budget statements ⟨scope, []⟩ >>= fun final =>
          note level (.finished final.output.length) >>= fun _ => pure final.output :=
  rfl

theorem run_finishes (positive : 0 < level) {budget : Budget} {statements : List Node} {scope : Scope}
    {output : List Value}
    (ran : (run level budget (.program (.block statements)) scope).result = .ok output) :
    (run level budget (.program (.block statements)) scope).events.getLast? =
      some (.finished output.length) := by
  rw [run_eq, bind_of_ok rfl] at ran ⊢
  cases ended : (executeAll level budget statements ⟨scope, []⟩).result with
  | error fault =>
      rw [bind_of_error ended] at ran
      cases ran
  | ok final =>
      rw [bind_of_ok ended] at ran ⊢
      obtain rfl : final.output = output := Except.ok.inj ran
      have last : note level (.finished final.output.length) =
          ⟨[.finished final.output.length], .ok ()⟩ := note_told positive
      rw [last, bind_of_ok rfl]
      simp [pure, Traced.pure]

theorem evaluateIn_result (one other : Nat) (budget : Budget) (scope : Scope) (node : Node) :
    (evaluateIn one budget scope node).result = (evaluateIn other budget scope node).result :=
  result_of_told (fun level => evaluateIn level budget scope node)
    (fun level => evaluateIn_told (Nat.zero_le level) budget scope node) one other

theorem result_of_shadows {α : Type} {low : Nat} {lower higher : Traced α}
    (shadows : lower.Shadows low False higher) : higher.result = lower.result := by
  rcases shadows with rfl | ⟨broken, -⟩
  · rfl
  · exact broken.elim

section

variable {done : List Completion} {moment : Moment} (second : 2 ≤ level)

include second

theorem execute_result_second (statement : Node) (state : State) :
    (execute level budget statement state).result = (execute 2 budget statement state).result := by
  exact result_of_shadows (executeBy_shadows second (evaluateIn_told second budget) statement state
    fun _ _ _ below _ => lt_irrefl 2 below)

theorem executeAll_result_second (statements : List Node) (state : State) :
    (executeAll level budget statements state).result =
      (executeAll 2 budget statements state).result := by
  exact result_of_shadows (executeAllBy_shadows second (evaluateIn_told second budget) statements
    state fun _ _ _ below _ => lt_irrefl 2 below)

theorem run_told_second (program : Node) (scope : Scope) :
    run 2 budget program scope = (run level budget program scope).told 2 := by
  rcases run_shadows second budget program scope with same | ⟨⟨below, -⟩, -⟩
  · exact same
  · exact absurd below (lt_irrefl 2)

theorem Advances.atLevel (advances : Advances 2 budget earlier later) :
    Advances level budget earlier later := by
  cases advances with
  | statement simple executed =>
      exact .statement simple ((execute_result_second second _ _).trans executed)
  | block => exact .block
  | turn tested => exact .turn ((evaluateIn_result level 2 budget _ _).trans tested)
  | leave tested untrue => exact .leave ((evaluateIn_result level 2 budget _ _).trans tested) untrue

theorem Performs.atLevel (performs : Performs 2 budget start done moment) :
    Performs level budget start done moment := by
  induction performs with
  | here => exact .here
  | passes _ advances compound ih => exact .passes ih (advances.atLevel second) compound
  | completes _ simple executed faithful ih =>
      exact .completes ih simple ((execute_result_second second _ _).trans executed) faithful

theorem Moment.Stops.atLevel {fault : Fault} (stops : moment.Stops 2 budget fault) :
    moment.Stops level budget fault := by
  cases stops with
  | statement simple failed =>
      exact .statement simple ((execute_result_second second _ _).trans failed)
  | test failed => exact .test ((evaluateIn_result level 2 budget _ _).trans failed)
  | body tested other => exact .body ((evaluateIn_result level 2 budget _ _).trans tested) other
  | turns => exact .turns

theorem run_records (budget : Budget) (statements : List Node) (scope : Scope) :
    ∃ done moment, Performs level budget ⟨statements, ⟨scope, []⟩⟩ done moment ∧
      ((∃ final, moment = ⟨[], final⟩ ∧
          (executeAll level budget statements ⟨scope, []⟩).result = .ok final ∧
          (run level budget (.program (.block statements)) scope).told 2 =
            ⟨.started statements.length :: done.map Completion.event ++
              [.finished final.output.length], .ok final.output⟩) ∨
        ∃ fault, moment.Stops level budget fault ∧
          (run level budget (.program (.block statements)) scope).told 2 =
            ⟨.started statements.length :: done.map Completion.event, .error fault⟩) := by
  obtain ⟨done, moment, performed, events, arrives, stops⟩ :=
    @executeAll_records budget statements [] ⟨scope, []⟩
  rw [List.append_nil] at performed
  refine ⟨done, moment, performed.atLevel second, ?_⟩
  rw [← run_told_second second, executeAll_result_second second]
  rw [run_eq, bind_of_ok rfl]
  cases ended : (executeAll 2 budget statements ⟨scope, []⟩).result with
  | ok final =>
      refine .inl ⟨final, arrives final ended, rfl, ?_⟩
      rw [bind_of_ok ended, events]
      rfl
  | error fault =>
      refine .inr ⟨fault, (stops fault ended).atLevel second, ?_⟩
      rw [bind_of_error ended, events]
      rfl

end

end

end Bella
