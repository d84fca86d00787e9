import Bella.Proofs.Hoisting
import Bella.Proofs.Origin.Activity
import Bella.Proofs.StraightLine

/-! Where values come from. Along a run the statements that have been executed are kept, and every
function that is anywhere at a moment was declared by one of them. Main statement: so it is in all
scopes, arguments, results and outputs of a run, up to where it ends or fails, and since the parameters of a
declaration are distinct, a call binds each argument to its own. -/

namespace Bella

open Traced

def Moment.next (moment : Moment) : List Node :=
  (moment.pending.take 1).filter fun statement => !statement.isCompound

theorem Moment.next_simple {statement : Node} (simple : statement.isCompound = false)
    (rest : List Node) (state : State) : (Moment.mk (statement :: rest) state).next = [statement] := by
  simp [Moment.next, simple]

/-- The moments of a run, each with the simple statements that have been executed before it. -/
inductive Arrives (level : Nat) (budget : Budget) (start : Moment) : List Node → Moment → Prop
  | here : Arrives level budget start [] start
  | step {line : List Node} {earlier later : Moment} (before : Arrives level budget start line earlier)
      (advances : Advances level budget earlier later) :
      Arrives level budget start (line ++ earlier.next) later

inductive Moment.Starts (budget : Budget) : Moment → Activity → Prop
  | declaration {name : Datum} {key : Key} {initializer : Node} {rest : List Node} {state : State}
      (named : name.key? = some key) (fresh : state.scope.find? key = none) :
      Starts budget ⟨.variableDeclaration (.identifier name) initializer :: rest, state⟩
        (.evaluation budget.depth state.scope initializer)
  | assignment {name : Datum} {key : Key} {source : Node} {rest : List Node} {state : State}
      (named : name.key? = some key) (assignable : state.scope.Assignable key) :
      Starts budget ⟨.assignment (.identifier name) source :: rest, state⟩
        (.evaluation budget.depth state.scope source)
  | print {expression : Node} {rest : List Node} {state : State} :
      Starts budget ⟨.printStatement expression :: rest, state⟩
        (.evaluation budget.depth state.scope expression)
  | test {test body : Node} {rest : List Node} {state : State} :
      Starts budget ⟨.whileStatement test body :: rest, state⟩
        (.evaluation budget.depth state.scope test)

def Datum.DistinctKeys (names : List Datum) : Prop :=
  ∃ keys : List Key, names.map Datum.key? = keys.map some ∧ keys.Nodup

def DeclaredBy (line : List Node) (name : Datum) (parameters : List Datum) (body : Node) : Prop :=
  .functionDeclaration (.identifier name) (parameters.map .identifier) body ∈ line ∧
    Datum.DistinctKeys parameters

def State.Made (declared : Datum → List Datum → Node → Prop) (state : State) : Prop :=
  state.scope.Made declared ∧ ∀ value ∈ state.output, value.Made declared

theorem parameterNames_distinct {function : Datum} {seen : List Key} {parameters : List Node}
    {names : List Datum} (bound : parameterNames function seen parameters = .ok names) :
    ∃ keys : List Key, names.map Datum.key? = keys.map some ∧ keys.Nodup ∧
      ∀ key ∈ keys, key ∉ seen := by
  induction parameters generalizing seen names with
  | nil =>
      obtain rfl := Except.ok.inj bound
      exact ⟨[], rfl, List.nodup_nil, by simp⟩
  | cons parameter rest ih =>
      obtain ⟨name, key, others, -, known, fresh, later, rfl⟩ := parameterNames_cons_ok bound
      obtain ⟨keys, same, distinct, unseen⟩ := ih later
      refine ⟨key :: keys, by simp [Scope.keyOf_ok known, same], ?_, ?_⟩
      · refine List.nodup_cons.mpr ⟨fun again => ?_, distinct⟩
        exact unseen key again List.mem_cons_self
      · refine List.forall_mem_cons.mpr ⟨fresh, fun other inside => ?_⟩
        exact fun earlier => unseen other inside (List.mem_cons_of_mem _ earlier)

section

variable {level : Nat} {budget : Budget} {line : List Node} {state next : State}

theorem State.Made.mono {declared known : Datum → List Datum → Node → Prop}
    (more : ∀ name parameters body, declared name parameters body → known name parameters body)
    (made : state.Made declared) : state.Made known :=
  ⟨fun binding inside => (made.1 binding inside).mono more,
    fun value inside => (made.2 value inside).mono more⟩

theorem evaluateIn_made {declared : Datum → List Datum → Node → Prop} {scope : Scope} {node : Node}
    {value : Value} (made : scope.Made declared)
    (evaluated : (evaluateIn level budget scope node).result = .ok value) : value.Made declared := by
  have activity : (Activity.evaluation budget.depth scope node).Made declared := made
  exact activity.result evaluated

/-- A simple statement binds or prints what it evaluates, and a declaration is the origin of its
function. -/
theorem State.Made.executed {statement : Node} (made : state.Made (DeclaredBy line))
    (simple : statement.isCompound = false)
    (executed : (execute level budget statement state).result = .ok next) :
    next.Made (DeclaredBy (line ++ [statement])) := by
  have more (name : Datum) (parameters : List Datum) (body : Node)
      (known : DeclaredBy line name parameters body) :
      DeclaredBy (line ++ [statement]) name parameters body :=
    ⟨List.mem_append_left _ known.1, known.2⟩
  have evaluated {node : Node} {value : Value}
      (ended : (evaluateIn level budget state.scope node).result = .ok value) :
      value.Made (DeclaredBy (line ++ [statement])) :=
    (evaluateIn_made made.1 ended).mono more
  obtain ⟨inScope, printed⟩ := made.mono more
  cases statement with
  | variableDeclaration id initializer =>
      obtain ⟨name, key, value, rfl, -, -, ended, rfl⟩ := declaration_ok_iff.mp executed
      exact ⟨inScope.bind key (evaluated ended), printed⟩
  | functionDeclaration id parameters body =>
      obtain ⟨name, key, names, rfl, -, -, written, -, rfl⟩ := definition_ok_iff.mp executed
      obtain rfl := parameterNames_ok written
      obtain ⟨keys, same, distinct, -⟩ := parameterNames_distinct written
      have declared : DeclaredBy (line ++ [.functionDeclaration (.identifier name)
          (names.map .identifier) body]) name names body :=
        ⟨List.mem_append_right _ (List.mem_singleton.mpr rfl), keys, same, distinct⟩
      exact ⟨inScope.bind key (.function declared), printed⟩
  | assignment target source =>
      obtain ⟨name, key, value, rfl, -, -, ended, rfl⟩ := assignment_ok_iff.mp executed
      exact ⟨inScope.bind key (evaluated ended), printed⟩
  | printStatement expression =>
      obtain ⟨value, ended, rfl⟩ := print_ok_iff.mp executed
      refine ⟨inScope, fun other inside => ?_⟩
      rcases List.mem_append.mp inside with earlier | last
      · exact printed other earlier
      · exact List.mem_singleton.mp last ▸ evaluated ended
  | whileStatement test body => cases simple
  | block statements => cases simple
  | _ => cases executed

variable {start moment earlier later : Moment}

theorem Advances.made (advances : Advances level budget earlier later)
    (made : earlier.state.Made (DeclaredBy line)) :
    later.state.Made (DeclaredBy (line ++ earlier.next)) := by
  cases advances with
  | statement simple executed =>
      rw [Moment.next_simple simple]
      exact made.executed simple executed
  | block | turn tested | leave tested untrue => simpa [Moment.next, Node.isCompound] using made

theorem Arrives.made (arrives : Arrives level budget start line moment)
    (made : start.state.Made (DeclaredBy [])) : moment.state.Made (DeclaredBy line) := by
  induction arrives with
  | here => exact made
  | step _ advances ih => exact advances.made ih

theorem Arrives.occurs (arrives : Arrives level budget start line moment) :
    ∀ statement ∈ line ++ simpleStatementsOfAll moment.pending,
      statement ∈ simpleStatementsOfAll start.pending := by
  induction arrives with
  | here => exact fun _ inside => inside
  | @step line earlier later _ advances ih =>
      intro statement inside
      refine ih statement ?_
      cases advances with
      | @statement first rest state next simple executed =>
          rw [simpleStatementsOfAll, simpleStatements_eq simple executed]
          simpa [Moment.next, simple] using inside
      | block =>
          simpa [Moment.next, Node.isCompound, simpleStatementsOfAll, Node.simpleStatements,
            simpleStatementsOfAll_append] using inside
      | turn tested =>
          simp only [Moment.next, Node.isCompound, simpleStatementsOfAll, Node.simpleStatements,
            simpleStatementsOfAll_append, List.take_succ_cons, List.take_zero, Bool.not_true,
            List.filter_cons_of_neg, Bool.false_eq_true, not_false_eq_true, List.filter_nil,
            List.append_nil, List.mem_append] at inside ⊢
          tauto
      | leave tested untrue =>
          simp only [Moment.next, Node.isCompound, simpleStatementsOfAll, Node.simpleStatements,
            List.take_succ_cons, List.take_zero, Bool.not_true, List.filter_cons_of_neg,
            Bool.false_eq_true, not_false_eq_true, List.filter_nil, List.append_nil,
            List.mem_append] at inside ⊢
          tauto

theorem LeadsTo.arrives (leads : LeadsTo level budget start moment) :
    ∃ line, Arrives level budget start line moment := by
  induction leads with
  | refl => exact ⟨[], .here⟩
  | tail _ advances ih =>
      obtain ⟨line, before⟩ := ih
      exact ⟨_, .step before advances⟩

theorem State.Made.starts {declared : Datum → List Datum → Node → Prop} {activity : Activity}
    (made : moment.state.Made declared) (start : moment.Starts budget activity) :
    activity.Made declared := by
  cases start <;> exact made.1

end

theorem find?_extend_mem (scope : Scope) {bindings : List (Key × Value)} {key : Key} {value : Value}
    (distinct : (bindings.map (·.1)).Nodup) (bound : (key, value) ∈ bindings) :
    (scope.extend bindings).find? key = some value := by
  induction bindings generalizing scope with
  | nil => cases bound
  | cons binding rest ih =>
      rw [List.map_cons, List.nodup_cons] at distinct
      rcases List.mem_cons.mp bound with rfl | later
      · have here := Scope.find?_extend_absent (scope.bind key value) distinct.1
        rw [Scope.find?_bind, if_pos rfl] at here
        exact here
      · exact ih (scope.bind binding.1 binding.2) distinct.2 later

theorem bindParameters_distinct {parameters : List Datum} {arguments : List Value}
    (distinct : Datum.DistinctKeys parameters) (fits : arguments.length = parameters.length)
    (scope : Scope) :
    ∃ bindings, bindParameters parameters arguments = .ok bindings ∧
      bindings.map (·.2) = arguments ∧
      ∀ parameter argument, (parameter, argument) ∈ parameters.zip arguments →
        (scope.extend bindings).get parameter = .ok argument := by
  obtain ⟨keys, named, nodup⟩ := distinct
  have length : keys.length = arguments.length := by
    rw [fits, ← List.length_map Datum.key?, named, List.length_map]
  refine ⟨keys.zip arguments, bindParameters_named fits named,
    List.map_snd_zip (Nat.le_of_eq length.symm), fun parameter argument paired => ?_⟩
  obtain ⟨index, bound, same⟩ := List.mem_iff_getElem.mp paired
  rw [List.getElem_zip, Prod.mk.injEq] at same
  obtain ⟨rfl, rfl⟩ := same
  rw [List.length_zip] at bound
  have inKeys : index < keys.length := by omega
  have inParameters : index < parameters.length := by omega
  have keyed : parameters[index].key? = some keys[index] := by
    have mapped : (parameters.map Datum.key?)[index]? = (keys.map some)[index]? := by rw [named]
    simpa [inKeys, inParameters] using mapped
  refine Scope.get_bound keyed (find?_extend_mem scope ?_ ?_)
  · rwa [List.map_fst_zip (Nat.le_of_eq length)]
  · exact List.mem_iff_getElem.mpr ⟨index, by rw [List.length_zip]; omega, by rw [List.getElem_zip]⟩

theorem run_arrives {level : Nat} {budget : Budget} {program : Node} {scope : Scope}
    {output : List Value} (ran : (run level budget program scope).result = .ok output) :
    ∃ statements line final, program = .program (.block statements) ∧
      Arrives level budget ⟨statements, ⟨scope, []⟩⟩ line ⟨[], final⟩ ∧ final.output = output := by
  cases program with
  | program body =>
      cases body with
      | block statements =>
          obtain ⟨final, executed, printed⟩ := run_ok_iff.mp ran
          have leads := (ensures_iff.mp (executeAll_leads statements [] ⟨scope, []⟩)).1 final executed
          rw [List.append_nil] at leads
          obtain ⟨line, arrives⟩ := leads.arrives
          exact ⟨statements, line, final, rfl, arrives, printed⟩
      | _ => cases ran
  | _ => cases ran

theorem run_stops {level : Nat} {budget : Budget} {statements : List Node} {scope : Scope} {fault : Fault}
    (failed : (run level budget (.program (.block statements)) scope).result = .error fault) :
    ∃ line moment, Arrives level budget ⟨statements, ⟨scope, []⟩⟩ line moment ∧
      moment.Stops level budget fault := by
  have fails : (executeAll level budget statements ⟨scope, []⟩).result = .error fault := by
    rw [run_result, ← executeAll_eq_executeEach] at failed
    cases ended : (executeAll level budget statements ⟨scope, []⟩).result with
    | ok final =>
        rw [ended] at failed
        cases failed
    | error other =>
        rw [ended] at failed
        obtain rfl := Except.error.inj failed
        rfl
  have stops := (ensures_iff.mp (executeAll_leads statements [] ⟨scope, []⟩)).2 fault fails
  rw [List.append_nil] at stops
  obtain ⟨moment, leads, stopped⟩ := stops
  obtain ⟨line, arrives⟩ := leads.arrives
  exact ⟨line, moment, arrives, stopped⟩

/-- From the initial scope a run passes only through moments where every value in scope, in the output,
in an evaluation or application on the way or as its result is a number, a truth value, an array of
such, a built-in function, or a function that an executed declaration of the program has declared. A
call of such a function with as many arguments as it has parameters gives each its own. A run ends at one of
these moments, or it fails and stops at one. -/
theorem values_declared (level : Nat) (budget : Budget) :
    (∀ statements line moment, Arrives level budget ⟨statements, ⟨.initial, []⟩⟩ line moment →
      (∀ statement ∈ line, statement ∈ simpleStatementsOfAll statements) ∧
      moment.state.Made (DeclaredBy line) ∧
      ∀ first activity, moment.Starts budget first → first.LeadsTo level activity →
        activity.Made (DeclaredBy line) ∧
        (∀ value, activity.result level = .ok value → value.Made (DeclaredBy line)) ∧
        ∀ depth name parameters body arguments scope,
          activity = .application depth (.function name parameters body) arguments scope →
          arguments.length = parameters.length →
          ∃ bindings, bindParameters parameters arguments = .ok bindings ∧
            bindings.map (·.2) = arguments ∧
            ∀ parameter argument, (parameter, argument) ∈ parameters.zip arguments →
              (scope.extend bindings).get parameter = .ok argument) ∧
    (∀ program output, (run level budget program .initial).result = .ok output →
      ∃ statements line final, program = .program (.block statements) ∧
        Arrives level budget ⟨statements, ⟨.initial, []⟩⟩ line ⟨[], final⟩ ∧
        final.output = output) ∧
    ∀ statements fault,
      (run level budget (.program (.block statements)) .initial).result = .error fault →
      ∃ line moment, Arrives level budget ⟨statements, ⟨.initial, []⟩⟩ line moment ∧
        moment.Stops level budget fault := by
  refine ⟨fun statements line moment arrives => ?_, fun program output ran => run_arrives ran,
    fun statements fault failed => run_stops failed⟩
  have made : moment.state.Made (DeclaredBy line) :=
    arrives.made ⟨initial_made, by simp⟩
  refine ⟨fun statement inside => arrives.occurs statement (List.mem_append_left _ inside), made, ?_⟩
  intro first activity start leads
  have reached := (made.starts start).leads leads
  refine ⟨reached, fun value ended => reached.result ended, ?_⟩
  rintro depth name parameters body arguments scope rfl fits
  obtain ⟨callee, -, -⟩ := reached
  cases callee with
  | function known => exact bindParameters_distinct known.2 fits scope

def identityDeclaration : Node :=
  .functionDeclaration (.identifier (.text "f")) [.identifier (.text "x")] (.identifier (.text "x"))

def selfCall : Node :=
  .call (.identifier (.text "f")) [.arrayLiteral [.identifier (.text "f")]]

def identityScope : Scope :=
  Scope.initial.bind (.text "f") identityFunction

theorem values_declared_selfCall :
    Arrives 0 ⟨1, 1⟩ ⟨[identityDeclaration, .printStatement selfCall], ⟨.initial, []⟩⟩
      [identityDeclaration] ⟨[.printStatement selfCall], ⟨identityScope, []⟩⟩ ∧
    (Activity.application 1 identityFunction [.array [identityFunction]] identityScope).Made
      (DeclaredBy [identityDeclaration]) := by
  have arrives : Arrives 0 ⟨1, 1⟩
      ⟨[identityDeclaration, .printStatement selfCall], ⟨.initial, []⟩⟩
      [identityDeclaration] ⟨[.printStatement selfCall], ⟨identityScope, []⟩⟩ :=
    .step .here (.statement rfl rfl)
  have called : (Activity.evaluation 1 identityScope selfCall).LeadsTo 0
      (.application 1 identityFunction [.array [identityFunction]] identityScope) :=
    .single (.call rfl (.cons rfl .nil) rfl)
  obtain ⟨-, -, reached⟩ := (values_declared 0 ⟨1, 1⟩).1 _ _ _ arrives
  exact ⟨arrives, (reached _ _ .print called).1⟩

end Bella
