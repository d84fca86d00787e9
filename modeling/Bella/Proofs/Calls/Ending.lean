import Bella.Proofs.Calls.Order
import Bella.Proofs.Rules.Faults
import Bella.Proofs.Rules.Realisation
import Bella.Proofs.Trace.Levels

/-! Runs that end. A computation ends if it is the same with every budget that is large enough, and does
not stop for want of one; what is put together of computations that end does so, too. Main statement: a
program without loops whose functions call each other in the order of their declarations ends. -/

namespace Bella

open Traced

def Unexhausted {α : Type} (result : Except Fault α) : Prop :=
  ∀ fault, result = .error fault → ¬fault.Exhausted

def Budget.Covers (functions : List Value) (budget : Budget) : Prop :=
  functions.length ≤ budget.depth

instance (functions : List Value) (budget : Budget) : Decidable (budget.Covers functions) :=
  inferInstanceAs (Decidable (functions.length ≤ budget.depth))

theorem Fault.IsPlain.unexhausted {named : Datum → Prop} {fault : Fault} (plain : fault.IsPlain named) :
    ¬fault.Exhausted := by
  cases fault with
  | recursionTooDeep | loopTooLong => exact plain.elim
  | _ => exact id

namespace Traced

variable {ι α β : Type} {enough : ι → Prop}

/-- With all budgets that are enough the computation is the same, events included, and spends none. -/
def Ends (enough : ι → Prop) (run : ι → Traced α) : Prop :=
  ∃ fixed : Traced α, Unexhausted fixed.result ∧ ∀ budget, enough budget → run budget = fixed

theorem ends_fixed {fixed : Traced α} (unexhausted : Unexhausted fixed.result) :
    Ends enough fun _ => fixed :=
  ⟨fixed, unexhausted, fun _ _ => rfl⟩

theorem ends_pure (value : α) : Ends enough fun _ => (pure value : Traced α) :=
  ends_fixed nofun

theorem ends_note (level : Nat) (event : Event) : Ends enough fun _ => note level event :=
  ends_fixed nofun

theorem ends_fail {fault : Fault} (other : ¬fault.Exhausted) :
    Ends enough fun _ => (fail fault : Traced α) :=
  ends_fixed fun _ same => Except.error.inj same ▸ other

theorem ends_bind {first : ι → Traced α} {next : ι → α → Traced β} (before : Ends enough first)
    (after : ∀ value, (∀ budget, enough budget → (first budget).result = .ok value) →
      Ends enough fun budget => next budget value) :
    Ends enough fun budget => first budget >>= next budget := by
  obtain ⟨fixed, unexhausted, same⟩ := before
  cases ended : fixed.result with
  | ok value =>
      obtain ⟨last, further, equal⟩ := after value fun budget large => by rw [same budget large, ended]
      refine ⟨⟨fixed.events ++ last.events, last.result⟩, further, fun budget large => ?_⟩
      dsimp only
      rw [same budget large, bind_of_ok ended, ← equal budget large]
  | error fault =>
      refine ⟨⟨fixed.events, .error fault⟩, fun other failed => ?_, fun budget large => ?_⟩
      · cases failed
        exact unexhausted fault ended
      · dsimp only
        rw [same budget large, bind_of_error ended]

theorem ends_operation {result : Except Fault α} (plain : PlainFaults (fun _ => True) result) :
    Ends enough fun _ => ofExcept result :=
  ends_fixed fun fault failed => (plain fault failed).unexhausted

theorem ends_ofExcept {result : Except Fault α} {next : ι → α → Traced β}
    (plain : PlainFaults (fun _ => True) result)
    (after : ∀ value, result = .ok value → Ends enough fun budget => next budget value) :
    Ends enough fun budget => ofExcept result >>= next budget := by
  cases result with
  | ok value => exact after value rfl
  | error fault => exact ends_fail (plain fault rfl).unexhausted

theorem Ends.of_enough {κ : Type} {more : κ → Prop} {run : ι → Traced α} (ends : Ends enough run)
    (part : κ → ι) (large : ∀ budget, more budget → enough (part budget)) :
    Ends more fun budget => run (part budget) := by
  obtain ⟨fixed, unexhausted, same⟩ := ends
  exact ⟨fixed, unexhausted, fun budget enough => same _ (large budget enough)⟩

end Traced

section

variable {ι : Type} {enough : ι → Prop} {apply : ι → Application} {scope : Scope}

mutual

theorem evaluate_ends : ∀ node : Node,
    (∀ key ∈ node.callees, ∀ function, scope.find? key = some function → ∀ arguments,
      Ends enough fun budget => apply budget function arguments scope) →
    Ends enough fun budget => evaluate (apply budget) scope node
  | .numeral value, _ => by
      simp only [evaluate]
      exact ends_operation (plain_map (numeral_plain value) _)
  | .booleanLiteral value, _ => by
      simp only [evaluate]
      exact ends_pure _
  | .identifier name, _ => by
      simp only [evaluate]
      exact ends_operation (get_plain (fun _ _ => trivial) scope)
  | .unaryExpression operator expression, applied => by
      simp only [evaluate]
      exact ends_bind (evaluate_ends expression applied) fun operand _ =>
        ends_operation (unary_plain operator operand)
  | .binaryExpression operator left right, applied => by
      simp only [evaluate]
      refine ends_bind (evaluate_ends left fun key inside => ?_) fun leftValue _ =>
        ends_bind (evaluate_ends right fun key inside => ?_) fun rightValue _ =>
          ends_operation (binary_plain operator leftValue rightValue)
      · exact applied key (List.mem_append_left _ inside)
      · exact applied key (List.mem_append_right _ inside)
  | .conditionalExpression test positive negative, applied => by
      simp only [evaluate]
      refine ends_bind (evaluate_ends test fun key inside => ?_) fun value _ => ?_
      · exact applied key (List.mem_append_left _ (List.mem_append_left _ inside))
      · split
        · exact evaluate_ends positive fun key inside =>
            applied key (List.mem_append_left _ (List.mem_append_right _ inside))
        · exact evaluate_ends negative fun key inside =>
            applied key (List.mem_append_right _ inside)
        · exact ends_fail id
  | .arrayLiteral elements, applied => by
      simp only [evaluate]
      exact ends_bind (evaluateAll_ends elements applied) fun items _ => ends_pure _
  | .subscriptExpression array subscript, applied => by
      simp only [evaluate]
      refine ends_bind (evaluate_ends array fun key inside => ?_) fun arrayValue _ =>
        ends_bind (evaluate_ends subscript fun key inside => ?_) fun subscriptValue _ =>
          ends_operation (subscript_plain arrayValue subscriptValue)
      · exact applied key (List.mem_append_left _ inside)
      · exact applied key (List.mem_append_right _ inside)
  | .call callee arguments, applied => by
      simp only [evaluate]
      cases named : callee.name? with
      | none => exact ends_fail id
      | some name =>
          refine ends_ofExcept (keyOf_plain name) fun key keyed => ?_
          refine ends_bind (evaluateAll_ends arguments fun other inside => ?_) fun values _ => ?_
          · exact applied other (List.mem_append_right _ inside)
          · cases found : scope.find? key with
            | none => exact ends_fail id
            | some function =>
                refine applied key (List.mem_append_left _ ?_) function found values
                simp [named, Scope.keyOf_ok keyed]
  | .variableDeclaration _ _, _ | .functionDeclaration _ _ _, _ | .assignment _ _, _
  | .printStatement _, _ | .whileStatement _ _, _ | .block _, _ | .program _, _ => by
      simp only [evaluate]
      exact ends_fail id

theorem evaluateAll_ends : ∀ nodes : List Node,
    (∀ key ∈ calleesOfAll nodes, ∀ function, scope.find? key = some function → ∀ arguments,
      Ends enough fun budget => apply budget function arguments scope) →
    Ends enough fun budget => evaluateAll (apply budget) scope nodes
  | [], _ => by
      simp only [evaluateAll]
      exact ends_pure _
  | node :: rest, applied => by
      simp only [evaluateAll]
      refine ends_bind (evaluate_ends node fun key inside => ?_) fun value _ =>
        ends_bind (evaluateAll_ends rest fun key inside => ?_) fun values _ => ends_pure _
      · exact applied key (List.mem_append_left _ inside)
      · exact applied key (List.mem_append_right _ inside)

end

end

/-- A call ends if calls descend: its body may only call what stands before its function, so one level
less is enough for the body. -/
theorem applyFunction_ends {functions limit : List Value} {scope : Scope} {function : Value} (level : Nat)
    (unhidden : Unhidden functions) (prior : limit <+: functions) (descends : scope.Descends functions)
    (known : ∀ name parameters body, function = .function name parameters body → function ∈ limit)
    (arguments : List Value) :
    Ends (limit.length ≤ ·) fun depth => applyFunction level depth function arguments scope := by
  cases function with
  | builtin builtin =>
      simp only [applyFunction]
      refine ends_ofExcept (checkArity_plain _ _ (.inl trivial)) fun _ _ => ?_
      exact ends_bind (ends_note level _) fun _ _ => ends_operation (builtin_plain builtin arguments)
  | function name parameters body =>
      simp only [applyFunction]
      refine ends_ofExcept (checkArity_plain _ _ (.inl trivial)) fun _ checked => ?_
      have fits := checkArity_length checked
      refine ends_bind (ends_note level _) fun _ _ => ?_
      refine ends_ofExcept (bindParameters_plain fits) fun bindings bound => ?_
      obtain ⟨before, after, parts⟩ := List.append_of_mem (known name parameters body rfl)
      have fewer : before.length < limit.length := by
        rw [parts, List.length_append, List.length_cons]
        omega
      obtain ⟨rest, split⟩ := prior
      rw [parts, List.append_assoc, List.cons_append] at split
      obtain ⟨within, reaches⟩ := descends.extend unhidden split.symm fits bound
      have inner : Ends (before.length ≤ ·) fun depth =>
          evaluate (applyFunction level depth) (scope.extend bindings) body :=
        evaluate_ends body fun key called callee found given =>
          applyFunction_ends level unhidden ⟨_, split⟩ within (reaches.callee called found) given
      obtain ⟨fixed, unexhausted, same⟩ := inner
      refine ⟨fixed, unexhausted, fun depth large => ?_⟩
      cases depth with
      | zero => omega
      | succ depth => exact same depth (by omega)
  | _ =>
      simp only [applyFunction]
      exact ends_fail id
termination_by limit.length
decreasing_by exact fewer

section

variable {statements : List Node} {level : Nat} {budget : Budget}

theorem evaluateIn_ends (layered : IsLayered (.program (.block statements))) {moment : Moment}
    (leads : LeadsTo level budget ⟨statements, ⟨.initial, []⟩⟩ moment) (node : Node) :
    Ends (Budget.Covers (functionsOfAll statements))
      fun budget => evaluateIn level budget moment.state.scope node := by
  obtain ⟨line, arrives⟩ := leads.arrives
  obtain ⟨prior, unhidden, descends, reaches⟩ := arrives.descends layered
  have ends : Ends ((functionsOfAll line).length ≤ ·) fun depth =>
      evaluate (applyFunction level depth) moment.state.scope node :=
    evaluate_ends node fun key called function found arguments =>
      applyFunction_ends level unhidden (List.prefix_refl _) descends
        ((reaches node.callees).callee called found) arguments
  exact ends.of_enough Budget.depth fun budget large => prior.length_le.trans large

theorem noteDefinition_ends {ι : Type} {enough : ι → Prop} (level : Nat) (name : Datum)
    (parameters : List Datum) : Ends enough fun _ => noteDefinition level name parameters := by
  rw [noteDefinition]
  split
  · exact ends_pure ()
  · exact ends_ofExcept (parameterTexts_plain parameters) fun texts _ => ends_note level _

mutual

theorem execute_ends (layered : IsLayered (.program (.block statements)))
    (large : budget.Covers (functionsOfAll statements)) :
    ∀ (statement : Node) (rest : List Node) (state : State), statement.hasLoop = false →
      LeadsTo level budget ⟨statements, ⟨.initial, []⟩⟩ ⟨statement :: rest, state⟩ →
      Ends (Budget.Covers (functionsOfAll statements))
        fun budget => execute level budget statement state
  | .variableDeclaration id initializer, rest, state, _, leads => by
      simp only [execute, executeBy]
      refine ends_ofExcept (nameOf_plain id) fun name _ => ?_
      refine ends_ofExcept (mayDeclare_plain (fun _ _ => trivial) state.scope) fun _ _ => ?_
      refine ends_bind (evaluateIn_ends layered leads initializer) fun value _ => ?_
      refine ends_bind (ends_note level _) fun _ _ => ?_
      exact ends_ofExcept (declare_plain (fun _ _ => trivial) state.scope value) fun scope _ => ends_pure _
  | .functionDeclaration id parameters body, rest, state, _, leads => by
      simp only [execute, executeBy]
      refine ends_ofExcept (nameOf_plain id) fun name _ => ?_
      refine ends_ofExcept (mayDeclare_plain (fun _ _ => trivial) state.scope) fun _ _ => ?_
      refine ends_ofExcept (parameterNames_plain trivial [] fun _ _ _ _ _ _ => trivial) fun names _ => ?_
      refine ends_bind (noteDefinition_ends level name names) fun _ _ => ?_
      exact ends_ofExcept (declare_plain (fun _ _ => trivial) state.scope _) fun scope _ => ends_pure _
  | .assignment target source, rest, state, _, leads => by
      simp only [execute, executeBy]
      refine ends_ofExcept (nameOf_plain target) fun name _ => ?_
      refine ends_ofExcept (mayAssign_plain (fun _ _ => trivial) state.scope) fun _ _ => ?_
      refine ends_bind (evaluateIn_ends layered leads source) fun value _ => ?_
      refine ends_bind (ends_note level _) fun _ _ => ?_
      exact ends_ofExcept (assign_plain (fun _ _ => trivial) state.scope value) fun scope _ => ends_pure _
  | .printStatement expression, rest, state, _, leads => by
      simp only [execute, executeBy]
      refine ends_bind (evaluateIn_ends layered leads expression) fun value _ => ?_
      exact ends_bind (ends_note level _) fun _ _ => ends_pure _
  | .block inner, rest, state, loopless, leads => by
      simp only [execute, executeBy]
      exact executeAll_ends layered large inner rest state loopless (leads.tail .block)
  | .numeral _, _, _, _, _ | .booleanLiteral _, _, _, _, _ | .identifier _, _, _, _, _
  | .unaryExpression _ _, _, _, _, _ | .binaryExpression _ _ _, _, _, _, _
  | .conditionalExpression _ _ _, _, _, _, _ | .arrayLiteral _, _, _, _, _
  | .subscriptExpression _ _, _, _, _, _ | .call _ _, _, _, _, _ | .program _, _, _, _, _ => by
      simp only [execute, executeBy]
      exact ends_fail id

theorem executeAll_ends (layered : IsLayered (.program (.block statements)))
    (large : budget.Covers (functionsOfAll statements)) :
    ∀ (nodes rest : List Node) (state : State), anyHasLoop nodes = false →
      LeadsTo level budget ⟨statements, ⟨.initial, []⟩⟩ ⟨nodes ++ rest, state⟩ →
      Ends (Budget.Covers (functionsOfAll statements))
        fun budget => executeAll level budget nodes state
  | [], _, state, _, _ => by
      simp only [executeAll, executeAllBy]
      exact ends_pure state
  | statement :: others, rest, state, loopless, leads => by
      rw [anyHasLoop, Bool.or_eq_false_iff] at loopless
      have first := execute_ends layered large statement (others ++ rest) state loopless.1 leads
      simp only [executeAll, executeAllBy]
      refine ends_bind first fun next ended => ?_
      -- All large budgets lead to the same state, so it is enough that one of them leads there.
      have step := (ensures_iff.mp (execute_leads statement (others ++ rest) state)).1 next
        (ended budget large)
      exact executeAll_ends layered large others rest next loopless.2 (leads.trans step)

end

end

/-- A program without loops whose function bodies call only built-in names and functions declared
before, under names that are no parameters, ends: with as many nested calls allowed as it declares
functions the run ends with its output or an error, and with more it is the same run. At no moment are
more calls nested than that, however many are allowed. -/
theorem run_terminates {program : Node} (layered : IsLayered program) (level : Nat) :
    Ends (Budget.Covers program.functions) (fun budget => run level budget program .initial) ∧
      ∀ budget statements moment first activity calls, program = .program (.block statements) →
        LeadsTo level budget ⟨statements, ⟨.initial, []⟩⟩ moment → moment.Starts budget first →
        first.Nests level calls activity → calls ≤ program.functions.length := by
  constructor
  · simp only [run, runBy]
    cases program with
    | program block =>
        cases block with
        | block statements =>
            refine ends_bind (ends_note level _) fun _ _ => ?_
            have large : Budget.Covers (functionsOfAll statements) ⟨(functionsOfAll statements).length, 0⟩ :=
              Nat.le_refl _
            refine ends_bind (executeAll_ends layered large statements [] ⟨.initial, []⟩
              layered.loopless ?_) fun final _ => ?_
            · rw [List.append_nil]
              exact .refl
            · exact ends_bind (ends_note level _) fun _ _ => ends_pure _
        | _ => exact ends_fail id
    | _ => exact ends_fail id
  · rintro budget statements moment first activity calls rfl leads starts nests
    exact calls_bounded layered leads starts nests

def layeredProgram : Node :=
  let name (text : String) : Node := .identifier (.text text)
  .program (.block [
    .functionDeclaration (name "f") [name "x"] (.call (name "sqrt") [name "x"]),
    .functionDeclaration (name "g") [name "y"] (.arrayLiteral [.call (name "f") [name "pi"], name "y"]),
    .variableDeclaration (name "v") (.arrayLiteral [name "f", name "g"]),
    .variableDeclaration (name "w") (name "v"),
    .assignment (name "w") (.subscriptExpression (name "v") (.numeral (.integer 1))),
    .printStatement (.call (name "w") [name "f"])])

theorem run_terminates_layeredProgram :
    IsLayered layeredProgram ∧
      run 3 ⟨2, 0⟩ layeredProgram .initial = run 3 .ample layeredProgram .initial := by
  have layered : IsLayered layeredProgram := by decide +kernel
  obtain ⟨⟨fixed, -, same⟩, -⟩ := run_terminates layered 3
  exact ⟨layered, (same ⟨2, 0⟩ (by decide)).trans (same .ample (by decide)).symm⟩

/-- Two functions that call each other are in no order. -/
example : ¬IsLayered recursiveProgram := by decide +kernel

end Bella
