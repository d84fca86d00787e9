import Bella.Proofs.Lookup
import Bella.Proofs.Outcome

/-! How statements succeed. A statement of each form ends with a state just if its parts end as the
form asks, so a run that succeeds can be taken apart and put together again elsewhere. -/

namespace Bella

namespace Traced

variable {α β : Type}

theorem bind_ok_iff {first : Traced α} {next : α → Traced β} {last : β} :
    (first >>= next).result = .ok last ↔
      ∃ value, first.result = .ok value ∧ (next value).result = .ok last := by
  rw [result_bind]
  cases first.result with
  | ok value => simp [Except.bind]
  | error fault => simp [Except.bind]

theorem note_bind_result {level : Nat} {event : Event} {next : Unit → Traced β} :
    (note level event >>= next).result = (next ()).result := by
  rw [result_bind]
  rfl

theorem ofExcept_bind_ok_iff {result : Except Fault α} {next : α → Traced β} {last : β} :
    (ofExcept result >>= next).result = .ok last ↔
      ∃ value, result = .ok value ∧ (next value).result = .ok last :=
  bind_ok_iff

theorem pure_ok_iff {value last : α} : (pure value : Traced α).result = .ok last ↔ last = value := by
  constructor
  · intro ended
    exact (Except.ok.inj ended).symm
  · rintro rfl
    rfl

end Traced

open Traced

namespace Scope

variable {scope : Scope} {name : Datum}

theorem get_ok_iff {value : Value} :
    scope.get name = .ok value ↔ ∃ key, name.key? = some key ∧ scope.find? key = some value := by
  constructor
  · intro looked
    cases named : name.key? with
    | none => cases (get_unnamed named).symm.trans looked
    | some key =>
        cases found : scope.find? key with
        | none => cases (get_unbound named found).symm.trans looked
        | some other =>
            obtain rfl := Except.ok.inj ((get_bound named found).symm.trans looked)
            exact ⟨key, rfl, found⟩
  · rintro ⟨key, named, found⟩
    exact get_bound named found

theorem mayDeclare_ok_iff :
    scope.mayDeclare name = .ok () ↔ ∃ key, name.key? = some key ∧ scope.find? key = none := by
  constructor
  · intro allowed
    cases named : name.key? with
    | none => cases (mayDeclare_unnamed named).symm.trans allowed
    | some key =>
        cases found : scope.find? key with
        | none => exact ⟨key, rfl, found⟩
        | some value => cases (mayDeclare_bound named found).symm.trans allowed
  · rintro ⟨key, named, fresh⟩
    exact mayDeclare_fresh named fresh

theorem mayAssign_ok_iff :
    scope.mayAssign name = .ok () ↔ ∃ key, name.key? = some key ∧ scope.Assignable key := by
  constructor
  · intro allowed
    cases named : name.key? with
    | none => cases (mayAssign_unnamed named).symm.trans allowed
    | some key =>
        rcases scope.mayAssign_cases named with ⟨assignable, -⟩ | ⟨misuse, -, refused⟩
        · exact ⟨key, rfl, assignable⟩
        · cases refused.symm.trans allowed
  · rintro ⟨key, named, assignable⟩
    exact mayAssign_assignable named assignable

end Scope

section

variable {level turns : Nat} {evaluator : Evaluator} {state next : State}

theorem declaration_ok_iff {id initializer : Node} :
    (executeBy level turns evaluator (.variableDeclaration id initializer) state).result = .ok next ↔
      ∃ name key value, id = .identifier name ∧ name.key? = some key ∧
        state.scope.find? key = none ∧
        (evaluator state.scope initializer).result = .ok value ∧
        next = { state with scope := state.scope.bind key value } := by
  rw [executeBy, ofExcept_bind_ok_iff]
  constructor
  · rintro ⟨name, named, ended⟩
    obtain ⟨⟨⟩, allowed, ended⟩ := ofExcept_bind_ok_iff.mp ended
    obtain ⟨key, keyed, fresh⟩ := Scope.mayDeclare_ok_iff.mp allowed
    obtain ⟨value, evaluated, ended⟩ := bind_ok_iff.mp ended
    rw [note_bind_result, Scope.declare_fresh value keyed fresh] at ended
    exact ⟨name, key, value, nameOf_ok named, keyed, fresh, evaluated, pure_ok_iff.mp ended⟩
  · rintro ⟨name, key, value, rfl, keyed, fresh, evaluated, rfl⟩
    refine ⟨name, rfl, ofExcept_bind_ok_iff.mpr ⟨(), Scope.mayDeclare_fresh keyed fresh, ?_⟩⟩
    refine bind_ok_iff.mpr ⟨value, evaluated, ?_⟩
    rw [note_bind_result, Scope.declare_fresh value keyed fresh]
    rfl

theorem definition_ok_iff {id body : Node} {parameters : List Node} :
    (executeBy level turns evaluator (.functionDeclaration id parameters body) state).result =
        .ok next ↔
      ∃ name key names, id = .identifier name ∧ name.key? = some key ∧
        state.scope.find? key = none ∧ parameterNames name [] parameters = .ok names ∧
        (noteDefinition level name names).result = .ok () ∧
        next = { state with scope := state.scope.bind key (.function name names body) } := by
  rw [executeBy, ofExcept_bind_ok_iff]
  constructor
  · rintro ⟨name, named, ended⟩
    obtain ⟨⟨⟩, allowed, ended⟩ := ofExcept_bind_ok_iff.mp ended
    obtain ⟨key, keyed, fresh⟩ := Scope.mayDeclare_ok_iff.mp allowed
    obtain ⟨names, written, ended⟩ := ofExcept_bind_ok_iff.mp ended
    obtain ⟨⟨⟩, noted, ended⟩ := bind_ok_iff.mp ended
    rw [Scope.declare_fresh _ keyed fresh] at ended
    exact ⟨name, key, names, nameOf_ok named, keyed, fresh, written, noted, pure_ok_iff.mp ended⟩
  · rintro ⟨name, key, names, rfl, keyed, fresh, written, noted, rfl⟩
    refine ⟨name, rfl, ofExcept_bind_ok_iff.mpr ⟨(), Scope.mayDeclare_fresh keyed fresh, ?_⟩⟩
    refine ofExcept_bind_ok_iff.mpr ⟨names, written, bind_ok_iff.mpr ⟨(), noted, ?_⟩⟩
    rw [Scope.declare_fresh _ keyed fresh]
    rfl

theorem assignment_ok_iff {target source : Node} :
    (executeBy level turns evaluator (.assignment target source) state).result = .ok next ↔
      ∃ name key value, target = .identifier name ∧ name.key? = some key ∧
        state.scope.Assignable key ∧ (evaluator state.scope source).result = .ok value ∧
        next = { state with scope := state.scope.bind key value } := by
  rw [executeBy, ofExcept_bind_ok_iff]
  constructor
  · rintro ⟨name, named, ended⟩
    obtain ⟨⟨⟩, allowed, ended⟩ := ofExcept_bind_ok_iff.mp ended
    obtain ⟨key, keyed, assignable⟩ := Scope.mayAssign_ok_iff.mp allowed
    obtain ⟨value, evaluated, ended⟩ := bind_ok_iff.mp ended
    rw [note_bind_result, Scope.assign_assignable value keyed assignable] at ended
    exact ⟨name, key, value, nameOf_ok named, keyed, assignable, evaluated, pure_ok_iff.mp ended⟩
  · rintro ⟨name, key, value, rfl, keyed, assignable, evaluated, rfl⟩
    refine ⟨name, rfl, ofExcept_bind_ok_iff.mpr
      ⟨(), Scope.mayAssign_assignable keyed assignable, ?_⟩⟩
    refine bind_ok_iff.mpr ⟨value, evaluated, ?_⟩
    rw [note_bind_result, Scope.assign_assignable value keyed assignable]
    rfl

theorem print_ok_iff {expression : Node} :
    (executeBy level turns evaluator (.printStatement expression) state).result = .ok next ↔
      ∃ value, (evaluator state.scope expression).result = .ok value ∧
        next = { state with output := state.output ++ [value] } := by
  rw [executeBy, bind_ok_iff]
  refine exists_congr fun value => and_congr_right fun _ => ?_
  rw [note_bind_result]
  exact pure_ok_iff

theorem executeAllBy_cons_ok_iff {statement : Node} {rest : List Node} :
    (executeAllBy level turns evaluator (statement :: rest) state).result = .ok next ↔
      ∃ middle, (executeBy level turns evaluator statement state).result = .ok middle ∧
        (executeAllBy level turns evaluator rest middle).result = .ok next := by
  rw [executeAllBy, bind_ok_iff]

theorem executeAllBy_append_ok_iff {before after : List Node} :
    (executeAllBy level turns evaluator (before ++ after) state).result = .ok next ↔
      ∃ middle, (executeAllBy level turns evaluator before state).result = .ok middle ∧
        (executeAllBy level turns evaluator after middle).result = .ok next := by
  induction before generalizing state with
  | nil =>
      rw [List.nil_append, executeAllBy]
      constructor
      · exact fun ended => ⟨state, rfl, ended⟩
      · rintro ⟨middle, started, ended⟩
        rwa [pure_ok_iff.mp started] at ended
  | cons statement rest ih =>
      rw [List.cons_append, executeAllBy_cons_ok_iff]
      simp only [ih, executeAllBy_cons_ok_iff]
      constructor
      · rintro ⟨first, executed, middle, earlier, later⟩
        exact ⟨middle, ⟨first, executed, earlier⟩, later⟩
      · rintro ⟨middle, ⟨first, executed, earlier⟩, later⟩
        exact ⟨first, executed, middle, earlier, later⟩

variable {test : Node} {body : State → Traced State} {count : Nat}

theorem turn_ok_iff {taken : State × Bool} :
    (loopTurn level evaluator test body state).result = .ok taken ↔
      (∃ value, (evaluator state.scope test).result = .ok value ∧ value ≠ .boolean true ∧
        taken = (state, false)) ∨
      ((evaluator state.scope test).result = .ok (.boolean true) ∧
        ∃ next, (body state).result = .ok next ∧ taken = (next, true)) := by
  rw [loopTurn, bind_ok_iff]
  simp only [note_bind_result]
  constructor
  · rintro ⟨value, tested, ended⟩
    split at ended
    · obtain ⟨next, executed, ended⟩ := bind_ok_iff.mp ended
      exact .inr ⟨tested, next, executed, pure_ok_iff.mp ended⟩
    · rename_i untrue
      exact .inl ⟨value, tested, untrue, pure_ok_iff.mp ended⟩
  · rintro (⟨value, tested, untrue, rfl⟩ | ⟨tested, next, executed, rfl⟩)
    · refine ⟨value, tested, ?_⟩
      split
      · exact absurd rfl untrue
      · rfl
    · exact ⟨_, tested, bind_ok_iff.mpr ⟨next, executed, rfl⟩⟩

/-- A loop succeeds at once, or after a turn if it does so from there. -/
theorem loop_succ_ok_iff :
    (repeatWhile (loopTurn level evaluator test body) (count + 1) state).result = .ok next ↔
      (∃ value, (evaluator state.scope test).result = .ok value ∧ value ≠ .boolean true ∧
        next = state) ∨
      ((evaluator state.scope test).result = .ok (.boolean true) ∧
        ∃ middle, (body state).result = .ok middle ∧
          (repeatWhile (loopTurn level evaluator test body) count middle).result = .ok next) := by
  have split : (repeatWhile (loopTurn level evaluator test body) (count + 1) state).result = .ok next ↔
      ∃ taken, (loopTurn level evaluator test body state).result = .ok taken ∧
        (if taken.2 then (repeatWhile (loopTurn level evaluator test body) count taken.1).result
          else .ok taken.1) = .ok next := by
    rw [repeatWhile_succ]
    cases (loopTurn level evaluator test body state).result with
    | ok taken => simp [Except.bind]
    | error fault => simp [Except.bind]
  rw [split]
  simp only [turn_ok_iff]
  constructor
  · rintro ⟨taken, ⟨value, tested, untrue, rfl⟩ | ⟨tested, middle, executed, rfl⟩, ended⟩
    · exact .inl ⟨value, tested, untrue, (Except.ok.inj ended).symm⟩
    · exact .inr ⟨tested, middle, executed, ended⟩
  · rintro (⟨value, tested, untrue, rfl⟩ | ⟨tested, middle, executed, ended⟩)
    · exact ⟨_, .inl ⟨value, tested, untrue, rfl⟩, rfl⟩
    · exact ⟨_, .inr ⟨tested, middle, executed, rfl⟩, ended⟩

theorem not_loop_zero_ok :
    (repeatWhile (loopTurn level evaluator test body) 0 state).result ≠ .ok next := by
  intro ended
  cases ended

theorem loop_leaves
    (ended : (repeatWhile (loopTurn level evaluator test body) count state).result = .ok next) :
    ∃ value, (evaluator next.scope test).result = .ok value ∧ value ≠ .boolean true := by
  induction count generalizing state with
  | zero => exact absurd ended not_loop_zero_ok
  | succ count ih =>
      rcases loop_succ_ok_iff.mp ended with ⟨value, tested, untrue, rfl⟩ | ⟨-, middle, -, later⟩
      · exact ⟨value, tested, untrue⟩
      · exact ih later

theorem executeBodyBy_ok_iff {node : Node} :
    (executeBodyBy level turns evaluator node state).result = .ok next ↔
      ∃ statements, node = .block statements ∧
        (executeAllBy level turns evaluator statements state).result = .ok next := by
  cases node with
  | block statements => simp [executeBodyBy]
  | _ => simp [executeBodyBy, fail]

end

end Bella
