import Bella.Proofs.Correspondence
import Bella.Proofs.Grammar.Joining

/-! Programs in sequence. The source of one program on the lines after another's is the source of both
in turn, and both are executed in turn. The output so far does not matter to a run, so a program may be
fed in chunks, each with an output of its own. -/

namespace Bella

open Traced

def State.after (earlier : List Value) (state : State) : State :=
  ⟨state.scope, earlier ++ state.output⟩

section

variable (level : Nat) (budget : Budget)

def executeEach (statements : List Node) (state : State) : Traced State :=
  statements.foldlM (fun state statement => execute level budget statement state) state

def feed (chunks : List (List Node)) (state : State) : Traced State :=
  chunks.foldlM (fun state chunk => do
    let next ← executeEach level budget chunk ⟨state.scope, []⟩
    return next.after state.output) state

theorem executeAll_eq_executeEach (statements : List Node) (state : State) :
    executeAll level budget statements state = executeEach level budget statements state := by
  unfold executeAll executeEach
  induction statements generalizing state with
  | nil => rfl
  | cons statement rest ih =>
      rw [executeAllBy, List.foldlM_cons]
      exact congrArg _ (funext ih)

theorem executeEach_append (before after : List Node) (state : State) :
    executeEach level budget (before ++ after) state =
      executeEach level budget before state >>= executeEach level budget after :=
  List.foldlM_append

theorem executeEach_flatten (chunks : List (List Node)) (state : State) :
    chunks.foldlM (fun state chunk => executeEach level budget chunk state) state =
      executeEach level budget chunks.flatten state := by
  induction chunks generalizing state with
  | nil => rfl
  | cons chunk rest ih =>
      rw [List.flatten_cons, executeEach_append, List.foldlM_cons]
      exact congrArg _ (funext ih)

theorem equal_correspondence :
    Correspondence (evaluateIn level budget) (evaluateIn level budget) Set.univ (fun _ => True)
      Eq where
  evaluate := by
    rintro one _ node rfl -
    exact alike_self fun value _ => ⟨rfl, trivial⟩
  found := by
    rintro one _ key rfl -
    rfl
  constants := by
    rintro one _ key rfl -
    rfl
  bind := by
    rintro one _ key value rfl - - -
    rfl

/-- The output so far only goes before what is printed. -/
theorem execute_after (statement : Node) (state : State) :
    (execute level budget statement state).result =
      (execute level budget statement ⟨state.scope, []⟩).result.map (State.after state.output) := by
  have initially : StatesAlike Eq state.output [] state ⟨state.scope, []⟩ :=
    ⟨rfl, [], (List.append_nil _).symm, rfl⟩
  have alike : (execute level budget statement state).Alike
      (execute level budget statement ⟨state.scope, []⟩) (StatesAlike Eq state.output []) :=
    executeBy_alike (equal_correspondence level budget) statement (fun _ _ => Set.mem_univ _)
      (fun _ _ => trivial) state ⟨state.scope, []⟩ initially
  refine alike_map_iff.mp (alike_mono alike ?_)
  rintro ⟨scope, output⟩ ⟨_, printed⟩ ⟨rfl, rest, one, two⟩
  change output = state.output ++ rest at one
  change printed = rest at two
  rw [one, two]
  rfl

theorem executeEach_after (statements : List Node) (state : State) :
    (executeEach level budget statements state).result =
      (executeEach level budget statements ⟨state.scope, []⟩).result.map
        (State.after state.output) := by
  rw [← executeAll_eq_executeEach, ← executeAll_eq_executeEach]
  exact execute_after level budget (.block statements) state

theorem feed_result (chunks : List (List Node)) (state : State) :
    (feed level budget chunks state).result =
      (executeEach level budget chunks.flatten state).result := by
  induction chunks generalizing state with
  | nil => rfl
  | cons chunk rest ih =>
      have cut := executeEach_after level budget chunk state
      rw [List.flatten_cons, executeEach_append, result_bind, cut]
      rw [feed, List.foldlM_cons, bind_assoc, result_bind]
      cases (executeEach level budget chunk ⟨state.scope, []⟩).result with
      | error fault => rfl
      | ok next => exact ih _

theorem run_result (statements : List Node) (scope : Scope) :
    (run level budget (.program (.block statements)) scope).result =
      (executeEach level budget statements ⟨scope, []⟩).result.map State.output := by
  rw [← executeAll_eq_executeEach]
  have started : run level budget (.program (.block statements)) scope =
      .note level (.started statements.length) >>= fun _ => do
        let final ← executeAll level budget statements ⟨scope, []⟩
        .note level (.finished final.output.length)
        return final.output :=
    rfl
  rw [started, result_bind, result_bind]
  cases (executeAll level budget statements ⟨scope, []⟩).result <;> rfl

end

/-- The source of two programs, one on the lines after the other's, is a program that executes them
in turn. The output handed in is only put before what is printed, and a program may be fed in chunks
cut anywhere, with one output for all or with an output for each. -/
theorem executes_in_sequence {first second : String} {one two : Node}
    (parsed : Source.parse first = .ok one) (also : Source.parse second = .ok two) :
    ∃ earlier later, one = .program (.block earlier) ∧ two = .program (.block later) ∧
      Source.parse (first ++ "\n" ++ second) = .ok (.program (.block (earlier ++ later))) ∧
      ∀ (level : Nat) (budget : Budget),
        (∀ state, execute level budget (.block (earlier ++ later)) state =
          execute level budget (.block earlier) state >>= execute level budget (.block later)) ∧
        (∀ statement state, (execute level budget statement state).result =
          (execute level budget statement ⟨state.scope, []⟩).result.map
            (State.after state.output)) ∧
        ∀ chunks : List (List Node), chunks.flatten = earlier ++ later →
          (∀ state, chunks.foldlM (fun state chunk => executeEach level budget chunk state) state =
            execute level budget (.block (earlier ++ later)) state) ∧
          (∀ state, (feed level budget chunks state).result =
            (execute level budget (.block (earlier ++ later)) state).result) ∧
          ∀ scope, (run level budget (.program (.block (earlier ++ later))) scope).result =
            (feed level budget chunks ⟨scope, []⟩).result.map State.output := by
  obtain ⟨earlier, later, rfl, rfl, joined⟩ := Source.parse_joined parsed also
  refine ⟨earlier, later, rfl, rfl, joined, fun level budget => ?_⟩
  have each (statements : List Node) (state : State) :
      execute level budget (.block statements) state = executeEach level budget statements state :=
    executeAll_eq_executeEach level budget statements state
  refine ⟨fun state => ?_, execute_after level budget, fun chunks whole => ⟨?_, ?_, ?_⟩⟩
  · have next : execute level budget (.block later) = executeEach level budget later :=
      funext (each later)
    rw [each, each, next, executeEach_append]
  · intro state
    rw [each, executeEach_flatten, whole]
  · intro state
    rw [each, feed_result, whole]
  · intro scope
    rw [run_result, feed_result, whole]

def commentedSource : String :=
  "let x = 1; // one"

def printingSource : String :=
  "print x;"

theorem executes_in_sequence_commented :
    ∃ earlier later,
      Source.parse commentedSource = .ok (.program (.block earlier)) ∧
      Source.parse printingSource = .ok (.program (.block later)) ∧
      Source.parse (commentedSource ++ "\n" ++ printingSource) =
        .ok (.program (.block (earlier ++ later))) ∧
      ∀ (level : Nat) (budget : Budget) (scope : Scope),
        (run level budget (.program (.block (earlier ++ later))) scope).result =
          (feed level budget [earlier, later] ⟨scope, []⟩).result.map State.output := by
  have parsed : Source.parse commentedSource = .ok (.program (.block [.variableDeclaration
      (.identifier (.text "x")) (.numeral (.real (Number.ofNumeral "1".toList)))])) := rfl
  have also : Source.parse printingSource =
      .ok (.program (.block [.printStatement (.identifier (.text "x"))])) := rfl
  obtain ⟨earlier, later, one, two, joined, executes⟩ := executes_in_sequence parsed also
  rw [one] at parsed
  rw [two] at also
  refine ⟨earlier, later, parsed, also, joined, fun level budget scope => ?_⟩
  exact ((executes level budget).2.2 [earlier, later] (by simp)).2.2 scope

end Bella
