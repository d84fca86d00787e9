import Bella.Session

/-! Any number of uses of one recorder. Main statement: each has its own result, as on a new recorder, and
the lines of its events are kept exactly once. The lines of runs, and of the other uses before the first
run, are in the file; the rest is shown. -/

namespace Bella

inductive Use where
  | run (program : Node) (scope : Option Scope)
  | execute (statement : Node) (state : State)
  | evaluate (expression : Node) (scope : Scope)
  | call (function : Value) (arguments : List Value) (scope : Scope)

inductive Product where
  | output (values : List Value)
  | state (next : State)
  | value (value : Value)

namespace Use

def isRun : Use → Bool
  | .run _ _ => true
  | _ => false

section

variable (level : Nat) (limits : Limits)

def traced : Use → Traced Product
  | .run program scope => .output <$> writtenRun limits level program (scope.getD .initial)
  | .execute statement state =>
      .state <$> (Bella.execute level limits.toBudget statement state).written limits.nesting
  | .evaluate expression scope =>
      .value <$> (evaluateIn level limits.toBudget scope expression).written limits.nesting
  | .call function arguments scope =>
      .value <$> (applyFunction level limits.depth function arguments scope).written limits.nesting

def lines (use : Use) : List Text :=
  (use.traced level limits).events.map Event.text

def result (use : Use) : Except Fault Product :=
  (use.traced level limits).result

end

end Use

theorem Traced.map_eq {α β : Type} (function : α → β) (run : Traced α) :
    function <$> run = ⟨run.events, run.result.map function⟩ := by
  obtain ⟨events, result⟩ := run
  cases result with
  | error fault => rfl
  | ok value => simp [Functor.map, Traced.bind, Traced.pure, Except.map]

namespace Recorder

def serve (recorder : Recorder) (limits : Limits) (use : Use) : Recorder × Except Fault Product :=
  if use.isRun then recorder.useForRun (use.traced recorder.level limits)
  else recorder.use (use.traced recorder.level limits)

def serveAll (recorder : Recorder) (limits : Limits) :
    List Use → Recorder × List (Except Fault Product)
  | [] => (recorder, [])
  | use :: rest =>
      let (next, result) := recorder.serve limits use
      let (last, results) := serveAll next limits rest
      (last, result :: results)

variable {recorder : Recorder} {limits : Limits} {use : Use}

theorem serve_result (recorder : Recorder) (limits : Limits) (use : Use) :
    (recorder.serve limits use).2 = use.result recorder.level limits := by
  unfold serve
  split <;> rfl

theorem serve_level (recorder : Recorder) (limits : Limits) (use : Use) :
    (recorder.serve limits use).1.level = recorder.level := by
  unfold serve
  split
  · exact record_level recorder.openFile _
  · exact record_level recorder _

theorem serve_run (positive : 0 < recorder.level) (run : use.isRun = true) :
    (recorder.serve limits use).1 =
      { recorder with
        fileOpen := false
        file := recorder.file ++ use.lines recorder.level limits } := by
  rw [serve, if_pos run]
  simp [useForRun, openFile, closeFile, record, positive, Use.lines]

theorem serve_open (other : use.isRun = false) (opened : recorder.fileOpen = true) :
    (recorder.serve limits use).1 =
      { recorder with file := recorder.file ++ use.lines recorder.level limits } := by
  rw [serve, if_neg (by simp [other])]
  simp [Recorder.use, record, opened, Use.lines]

theorem serve_closed (other : use.isRun = false) (closed : recorder.fileOpen = false) :
    (recorder.serve limits use).1 =
      { recorder with shown := recorder.shown ++ use.lines recorder.level limits } := by
  rw [serve, if_neg (by simp [other])]
  simp [Recorder.use, record, closed, Use.lines]

theorem serve_grows (recorder : Recorder) (limits : Limits) (use : Use) :
    recorder.file <+: (recorder.serve limits use).1.file ∧
      recorder.shown <+: (recorder.serve limits use).1.shown := by
  unfold serve
  split
  · exact ⟨file_prefix_useForRun recorder _, shown_prefix_record recorder.openFile _⟩
  · exact ⟨file_prefix_record recorder _, shown_prefix_record recorder _⟩

theorem serveAll_append (recorder : Recorder) (limits : Limits) (before after : List Use) :
    (recorder.serveAll limits (before ++ after)).1 =
      ((recorder.serveAll limits before).1.serveAll limits after).1 := by
  induction before generalizing recorder with
  | nil => rfl
  | cons use rest ih => exact ih _

theorem serveAll_grows (recorder : Recorder) (limits : Limits) (uses : List Use) :
    recorder.file <+: (recorder.serveAll limits uses).1.file ∧
      recorder.shown <+: (recorder.serveAll limits uses).1.shown := by
  induction uses generalizing recorder with
  | nil => exact ⟨List.prefix_refl _, List.prefix_refl _⟩
  | cons use rest ih =>
      obtain ⟨file, shown⟩ := recorder.serve_grows limits use
      obtain ⟨later, further⟩ := ih (recorder.serve limits use).1
      exact ⟨file.trans later, shown.trans further⟩

theorem serveAll_results (recorder : Recorder) (limits : Limits) (uses : List Use) :
    (recorder.serveAll limits uses).2 = uses.map (Use.result recorder.level limits) := by
  induction uses generalizing recorder with
  | nil => rfl
  | cons use rest ih =>
      have later := ih (recorder.serve limits use).1
      rw [serve_level] at later
      rw [List.map_cons, ← later, ← serve_result]
      rfl

/-- While the file is closed, only runs add to it, each opening it and closing it again. -/
theorem serveAll_closed (recorder : Recorder) (positive : 0 < recorder.level)
    (closed : recorder.fileOpen = false) (uses : List Use) :
    (recorder.serveAll limits uses).1 =
      { recorder with
        file := recorder.file ++ (uses.filter Use.isRun).flatMap (Use.lines recorder.level limits)
        shown := recorder.shown ++
          (uses.filter fun use => !use.isRun).flatMap (Use.lines recorder.level limits) } := by
  induction uses generalizing recorder with
  | nil => simp [serveAll]
  | cons use rest ih =>
      simp only [serveAll]
      cases run : use.isRun with
      | true =>
          rw [serve_run positive run]
          refine (ih _ ?_ rfl).trans ?_
          · exact positive
          · simp [run, closed]
      | false =>
          rw [serve_closed run closed]
          refine (ih _ ?_ ?_).trans ?_
          · exact positive
          · exact closed
          · simp [run]

/-- A file that is open stays so until the first run has ended. -/
theorem serveAll_open (recorder : Recorder) (positive : 0 < recorder.level)
    (opened : recorder.fileOpen = true) (limits : Limits) (uses : List Use) :
    (recorder.serveAll limits uses).1 =
      { recorder with
        fileOpen := uses.all fun use => !use.isRun
        file := recorder.file ++
          (uses.takeWhile (fun use => !use.isRun) ++
            (uses.dropWhile fun use => !use.isRun).filter Use.isRun).flatMap
              (Use.lines recorder.level limits)
        shown := recorder.shown ++
          ((uses.dropWhile fun use => !use.isRun).filter fun use => !use.isRun).flatMap
            (Use.lines recorder.level limits) } := by
  induction uses generalizing recorder with
  | nil => simp [serveAll, ← opened]
  | cons use rest ih =>
      simp only [serveAll]
      cases run : use.isRun with
      | true =>
          rw [serve_run positive run]
          refine (serveAll_closed _ ?_ rfl rest).trans ?_
          · exact positive
          · simp [run]
      | false =>
          rw [serve_open run opened]
          refine (ih _ ?_ ?_).trans ?_
          · exact positive
          · exact opened
          · simp [run]

end Recorder

namespace Session

open Recorder

/-- A step that makes uses of the recorder, and is the same with every recorder of a level. -/
def Serves (limits : Limits) (level : Nat) (step : Recorder → Session × Answer) : Prop :=
  ∃ uses scope answer, ∀ recorder : Recorder, recorder.level = level →
    step recorder = (⟨(recorder.serveAll limits uses).1, scope⟩, answer)

variable {limits : Limits} {level : Nat} {scope : Scope}

theorem serves_nothing (scope : Scope) (answer : Answer) :
    Serves limits level fun recorder => (⟨recorder, scope⟩, answer) :=
  ⟨[], scope, answer, fun _ _ => rfl⟩

theorem serves_withMaterial {α : Type} (read : Except Failure α)
    {next : Recorder → α → Session × Answer}
    (each : ∀ value, Serves limits level fun recorder => next recorder value) :
    Serves limits level fun recorder => withMaterial ⟨recorder, scope⟩ read (next recorder) := by
  cases read with
  | ok value => exact each value
  | error failure => exact serves_nothing scope _

theorem serves_answered {α : Type} (use : Use) {traced : Nat → Traced α} {product : α → Product}
    (reply : α → Reply) (same : ∀ level, use.traced level limits = product <$> traced level) :
    Serves limits level fun recorder => answered ⟨recorder, scope⟩
      (if use.isRun then recorder.useForRun (traced recorder.level)
        else recorder.use (traced recorder.level)) reply := by
  refine ⟨[use], scope, ⟨((traced level).result.map reply).mapError .faulted, []⟩,
    fun recorder known => ?_⟩
  subst known
  simp only [serveAll, serve, same, Traced.map_eq]
  split <;> rfl

theorem serves_executeEach (statements : List Node) (printed : List Text) :
    Serves limits level fun recorder => executeEach limits ⟨recorder, scope⟩ printed statements := by
  induction statements generalizing scope printed with
  | nil => exact serves_nothing scope _
  | cons statement rest ih =>
      have first (recorder : Recorder) :
          (recorder.serve limits (.execute statement ⟨scope, []⟩)).1 =
            recorder.record ((execute recorder.level limits.toBudget statement
              ⟨scope, []⟩).written limits.nesting).events := by
        simp [serve, Use.isRun, Use.traced, Recorder.use, Traced.map_eq]
      cases ended : ((execute level limits.toBudget statement
          ⟨scope, []⟩).written limits.nesting).result with
      | error fault =>
          refine ⟨[.execute statement ⟨scope, []⟩], scope, ⟨.error (.faulted fault), printed⟩,
            fun recorder known => ?_⟩
          simp only [serveAll, first recorder]
          subst known
          simp only [executeEach, Recorder.use, ended]
      | ok state =>
          obtain ⟨uses, last, answer, serves⟩ :=
            @ih state.scope (printed ++ Value.texts state.output)
          refine ⟨.execute statement ⟨scope, []⟩ :: uses, last, answer, fun recorder known => ?_⟩
          simp only [serveAll, first recorder]
          subst known
          simp only [executeEach, Recorder.use, ended]
          exact serves _ (record_level recorder _)

theorem serves_step (limits : Limits) (level : Nat) (scope : Scope) (request : Request) :
    Serves limits level fun recorder => step limits ⟨recorder, scope⟩ request := by
  cases request with
  | run program =>
      refine serves_withMaterial program.program fun node => ?_
      exact serves_answered (.run node none) .output fun _ => rfl
  | runHere program =>
      refine serves_withMaterial program.program fun node => ?_
      exact serves_answered (.run node (some scope)) .output fun _ => rfl
  | execute statements =>
      exact serves_withMaterial statements.statements fun nodes => serves_executeEach nodes []
  | evaluate expression =>
      refine serves_withMaterial expression.expression fun node => ?_
      exact serves_answered (.evaluate node scope) .value fun _ => rfl
  | call name arguments =>
      refine serves_withMaterial ((scope.get name).mapError .faulted) fun function => ?_
      exact serves_answered (.call function arguments scope) .value fun _ => rfl

end Session

/-- On a new recorder the file holds the lines of a use, and is closed if the use is a run. Each of any
number of uses has the same result there. The lines of runs and of the uses before the first run are in the
file, in order, each use's once; those of the other uses are shown. The file is closed once there has been a
run, and never loses a line. A step of a session is such uses, and only the level of its recorder matters
to it. -/
theorem uses_recorded (level : Nat) (positive : 0 < level) (limits : Limits) :
    (∀ use : Use, (Recorder.new level).serve limits use =
      (⟨level, !use.isRun, use.lines level limits, []⟩, use.result level limits)) ∧
    (∀ uses : List Use,
      ((Recorder.new level).serveAll limits uses).2 = uses.map (Use.result level limits) ∧
      ((Recorder.new level).serveAll limits uses).1.file =
        (uses.takeWhile (fun use => !use.isRun) ++
          (uses.dropWhile fun use => !use.isRun).filter Use.isRun).flatMap (Use.lines level limits) ∧
      ((Recorder.new level).serveAll limits uses).1.shown =
        ((uses.dropWhile fun use => !use.isRun).filter fun use => !use.isRun).flatMap
          (Use.lines level limits) ∧
      (((Recorder.new level).serveAll limits uses).1.fileOpen = false ↔
        ∃ use ∈ uses, use.isRun = true) ∧
      ∀ further, ((Recorder.new level).serveAll limits uses).1.file <+:
        ((Recorder.new level).serveAll limits (uses ++ further)).1.file) ∧
    ∀ scope request,
      Session.Serves limits level fun recorder => Session.step limits ⟨recorder, scope⟩ request := by
  have opened : (Recorder.new level).fileOpen = true := decide_eq_true positive
  refine ⟨fun use => ?_, fun uses => ?_, fun scope request => Session.serves_step limits level scope request⟩
  · have result := (Recorder.new level).serve_result limits use
    refine Prod.ext ?_ result
    cases run : use.isRun with
    | true => exact Recorder.serve_run positive run
    | false => exact (Recorder.serve_open run opened).trans (by rw [Recorder.new, decide_eq_true positive]; rfl)
  · have served := Recorder.serveAll_open (Recorder.new level) positive opened limits uses
    refine ⟨?_, ?_, ?_, ?_, fun further => ?_⟩
    · exact Recorder.serveAll_results _ limits uses
    · exact congrArg Recorder.file served
    · exact congrArg Recorder.shown served
    · rw [served]
      simp
    · rw [Recorder.serveAll_append]
      exact (Recorder.serveAll_grows _ limits further).1

def mixedUses : List Use :=
  [.execute (.printStatement (.booleanLiteral true)) ⟨.initial, []⟩,
    .run (.program (.block [.printStatement (.identifier (.text "x"))])) none,
    .execute (.printStatement (.booleanLiteral false)) ⟨.initial, []⟩,
    .run (.program (.block [])) none]

theorem uses_recorded_mixed :
    0 < 2 ∧
      ((Recorder.new 2).serveAll .ample mixedUses).1.file =
        ["print true", "run program with 1 statements", "run program with 0 statements",
          "program finished with 0 outputs"].map Text.ofString ∧
      ((Recorder.new 2).serveAll .ample mixedUses).1.shown = ["print false"].map Text.ofString := by
  have positive : 0 < 2 := by decide
  obtain ⟨-, file, shown, -⟩ := (uses_recorded 2 positive .ample).2.1 mixedUses
  exact ⟨positive, file.trans rfl, shown.trans rfl⟩

end Bella
