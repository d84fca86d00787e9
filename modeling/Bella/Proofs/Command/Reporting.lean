import Bella.Proofs.Command.Emission
import Bella.Proofs.Trace.Overflow
import Bella.Proofs.Trace.Replay

/-! What a command reports of a source. Main statement: it is refused, or its run fails or overflows the
machine, and nothing is printed; or the run succeeds and each of its values is printed on a line of its own.
Beside the trace no file is touched, and the trace only if a flag asks for it. -/

namespace Bella.Command

open Traced

/-- The ways to report a run that does not loop for as long as the machine goes on. What comes of printing
values whose text the machine does not make is left open. -/
inductive Reports (limits : Limits) (level : Nat) (program : Node) : Except Breakdown Report → Prop
  | printed {output : List Value} (runs : Runs program .initial (.ok output))
      (fits : ¬Overflows limits level program)
      (shallow : ∀ value ∈ output, value.nesting ≤ limits.nesting)
      (each : (lines (output.map Value.text)).splitOn (.character '\n') = output.map Value.text ++ [[]]) :
      Reports limits level program (.ok ⟨0, lines (output.map Value.text), none⟩)
  | unprintable {output : List Value} {result : Except Breakdown Report}
      (runs : Runs program .initial (.ok output)) (fits : ¬Overflows limits level program)
      (deep : ∃ value ∈ output, limits.nesting < value.nesting) : Reports limits level program result
  | misuse {cause : Misuse} {diagnostic : Diagnostic} (runs : Runs program .initial (.error cause))
      (fits : ¬Overflows limits level program)
      (text : diagnostic.text = Text.ofString "Runtime error: " ++ cause.report) :
      Reports limits level program (.ok ⟨1, "", some diagnostic⟩)
  | overflow {diagnostic : Diagnostic} (overflows : Overflows limits level program)
      (text : diagnostic.text = Text.ofString "Runtime error: maximum recursion depth exceeded") :
      Reports limits level program (.ok ⟨1, "", some diagnostic⟩)
  | loops (spent : (run level limits.toBudget program .initial).result = .error .loopTooLong)
      (fits : ¬Overflows limits level program) :
      Reports limits level program (.error (.faulted "" .loopTooLong))

theorem lines_splitOn {texts : List Text} (each : ∀ text ∈ texts, .character '\n' ∉ text) :
    (lines texts).splitOn (.character '\n') = texts ++ [[]] := by
  have joined : lines texts = [CodePoint.character '\n'].intercalate (texts ++ [[]]) := by
    clear each
    induction texts with
    | nil => rfl
    | cons text rest ih =>
        obtain ⟨next, others, same⟩ := List.exists_cons_of_ne_nil
          (List.append_ne_nil_of_right_ne_nil rest (List.cons_ne_nil [] []))
        rw [List.cons_append, same, List.intercalate_cons_cons, ← same, ← ih]
        rfl
  rw [joined]
  refine List.splitOn_intercalate _ ?_ (by simp)
  exact List.forall_mem_append.mpr ⟨each, List.forall_mem_singleton.mpr List.not_mem_nil⟩

theorem lines_every {texts : List Text} {holds : CodePoint → Prop} (each : ∀ text ∈ texts, text.Every holds)
    (broken : holds (.character '\n')) : Text.Every holds (lines texts) := by
  intro point inside
  obtain ⟨text, among, inside⟩ := List.mem_flatMap.mp inside
  rcases List.mem_append.mp inside with within | last
  · exact each text among point within
  · exact List.mem_singleton.mp last ▸ broken

theorem locate_tracePath (directory : Directory) :
    directory.locate tracePath = some (.inside ["debug.txt"]) := by
  rfl

section

variable {limits : Limits} {level : Nat} {name source : String} {path : Path} {flags : List String}
  {directory : Directory} {program : Node}

theorem levelOf_eq_zero (verbose : ∀ flag ∈ flags, IsVerbosity flag) : levelOf flags = 0 ↔ flags = [] := by
  cases flags with
  | nil => simp [levelOf]
  | cons flag rest =>
      obtain ⟨⟨count, letters⟩, -⟩ := List.forall_mem_cons.mp verbose
      simp [levelOf, letters]

def told (limits : Limits) (level : Nat) (program : Node) : List Text :=
  (writtenRun limits level program .initial).events.map Event.text

/-- All lines of the trace of source text can be written to a file. -/
theorem told_encodable (parsed : Source.parse source = .ok program) (limits : Limits) (level : Nat) :
    ∃ trace : String, Text.ofString trace = lines (told limits level program) := by
  have each : ∀ text ∈ told limits level program, text.Every CodePoint.IsCharacter := by
    refine List.forall_mem_map.mpr fun event inside => ?_
    have earlier := (written_earlier limits.nesting _).subset inside
    exact Event.Made.encodable wordKeys_writable
      ((parsed_makes parsed level limits.toBudget).events event earlier)
  obtain ⟨trace, same⟩ := Option.isSome_iff_exists.mp (string?_isSome_iff.mpr (lines_every each rfl))
  exact ⟨trace, (Text.string?_eq_some same).symm⟩

theorem runProgram_writes (limits : Limits) (level : Nat) (program : Node) :
    (runProgram limits level program).writes =
      if 0 < level then [(tracePath, lines (told limits level program))] else [] := by
  have writes : (runProgram limits level program).writes =
      if 0 < level then
        [(tracePath, lines ((Recorder.new level).useForRun
          (writtenRun limits level program .initial)).1.file)]
      else [] := by
    rw [runProgram]
    obtain ⟨recorder, result⟩ := (Recorder.new level).useForRun (writtenRun limits level program .initial)
    cases result with
    | ok output => rfl
    | error fault => cases fault <;> rfl
  by_cases positive : 0 < level
  · rw [writes, if_pos positive, if_pos positive]
    simp [told, Recorder.useForRun, Recorder.openFile, Recorder.closeFile, Recorder.record, Recorder.new,
      positive]
  · rw [writes, if_neg positive, if_neg positive]

/-- A value of source text is printed unless its arrays are nested too deep. -/
theorem lineFault?_eq {value : Value} (made : value.MadeIn Source.wordKeys) (nesting : Nat) :
    value.lineFault? nesting = nestingFault? nesting value.nesting := by
  rw [Value.lineFault?, Value.Made.fault? wordKeys_writable made,
    (Value.Made.encodable wordKeys_writable made).fault?, Option.or_none]

theorem printAll_shallow {output : List Value} (made : ∀ value ∈ output, value.MadeIn Source.wordKeys)
    (shallow : ∀ value ∈ output, value.nesting ≤ limits.nesting) :
    printAll limits.nesting output = .ok ⟨0, lines (output.map Value.text), none⟩ := by
  have printable : output.findSome? (Value.lineFault? limits.nesting) = none := by
    refine List.findSome?_eq_none_iff.mpr fun value inside => ?_
    rw [lineFault?_eq (made value inside), nestingFault?_eq_none.mpr (shallow value inside)]
  rw [printAll, printable]

theorem printAll_deep {before after : List Value} {value : Value}
    (made : ∀ other ∈ before ++ value :: after, other.MadeIn Source.wordKeys)
    (shallow : ∀ other ∈ before, other.nesting ≤ limits.nesting) (deep : limits.nesting < value.nesting) :
    printAll limits.nesting (before ++ value :: after) =
      .error (.faulted (lines (before.map Value.text)) .recursionTooDeep) := by
  obtain ⟨earlier, here⟩ := List.forall_mem_append.mp made
  have printable : ∀ other ∈ before, other.lineFault? limits.nesting = none := fun other inside => by
    rw [lineFault?_eq (earlier other inside), nestingFault?_eq_none.mpr (shallow other inside)]
  have fault : value.lineFault? limits.nesting = some .recursionTooDeep := by
    rw [lineFault?_eq (here value List.mem_cons_self), nestingFault?_eq_some.mpr ⟨deep, rfl⟩]
  have found : (before ++ value :: after).findSome? (Value.lineFault? limits.nesting) =
      some .recursionTooDeep :=
    List.findSome?_eq_some_iff.mpr ⟨before, value, after, rfl, fault, printable⟩
  rw [printAll, found, List.takeWhile_append_of_pos fun other inside =>
    Option.isNone_iff_eq_none.mpr (printable other inside)]
  simp [fault]

theorem runProgram_overflow (parsed : Source.parse source = .ok program)
    (overflows : Overflows limits level program) :
    (runProgram limits level program).result = .ok ⟨1, "", some .recursionTooDeep⟩ := by
  rcases written_parsed parsed limits level with ⟨-, written⟩ | ⟨fits, -⟩
  · simp only [runProgram, Recorder.useForRun, written]
  · exact absurd overflows fits

theorem runProgram_ended (parsed : Source.parse source = .ok program) (fits : ¬Overflows limits level program)
    {output : List Value} (ran : (run level limits.toBudget program .initial).result = .ok output) :
    (runProgram limits level program).result = printAll limits.nesting output := by
  rcases written_parsed parsed limits level with ⟨overflows, -⟩ | ⟨-, written⟩
  · exact absurd overflows fits
  · simp only [runProgram, Recorder.useForRun, written.trans ran]

theorem runProgram_reports (parsed : Source.parse source = .ok program) (limits : Limits) (level : Nat) :
    Reports limits level program (runProgram limits level program).result := by
  have ends := parsed_realises parsed level
  rcases written_parsed parsed limits level with ⟨overflows, -⟩ | ⟨fits, written⟩
  · exact runProgram_overflow parsed overflows ▸ .overflow overflows rfl
  · cases ran : (run level limits.toBudget program .initial).result with
    | ok output =>
        have runs := (ends.ends (.ok output)).mp ⟨limits.toBudget, ran⟩
        rw [runProgram_ended parsed fits ran]
        by_cases shallow : ∀ value ∈ output, value.nesting ≤ limits.nesting
        · rw [printAll_shallow ((parsed_makes parsed level limits.toBudget).value output ran) shallow]
          refine .printed runs fits shallow (lines_splitOn ?_)
          refine List.forall_mem_map.mpr fun value inside broken => ?_
          exact absurd (output_isPrintable parsed ran value inside _ broken) (by decide)
        · simp only [not_forall, Nat.not_le] at shallow
          obtain ⟨value, inside, deep⟩ := shallow
          exact .unprintable runs fits ⟨value, inside, deep⟩
    | error fault =>
        rw [ran] at written
        rcases parsed_fault parsed ran with ⟨cause, rfl, -⟩ | exhausted
        · simp only [runProgram, Recorder.useForRun, written]
          exact .misuse ((ends.ends (.error cause)).mp ⟨limits.toBudget, ran⟩) fits rfl
        · cases fault with
          | recursionTooDeep => exact absurd (.inl ran) fits
          | loopTooLong =>
              simp only [runProgram, Recorder.useForRun, written]
              exact .loops ran fits
          | _ => exact exhausted.elim

theorem performIn_unwritten {command : Command}
    (silent : (command.perform limits (directory.lookup command.path)).writes = []) :
    command.performIn limits directory =
      (directory, (command.perform limits (directory.lookup command.path)).result) := by
  rw [performIn, silent]
  rfl

section

variable {command : Command} {trace : String}
  (writes : (command.perform limits (directory.lookup command.path)).writes =
    [(tracePath, Text.ofString trace)])

include writes

theorem performIn_obstructed {obstacle : Obstacle}
    (refused : directory.writingPlace tracePath = .error obstacle) :
    command.performIn limits directory = (directory, .error (.notOpened obstacle)) := by
  simp only [performIn, writes, writeAll, write_refused refused]
  rfl

theorem performIn_traced {place : List String} (opened : directory.writingPlace tracePath = .ok place) :
    ∃ after : Directory,
      command.performIn limits directory =
        (after, (command.perform limits (directory.lookup command.path)).result) ∧
      after.AlikeBeside ["debug.txt"] directory ∧
      after.fileAt? ["debug.txt"] = some trace.toUTF8 := by
  have located := (Directory.writingPlace_ok_iff.mp opened).1
  obtain rfl := Directory.Location.inside.inj
    (Option.some.inj ((locate_tracePath directory).symm.trans located))
  obtain ⟨after, written, alike, stored, -⟩ := write_string opened trace
  refine ⟨after, ?_, alike, stored⟩
  simp only [performIn, writes, writeAll, written]
  rfl

end

theorem request_source (limits : Limits) (named : Names name path)
    (verbose : ∀ flag ∈ flags, IsVerbosity flag) (entry : Entry) :
    request limits (flags ++ [name]) entry =
      .ok (perform limits ⟨.runSource, path, levelOf flags⟩ entry) := by
  rw [request, ofArguments_source verbose named]
  rfl

theorem requestIn_source (limits : Limits) (named : Names name path)
    (verbose : ∀ flag ∈ flags, IsVerbosity flag) (directory : Directory) :
    requestIn limits (flags ++ [name]) directory =
      .ok (performIn limits ⟨.runSource, path, levelOf flags⟩ directory) := by
  rw [requestIn, ofArguments_source verbose named]
  rfl

/-- What becomes of a source that has been found. One that does not parse is refused, with nothing to
write. The run of any other is reported, with its trace to write if there are flags. -/
def ReportsSource (limits : Limits) (text : String) (flags : List String) (outcome : Outcome) : Prop :=
  match Source.parse (String.ofList (unifyLineEnds text.toList)) with
  | .error error => outcome.writes = [] ∧
      ∃ diagnostic, outcome.result = .ok ⟨1, "", some diagnostic⟩ ∧
        diagnostic.text = Text.ofString "Syntax error: " ++ syntaxErrorText error
  | .ok program =>
      (∃ trace : String, Text.ofString trace = lines (told limits (levelOf flags) program) ∧
        outcome.writes = if flags = [] then [] else [(tracePath, Text.ofString trace)]) ∧
      Reports limits (levelOf flags) program outcome.result

theorem perform_parsed {text : String}
    (parsed : Source.parse (String.ofList (unifyLineEnds text.toList)) = .ok program) (limits : Limits)
    (path : Path) (level : Nat) :
    perform limits ⟨.runSource, path, level⟩ (.file text.toUTF8) = runProgram limits level program := by
  simp only [perform, withText_toUTF8, withProgram, parsed]

theorem perform_reports (limits : Limits) (verbose : ∀ flag ∈ flags, IsVerbosity flag) (path : Path)
    (text : String) :
    ReportsSource limits text flags
      (perform limits ⟨.runSource, path, levelOf flags⟩ (.file text.toUTF8)) := by
  have performed : perform limits ⟨.runSource, path, levelOf flags⟩ (.file text.toUTF8) =
      withProgram (String.ofList (unifyLineEnds text.toList)) (runProgram limits (levelOf flags)) :=
    withText_toUTF8 path text _
  rw [performed, ReportsSource, withProgram]
  cases parsed : Source.parse (String.ofList (unifyLineEnds text.toList)) with
  | error error => exact ⟨rfl, _, rfl, rfl⟩
  | ok program =>
      obtain ⟨trace, same⟩ := told_encodable parsed limits (levelOf flags)
      refine ⟨⟨trace, same, ?_⟩, runProgram_reports parsed limits (levelOf flags)⟩
      rw [runProgram_writes, same]
      by_cases silent : flags = []
      · rw [if_pos silent, if_neg (by rw [(levelOf_eq_zero verbose).mpr silent]; decide)]
      · rw [if_neg silent, if_pos (Nat.pos_of_ne_zero (silent ∘ (levelOf_eq_zero verbose).mp))]

/-- How an outcome is carried out where the source is found. What is not to be written changes nothing. A
trace is written to its file and no other file is changed, or the file cannot be opened, and then nothing is
changed or reported. -/
def CarriedOut (limits : Limits) (arguments : List String) (directory : Directory) (outcome : Outcome) :
    Prop :=
  (outcome.writes = [] → requestIn limits arguments directory = .ok (directory, outcome.result)) ∧
  ∀ trace : String, outcome.writes = [(tracePath, Text.ofString trace)] →
    (∀ place, directory.writingPlace tracePath = .ok place →
      ∃ after : Directory, requestIn limits arguments directory = .ok (after, outcome.result) ∧
        after.AlikeBeside ["debug.txt"] directory ∧
        after.fileAt? ["debug.txt"] = some trace.toUTF8) ∧
    ∀ obstacle, directory.writingPlace tracePath = .error obstacle →
      requestIn limits arguments directory = .ok (directory, .error (.notOpened obstacle))

/-- On every machine a command on a source refuses it or reports its run, wherever the file is, and in a
working directory no file is changed but the trace. What a program does that ends is reported by every
machine that is large enough; one that recurses without end overflows each of them. -/
theorem source_reported (named : Names name path) (verbose : ∀ flag ∈ flags, IsVerbosity flag)
    (text : String) :
    (∀ limits, ∃ outcome, request limits (flags ++ [name]) (.file text.toUTF8) = .ok outcome ∧
      ReportsSource limits text flags outcome ∧
      ∀ directory : Directory, directory.lookup path = .file text.toUTF8 →
        CarriedOut limits (flags ++ [name]) directory outcome) ∧
    ∀ program, Source.parse (String.ofList (unifyLineEnds text.toList)) = .ok program →
      Tends (levelOf flags) program := by
  refine ⟨fun limits => ?_, fun program parsed => parsed_tends parsed (levelOf flags)⟩
  refine ⟨_, request_source limits named verbose _, perform_reports limits verbose path text,
    fun directory found => ?_⟩
  rw [← found, CarriedOut, requestIn_source limits named verbose]
  refine ⟨fun silent => congrArg _ (performIn_unwritten silent), fun trace writes => ⟨?_, ?_⟩⟩
  · intro place opened
    obtain ⟨after, performed, alike, stored⟩ := performIn_traced writes opened
    exact ⟨after, congrArg _ performed, alike, stored⟩
  · exact fun obstacle refused => congrArg _ (performIn_obstructed writes refused)

end

def sourceDirectory (source : String) : Directory :=
  .ofFiles [(["p.bella"], source.toUTF8)]

theorem lookup_sourceDirectory (source : String) :
    (sourceDirectory source).lookup ⟨"", ["p.bella"]⟩ = .file source.toUTF8 := by
  rfl

def failingSource : String := "print true; print x;"

def failingProgram : Node :=
  .program (.block [.printStatement (.booleanLiteral true), .printStatement (.identifier (.text "x"))])

theorem source_reported_failing :
    Names "p.bella" ⟨"", ["p.bella"]⟩ ∧ (∀ flag ∈ ["-v"], IsVerbosity flag) ∧
      ∃ after diagnostic,
        requestIn .ample ["-v", "p.bella"] (sourceDirectory failingSource) =
          .ok (after, .ok ⟨1, "", some diagnostic⟩) ∧
        diagnostic.text = Text.ofString
          "Runtime error: BellaError: UnboundIdentifier: Identifier x has not been declared" ∧
        after.fileAt? ["debug.txt"] = some "run program with 2 statements\n".toUTF8 := by
  have named := names_bella
  have verbose : ∀ flag ∈ ["-v"], IsVerbosity flag := List.forall_mem_singleton.mpr ⟨0, rfl⟩
  obtain ⟨outcome, asked, reported, carried⟩ :=
    (source_reported named verbose failingSource).1 .ample
  have parsed : Source.parse (String.ofList (unifyLineEnds failingSource.toList)) = .ok failingProgram := rfl
  rw [ReportsSource, parsed] at reported
  obtain ⟨⟨trace, lines, writes⟩, -⟩ := reported
  have found := lookup_sourceDirectory failingSource
  obtain ⟨after, request, -, stored⟩ := ((carried _ found).2 trace writes).1 ["debug.txt"] rfl
  have whole : trace = "run program with 2 statements\n" :=
    Text.ofString_injective _ _ (lines.trans (by decide +kernel))
  have result : outcome.result = .ok ⟨1, "", some (.misuse (.unbound (.text "x")))⟩ := by
    obtain rfl := Except.ok.inj ((request_source .ample named verbose _).symm.trans asked)
    rw [perform_parsed parsed]
    rfl
  rw [result] at request
  exact ⟨named, verbose, after, _, request, by decide +kernel, whole ▸ stored⟩

def takenTrace : Directory :=
  .ofFiles [(["p.bella"], quietSource.toUTF8), (["debug.txt", "x"], "".toUTF8)]

def lockedSource : Directory :=
  ⟨[(["p.bella"], quietSource.toUTF8)], [["p.bella"]], []⟩

def nestedSource : String :=
  "fun w(x)=[[[[[[[[[[x]]]]]]]]]];fun v(x)=w(w(w(w(w(w(w(w(w(w(x))))))))));" ++
    "fun u(x)=v(v(v(v(v(v(v(v(v(v(x))))))))));print true;print u(w(true));"

def EndsNested (program : Node) : Bool :=
  let traced := run 2 Limits.ample.toBudget program .initial
  (match traced.result with
    | .ok [.boolean true, value] => decide (Limits.ample.nesting < value.nesting)
    | _ => false) &&
  traced.events.any fun event => decide (Limits.ample.nesting < event.nesting)

theorem ok_of_any {ε α : Type} {result : Except ε α} {test : α → Bool}
    (found : result.toOption.any test = true) : ∃ value, result = .ok value ∧ test value = true := by
  cases result with
  | ok value => exact ⟨value, rfl, found⟩
  | error error => cases found

set_option maxRecDepth 10000 in
theorem nested_ends : (Source.parse nestedSource).toOption.any EndsNested = true := by
  decide +kernel

theorem endsNested {program : Node} (ends : EndsNested program = true) :
    (∃ value, (run 2 Limits.ample.toBudget program .initial).result = .ok [.boolean true, value] ∧
      Limits.ample.nesting < value.nesting) ∧
    Overflows .ample 2 program := by
  simp only [EndsNested, Bool.and_eq_true] at ends
  obtain ⟨last, told⟩ := ends
  constructor
  · split at last
    · exact ⟨_, ‹_›, of_decide_eq_true last⟩
    · cases last
  · obtain ⟨event, inside, deep⟩ := List.any_eq_true.mp told
    exact .inr (.inl ⟨event, inside, of_decide_eq_true deep⟩)

/-- A run that tells nothing overflows only by its calls or what it calls in vain. -/
theorem fits_of_untold {source : String} {program : Node} (parsed : Source.parse source = .ok program)
    {limits : Limits} {level : Nat} {output : List Value}
    (ended : (run level limits.toBudget program .initial).result = .ok output) :
    (run 0 limits.toBudget program .initial).result = .ok output ∧ ¬Overflows limits 0 program := by
  have told := parsed_told parsed (Nat.zero_le level) limits.toBudget .initial
  have same : (run 0 limits.toBudget program .initial).result = .ok output := by
    rw [told]
    exact ended
  refine ⟨same, ?_⟩
  rintro (deep | ⟨event, inside, -⟩ | ⟨callee, failed, -⟩)
  · cases same.symm.trans deep
  · rw [told] at inside
    have least := of_decide_eq_true (List.mem_filter.mp inside).2
    cases event <;> cases least
  · cases same.symm.trans failed

theorem quiet_unreported :
    ∃ program, Source.parse quietSource = .ok program ∧ Runs program .initial (.ok [.boolean true]) ∧
      takenTrace.lookup ⟨"", ["p.bella"]⟩ = .file quietSource.toUTF8 ∧
      requestIn .ample ["-v", "p.bella"] takenTrace = .ok (takenTrace, .error (.notOpened .directory)) ∧
      lockedSource.fileAt? ["p.bella"] = some quietSource.toUTF8 ∧
      requestIn .ample ["p.bella"] lockedSource = .ok (lockedSource, .error (.notOpened .permission)) := by
  have named := names_bella
  have verbose : ∀ flag ∈ ["-v"], IsVerbosity flag := List.forall_mem_singleton.mpr ⟨0, rfl⟩
  have ends := parsed_realises quietSource_parses 0
  refine ⟨_, rfl, (ends.ends (.ok [.boolean true])).mp ⟨.ample, rfl⟩, rfl, ?_, rfl, ?_⟩
  · have reported := perform_reports .ample verbose ⟨"", ["p.bella"]⟩ quietSource
    rw [ReportsSource, quietSource_parses] at reported
    obtain ⟨⟨trace, -, writes⟩, -⟩ := reported
    exact (requestIn_source .ample named verbose takenTrace).trans
      (congrArg _ (performIn_obstructed writes rfl))
  · exact (requestIn_source .ample named (List.forall_mem_nil _) lockedSource).trans rfl

theorem nested_unreported :
    ∃ program value, Source.parse nestedSource = .ok program ∧
      Runs program .initial (.ok [.boolean true, value]) ∧
      (∃ after, requestIn .ample ["-vv", "p.bella"] (sourceDirectory nestedSource) =
        .ok (after, .ok ⟨1, "", some .recursionTooDeep⟩)) ∧
      requestIn .ample ["p.bella"] (sourceDirectory nestedSource) =
        .ok (sourceDirectory nestedSource, .error (.faulted (lines ["true"]) .recursionTooDeep)) := by
  have named := names_bella
  have verbose : ∀ flag ∈ ["-vv"], IsVerbosity flag := List.forall_mem_singleton.mpr ⟨1, rfl⟩
  obtain ⟨program, parsed, ends⟩ := ok_of_any nested_ends
  obtain ⟨⟨value, ended, deep⟩, overflows⟩ := endsNested ends
  have realises := parsed_realises parsed 2
  have unbroken : String.ofList (unifyLineEnds nestedSource.toList) = nestedSource := by
    rw [unifyLineEnds_of_unbroken (by decide +kernel), String.ofList_toList]
  have performed (level : Nat) :
      perform .ample ⟨.runSource, ⟨"", ["p.bella"]⟩, level⟩
          ((sourceDirectory nestedSource).lookup ⟨"", ["p.bella"]⟩) =
        runProgram .ample level program := by
    rw [lookup_sourceDirectory, perform_parsed (unbroken.symm ▸ parsed)]
  refine ⟨program, value, parsed, (realises.ends (.ok [.boolean true, value])).mp ⟨_, ended⟩, ?_, ?_⟩
  · obtain ⟨trace, same⟩ := told_encodable parsed .ample 2
    have writes : (runProgram .ample 2 program).writes = [(tracePath, Text.ofString trace)] := by
      rw [runProgram_writes, same]
      rfl
    obtain ⟨after, carried, -⟩ := performIn_traced ((performed 2).symm ▸ writes) rfl
    rw [performed 2, runProgram_overflow parsed overflows] at carried
    exact ⟨after, (requestIn_source .ample named verbose _).trans (congrArg _ carried)⟩
  · obtain ⟨ended, fits⟩ := fits_of_untold parsed ended
    have silent : (runProgram .ample 0 program).writes = [] := runProgram_writes .ample 0 program
    have made := (parsed_makes parsed 0 Limits.ample.toBudget).value _ ended
    have printed : printAll Limits.ample.nesting ([.boolean true] ++ value :: []) = _ :=
      printAll_deep made (List.forall_mem_singleton.mpr (Nat.zero_le _)) deep
    have carried := performIn_unwritten ((performed 0).symm ▸ silent)
    rw [performed 0, runProgram_ended parsed fits ended] at carried
    exact (requestIn_source .ample named (List.forall_mem_nil _) _).trans
      (congrArg _ (carried.trans (congrArg _ printed)))

/-- The report of a program that ends fails to come where the trace or the source cannot be opened, where the
trace tells of a value that is nested too deep, and where such a value is printed. -/
theorem source_unreported :
    Names "p.bella" ⟨"", ["p.bella"]⟩ ∧ (∀ flag ∈ ["-v", "-vv"], IsVerbosity flag) ∧
    (∃ program, Source.parse quietSource = .ok program ∧ Runs program .initial (.ok [.boolean true]) ∧
      takenTrace.lookup ⟨"", ["p.bella"]⟩ = .file quietSource.toUTF8 ∧
      requestIn .ample ["-v", "p.bella"] takenTrace = .ok (takenTrace, .error (.notOpened .directory)) ∧
      lockedSource.fileAt? ["p.bella"] = some quietSource.toUTF8 ∧
      requestIn .ample ["p.bella"] lockedSource = .ok (lockedSource, .error (.notOpened .permission))) ∧
    ∃ program value, Source.parse nestedSource = .ok program ∧
      Runs program .initial (.ok [.boolean true, value]) ∧
      (∃ after, requestIn .ample ["-vv", "p.bella"] (sourceDirectory nestedSource) =
        .ok (after, .ok ⟨1, "", some .recursionTooDeep⟩)) ∧
      requestIn .ample ["p.bella"] (sourceDirectory nestedSource) =
        .ok (sourceDirectory nestedSource, .error (.faulted (lines ["true"]) .recursionTooDeep)) := by
  refine ⟨names_bella, ?_, quiet_unreported, nested_unreported⟩
  exact List.forall_mem_cons.mpr ⟨⟨0, rfl⟩, List.forall_mem_singleton.mpr ⟨1, rfl⟩⟩

end Bella.Command
