import Bella.Proofs.Grammar.SourceNames
import Bella.Proofs.Trace.Completions
import Bella.Trace.Recorder
import Mathlib.Logic.Function.Basic

/-! Traces read back. A line shows by its first words what it tells, and if a word names what is bound,
the name and the text of its value can be read from it. Main statement: the lines of a run of source
text, read in order, give back the names in scope with the texts of their values, and the texts that were
printed. -/

namespace Bella

open Traced

namespace Line

def startsWith (line : Text) (starts : List String) : Bool :=
  starts.any fun start => (Text.ofString start).isPrefixOf line

def level (line : Text) : Nat :=
  if startsWith line ["run program with ", "program finished with "] then 1
  else if startsWith line ["declare ", "define function ", "assign ", "print "] then 2
  else 3

def after? (start : String) (line : Text) : Option Text :=
  if startsWith line [start] then some (line.drop (Text.ofString start).length) else none

def isNamePoint : CodePoint → Bool
  | .character value => Source.isNameCharacter value
  | .surrogate _ => false

def leadingName (text : Text) : Text :=
  text.takeWhile isNamePoint

def valueText (text : Text) : Text :=
  (text.dropWhile (· != .character '=')).drop 2

inductive Entry where
  | bound (name text : Text)
  | printed (text : Text)

def entry? (line : Text) : Option Entry :=
  match after? "declare " line, after? "define function " line, after? "assign " line,
      after? "print " line with
  | some rest, _, _, _ | _, _, some rest, _ => some (.bound (leadingName rest) (valueText rest))
  | _, some rest, _, _ =>
      some (.bound (leadingName rest) (Value.functionText "function" (leadingName rest)))
  | _, _, _, some rest => some (.printed rest)
  | none, none, none, none => none

theorem level_text (event : Event) : level event.text = event.level := by
  cases event <;> rfl

section

variable {name before : Text}

theorem leadingName_append (word : ∀ point ∈ name, isNamePoint point = true) {first : CodePoint}
    (ends : isNamePoint first = false) (rest : Text) : leadingName (name ++ first :: rest) = name := by
  rw [leadingName, List.takeWhile_append_of_pos word]
  simp [ends]

theorem valueText_append (plain : .character '=' ∉ before) (text : Text) :
    valueText (before ++ (Text.ofString "= " ++ text)) = text := by
  have earlier : ∀ point ∈ before, (point != .character '=') = true := fun point inside =>
    bne_iff_ne.mpr fun same => plain (same ▸ inside)
  rw [valueText, List.dropWhile_append_of_pos earlier]
  rfl

theorem not_equals (word : ∀ point ∈ name, isNamePoint point = true) {after : Text}
    (plain : .character '=' ∉ after) : .character '=' ∉ name ++ after := by
  intro inside
  rcases List.mem_append.mp inside with named | later
  · exact absurd (word _ named) (by decide)
  · exact plain later

theorem entry?_declared (word : ∀ point ∈ name, isNamePoint point = true) (value : Value) :
    entry? (Event.declared (.text name) value).text = some (.bound name value.text) := by
  have line : entry? (Event.declared (.text name) value).text =
      some (.bound
        (leadingName (name ++ Text.ofString ": " ++ Text.ofString value.kind.label ++ Text.ofString " = " ++
          value.text))
        (valueText (name ++ Text.ofString ": " ++ Text.ofString value.kind.label ++ Text.ofString " = " ++
          value.text))) := rfl
  have named : name ++ Text.ofString ": " ++ Text.ofString value.kind.label ++ Text.ofString " = " ++ value.text =
      name ++ .character ':' ::
        (Text.ofString " " ++ Text.ofString value.kind.label ++ Text.ofString " = " ++ value.text) := by
    simp only [List.append_assoc]
    rfl
  have valued : name ++ Text.ofString ": " ++ Text.ofString value.kind.label ++ Text.ofString " = " ++ value.text =
      name ++ (Text.ofString ": " ++ Text.ofString value.kind.label ++ Text.ofString " ") ++
        (Text.ofString "= " ++ value.text) := by
    simp only [List.append_assoc]
    rfl
  have plain : .character '=' ∉ Text.ofString ": " ++ Text.ofString value.kind.label ++ Text.ofString " " := by
    cases value.kind <;> decide
  rw [line, valued, valueText_append (not_equals word plain), ← valued, named,
    leadingName_append word (by decide)]

theorem entry?_assigned (word : ∀ point ∈ name, isNamePoint point = true) (value : Value) :
    entry? (Event.assigned (.text name) value).text = some (.bound name value.text) := by
  have line : entry? (Event.assigned (.text name) value).text =
      some (.bound (leadingName (name ++ Text.ofString " = " ++ value.text))
        (valueText (name ++ Text.ofString " = " ++ value.text))) := rfl
  have named : name ++ Text.ofString " = " ++ value.text =
      name ++ .character ' ' :: (Text.ofString "= " ++ value.text) := by
    rw [List.append_assoc]
    rfl
  have valued : name ++ Text.ofString " = " ++ value.text =
      name ++ Text.ofString " " ++ (Text.ofString "= " ++ value.text) := by
    rw [List.append_assoc, List.append_assoc]
    rfl
  rw [line, valued, valueText_append (not_equals word (by decide)), ← valued, named,
    leadingName_append word (by decide)]

theorem entry?_defined (word : ∀ point ∈ name, isNamePoint point = true) (parameters : List Text) :
    entry? (Event.defined (.text name) parameters).text =
      some (.bound name (Value.functionText "function" name)) := by
  have line : entry? (Event.defined (.text name) parameters).text =
      some (.bound (leadingName (name ++ Event.argumentsText parameters))
        (Value.functionText "function" (leadingName (name ++ Event.argumentsText parameters)))) := rfl
  have named : name ++ Event.argumentsText parameters =
      name ++ .character '(' :: (Text.separated ", " parameters ++ Text.ofString ")") := rfl
  rw [line, named, leadingName_append word (by decide)]

end

theorem entry?_printed (value : Value) :
    entry? (Event.printed value).text = some (.printed value.text) :=
  rfl

theorem entry?_of_level {event : Event} (other : event.level ≠ 2) : entry? event.text = none := by
  cases event with
  | declared | defined | assigned | printed => exact absurd rfl other
  | _ => rfl

def Entry.apply (known : Text → Option Text) : Entry → Text → Option Text
  | .bound name text => Function.update known name (some text)
  | .printed _ => known

def Entry.printed? : Entry → Option Text
  | .bound _ _ => none
  | .printed text => some text

def builtinTexts (name : Text) : Option Text :=
  (Scope.builtinBindings.find? fun binding => Text.ofString binding.1 == name).map fun binding =>
    binding.2.text

def replay (lines : List Text) : Text → Option Text :=
  (lines.filterMap entry?).foldl Entry.apply builtinTexts

def printedTexts (lines : List Text) : List Text :=
  (lines.filterMap entry?).filterMap Entry.printed?

theorem filter_level (events : List Event) (which : Nat) :
    (events.map Event.text).filter (fun line => level line = which) =
      (events.filter fun event => event.level = which).map Event.text := by
  simp [List.filter_map, Function.comp_def, level_text]

theorem entries_eq (events : List Event) :
    (events.map Event.text).filterMap entry? =
      ((events.filter fun event => event.level = 2).map Event.text).filterMap entry? := by
  induction events with
  | nil => rfl
  | cons event rest ih =>
      by_cases second : event.level = 2
      · simp [second, List.filterMap_cons, ih]
      · simp [second, ih, entry?_of_level second]

end Line

open Line

structure Scope.ReadAs (scope : Scope) (known : Text → Option Text) : Prop where
  texts : ∀ name, known name = (scope.find? (.text name)).map Value.text
  names : ∀ key value, scope.find? key = some value → ∃ name, key = .text name

theorem initial_bindings : Scope.initial.bindings =
    Scope.builtinBindings.map fun binding => (.text binding.1, binding.2) :=
  rfl

theorem initial_readAs : Scope.initial.ReadAs builtinTexts where
  texts name := by
    have same (one : Text) : (Key.text one == Key.text name) = (one == name) := by
      rw [Bool.eq_iff_iff, beq_iff_eq, beq_iff_eq, Key.text.injEq]
    simp [Scope.find?, initial_bindings, builtinTexts, List.find?_map, Function.comp_def, same]
  names key value found := by
    obtain ⟨binding, taken, -⟩ := Option.map_eq_some_iff.mp found
    have listed := List.mem_of_find?_eq_some taken
    rw [initial_bindings] at listed
    obtain ⟨original, -, rfl⟩ := List.mem_map.mp listed
    have matched := List.find?_some taken
    exact ⟨original.1, (beq_iff_eq.mp matched).symm⟩

theorem Scope.ReadAs.bind {scope : Scope} {known : Text → Option Text} (read : scope.ReadAs known)
    (name : Text) (value : Value) :
    (scope.bind (.text name) value).ReadAs (Function.update known name (some value.text)) where
  texts other := by
    rw [Scope.find?_bind, Function.update_apply, read.texts]
    by_cases same : other = name
    · simp [same]
    · simp [same, Ne.symm same]
  names key held found := by
    rw [Scope.find?_bind] at found
    split at found
    · rename_i same
      exact ⟨name, same.symm⟩
    · exact read.names key held found

theorem isNamePoint_of_isWord {name : String} (word : Source.IsWord name) :
    ∀ point ∈ Text.ofString name, isNamePoint point = true := by
  intro point inside
  obtain ⟨character, written, rfl⟩ := List.mem_map.mp inside
  exact word.characters character written

theorem Completion.Faithful.level {completion : Completion} (faithful : completion.Faithful) :
    completion.event.level = 2 := by
  cases faithful <;> rfl

/-- The line of a completed statement of source text says what has become of the state. -/
theorem Completion.Faithful.read {completion : Completion} (faithful : completion.Faithful)
    (source : Source.IsSourceStatement completion.statement) :
    ∃ entry, entry? completion.event.text = some entry ∧
      (∀ known, completion.before.scope.ReadAs known →
        completion.after.scope.ReadAs (entry.apply known)) ∧
      completion.after.output.map Value.text =
        completion.before.output.map Value.text ++ entry.printed?.toList := by
  cases faithful with
  | @declaration name key initializer value state named fresh =>
      cases source with
      | @variableDeclaration word _ spelled _ =>
          obtain rfl : Key.text word = key := Option.some.inj named
          refine ⟨_, entry?_declared (isNamePoint_of_isWord spelled) value, fun known read => ?_, ?_⟩
          · exact read.bind word value
          · simp [Entry.printed?]
  | @definition name key parameters body state named fresh =>
      generalize parameters.map parameterNode = nodes at source
      cases source with
      | @functionDeclaration word _ _ spelled _ _ =>
          obtain rfl : Key.text word = key := Option.some.inj named
          refine ⟨_, entry?_defined (isNamePoint_of_isWord spelled) parameters,
            fun known read => ?_, ?_⟩
          · exact read.bind word (.function (.text word) (parameters.map .text) body)
          · simp [Entry.printed?]
  | @assignment name key expression value state named assignable =>
      cases source with
      | @assignment word _ target _ =>
          obtain rfl : Key.text word = key := Option.some.inj named
          refine ⟨_, entry?_assigned (isNamePoint_of_isWord target.1) value, fun known read => ?_, ?_⟩
          · exact read.bind word value
          · simp [Entry.printed?]
  | @print expression value state =>
      exact ⟨_, entry?_printed value, fun known read => read, by simp [Entry.printed?]⟩

section

variable {level : Nat} {budget : Budget} {start moment : Moment} {done : List Completion}

theorem Performs.arrives (performs : Performs level budget start done moment) :
    Arrives level budget start (done.map Completion.statement) moment := by
  induction performs with
  | here => exact .here
  | @passes done earlier later _ advances compound ih =>
      have step := Arrives.step ih advances
      rwa [compound, List.append_nil] at step
  | @completes done statement rest state next event _ simple executed faithful ih =>
      have step := Arrives.step ih (.statement simple executed)
      simpa [Moment.next, simple] using step

theorem Performs.faithful (performs : Performs level budget start done moment) :
    ∀ completion ∈ done, completion.Faithful := by
  induction performs with
  | here => exact List.forall_mem_nil _
  | passes _ _ _ ih => exact ih
  | completes _ _ _ faithful ih =>
      exact List.forall_mem_append.mpr ⟨ih, List.forall_mem_singleton.mpr faithful⟩

/-- What one line says, the lines of all completions say together. -/
theorem Performs.read (performs : Performs level budget start done moment)
    (source : ∀ statement ∈ simpleStatementsOfAll start.pending, Source.IsSourceStatement statement)
    {known : Text → Option Text} (initially : start.state.scope.ReadAs known) :
    let entries := (done.map fun completion => completion.event.text).filterMap entry?
    moment.state.scope.ReadAs (entries.foldl Entry.apply known) ∧
      moment.state.output.map Value.text =
        start.state.output.map Value.text ++ entries.filterMap Entry.printed? := by
  induction performs with
  | here => exact ⟨initially, by simp⟩
  | passes before advances compound ih =>
      cases advances with
      | statement simple executed => simp [Moment.next, simple] at compound
      | block | turn tested | leave tested untrue => exact ih
  | @completes done statement rest state next event before simple executed faithful ih =>
      have occurs := (before.completes simple executed faithful).arrives.occurs statement (by simp)
      obtain ⟨entry, line, reads, prints⟩ := faithful.read (source statement occurs)
      obtain ⟨scope, output⟩ := ih
      have told : [event.text].filterMap entry? = [entry] := by simp [line]
      have printed : [entry].filterMap Entry.printed? = entry.printed?.toList := by
        cases entry <;> rfl
      simp only [List.map_append, List.map_singleton, List.filterMap_append, told]
      refine ⟨?_, ?_⟩
      · rw [List.foldl_append]
        exact reads _ scope
      · rw [printed, ← List.append_assoc, ← output]
        exact prints

end

def traceOf (level : Nat) (budget : Budget) (program : Node) : List Text :=
  ((Recorder.new level).useForRun (run level budget program .initial)).1.file

theorem traceOf_eq {level : Nat} (positive : 0 < level) (budget : Budget) (program : Node) :
    traceOf level budget program = (run level budget program .initial).events.map Event.text := by
  simp [traceOf, Recorder.useForRun, Recorder.openFile, Recorder.closeFile, Recorder.record,
    Recorder.new, positive]

theorem filter_level_of_told {α : Type} {level which : Nat} (within : which ≤ level)
    (traced : Traced α) :
    (traced.events.filter fun event => event.level = which) =
      (traced.told level).events.filter fun event => event.level = which := by
  rw [told, List.filter_filter]
  refine List.filter_congr fun event _ => ?_
  by_cases same : event.level = which
  · simp [same, within]
  · simp [same]

theorem filter_of_level {events : List Event} {own : Nat}
    (uniform : ∀ event ∈ events, event.level = own) (which : Nat) :
    (events.filter fun event => event.level = which) = if own = which then events else [] := by
  split
  · rename_i same
    exact List.filter_eq_self.mpr fun event told => decide_eq_true ((uniform event told).trans same)
  · rename_i other
    refine List.filter_eq_nil_iff.mpr fun event told => ?_
    rw [uniform event told, decide_eq_true_eq]
    exact other

theorem level_completions {done : List Completion} (faithful : ∀ completion ∈ done, completion.Faithful) :
    ∀ event ∈ done.map Completion.event, event.level = 2 :=
  List.forall_mem_map.mpr fun completion among => (faithful completion among).level

section

variable {α : Type} {traced : Traced α} {done : List Completion} {closing : List Event} {count : Nat}
  (faithful : ∀ completion ∈ done, completion.Faithful)
  (last : ∀ event ∈ closing, event.level = 1)
  (whole : (traced.told 2).events = .started count :: done.map Completion.event ++ closing)

include faithful last whole

theorem filter_completions :
    (traced.events.filter fun event => event.level = 2) = done.map Completion.event := by
  rw [filter_level_of_told (le_refl 2), whole, List.cons_append,
    List.filter_cons_of_neg Bool.false_ne_true, List.filter_append,
    filter_of_level (level_completions faithful), filter_of_level last]
  simp

theorem filter_ends :
    (traced.events.filter fun event => event.level = 1) = .started count :: closing := by
  rw [filter_level_of_told (Nat.le_succ 1), whole, List.cons_append, List.filter_cons_of_pos rfl,
    List.filter_append, filter_of_level (level_completions faithful), filter_of_level last]
  simp

end

theorem started_ne_finished {statements outputs : Nat} :
    (Event.started statements).text ≠ (Event.finished outputs).text := by
  intro same
  have starts : startsWith (Event.started statements).text ["program finished with "] = true :=
    same ▸ rfl
  cases starts

theorem finished_of_line {events : List Event} {count : Nat}
    (told : (Event.finished count).text ∈ events.map Event.text) :
    (Event.finished count).text ∈ (events.filter fun event => event.level = 1).map Event.text := by
  rw [← filter_level]
  exact List.mem_filter.mpr ⟨told, decide_eq_true (level_text (.finished count))⟩

/-- From level two on the lines of a trace stand for the statements that have been completed, and say
what has become of the state. -/
theorem level_records {level : Nat} (second : 2 ≤ level) (budget : Budget) {statements : List Node}
    (source : ∀ statement ∈ simpleStatementsOfAll statements, Source.IsSourceStatement statement) :
    let trace := traceOf level budget (.program (.block statements))
    let result := (run level budget (.program (.block statements)) .initial).result
    ∃ done moment, Performs level budget ⟨statements, ⟨.initial, []⟩⟩ done moment ∧
      trace.filter (fun line => Line.level line = 2) =
        done.map (fun completion => completion.event.text) ∧
      moment.state.scope.ReadAs (replay trace) ∧
      printedTexts trace = moment.state.output.map Value.text ∧
      (∀ output, result = .ok output → moment.pending = [] ∧
        (executeAll level budget statements ⟨.initial, []⟩).result = .ok moment.state ∧
        moment.state.output = output ∧ trace.getLast? = some (Event.finished output.length).text) ∧
      ∀ fault, result = .error fault →
        moment.Stops level budget fault ∧ ∀ count, (Event.finished count).text ∉ trace := by
  have positive : 0 < level := Nat.lt_of_lt_of_le Nat.zero_lt_two second
  obtain ⟨done, moment, performs, ends⟩ := run_records second budget statements .initial
  obtain ⟨closing, last, whole⟩ : ∃ closing, (∀ event ∈ closing, event.level = 1) ∧
      ((run level budget (.program (.block statements)) .initial).told 2).events =
        .started statements.length :: done.map Completion.event ++ closing := by
    rcases ends with ⟨final, -, -, same⟩ | ⟨fault, -, same⟩
    · exact ⟨_, List.forall_mem_singleton.mpr rfl, congrArg Traced.events same⟩
    · exact ⟨[], List.forall_mem_nil _, by rw [same, List.append_nil]⟩
  have effects := filter_completions performs.faithful last whole
  have entries : (traceOf level budget (.program (.block statements))).filterMap entry? =
      (done.map fun completion => completion.event.text).filterMap entry? := by
    rw [traceOf_eq positive, entries_eq, effects, List.map_map]
    rfl
  obtain ⟨reads, prints⟩ := performs.read source initial_readAs
  rw [← entries] at reads prints
  refine ⟨done, moment, performs, ?_, reads, prints.symm, ?_, ?_⟩
  · rw [traceOf_eq positive, filter_level, effects, List.map_map]
    rfl
  · intro output ran
    rcases ends with ⟨final, rfl, executed, same⟩ | ⟨fault, -, same⟩
    · have printed : final.output = output :=
        Except.ok.inj ((congrArg Traced.result same).symm.trans ran)
      refine ⟨rfl, executed, printed, ?_⟩
      rw [traceOf_eq positive, List.getLast?_map, run_finishes positive ran]
      rfl
    · cases (congrArg Traced.result same).symm.trans ran
  · intro fault failed
    rcases ends with ⟨final, rfl, executed, same⟩ | ⟨other, stops, same⟩
    · cases (congrArg Traced.result same).symm.trans failed
    · obtain rfl : other = fault := Except.error.inj ((congrArg Traced.result same).symm.trans failed)
      refine ⟨stops, fun count told => ?_⟩
      have only := filter_ends performs.faithful (List.forall_mem_nil _)
        ((congrArg Traced.events same).trans (List.append_nil _).symm)
      rw [traceOf_eq positive] at told
      have first := finished_of_line told
      rw [only] at first
      exact started_ne_finished (List.mem_singleton.mp first).symm

theorem parsed_told {source : String} {program : Node} (parsed : Source.parse source = .ok program)
    {low high : Nat} (order : low ≤ high) (budget : Budget) (scope : Scope) :
    run low budget program scope = (run high budget program scope).told low := by
  refine run_told order budget ?_ scope
  obtain ⟨-, each⟩ := Source.parse_isSourceProgram parsed
  exact Source.forall_functionsOfAll.mpr fun statement inside => (each statement inside).textParameters

/-- The trace of source text at a level is the one at a higher level without the lines above it. From
level two on the declarations, definitions, assignments and prints in it are those of the statements that
the run has completed, in order, up to where it ends or fails. Read in order over the names bound from
the start they give back the scope and the output at that moment. The last line counts the outputs if the
run ends with them, and no line does so if it fails. -/
theorem trace_records {source : String} {program : Node}
    (parsed : Source.parse source = .ok program) (budget : Budget) :
    (∀ low high, 0 < low → low ≤ high →
      traceOf low budget program =
        (traceOf high budget program).filter fun line => Line.level line ≤ low) ∧
    ∃ statements, program = .program (.block statements) ∧
      ∀ level, 2 ≤ level →
        let trace := traceOf level budget program
        let result := (run level budget program .initial).result
        ∃ done moment, Performs level budget ⟨statements, ⟨.initial, []⟩⟩ done moment ∧
          trace.filter (fun line => Line.level line = 2) =
            done.map (fun completion => completion.event.text) ∧
          moment.state.scope.ReadAs (replay trace) ∧
          printedTexts trace = moment.state.output.map Value.text ∧
          (∀ output, result = .ok output → moment.pending = [] ∧
            (executeAll level budget statements ⟨.initial, []⟩).result = .ok moment.state ∧
            moment.state.output = output ∧
            trace.getLast? = some (Event.finished output.length).text) ∧
          ∀ fault, result = .error fault →
            moment.Stops level budget fault ∧ ∀ count, (Event.finished count).text ∉ trace := by
  constructor
  · intro low high positive order
    rw [traceOf_eq positive, traceOf_eq (positive.trans_le order), parsed_told parsed order]
    simp [told, List.filter_map, Function.comp_def, level_text]
  · obtain ⟨-, each⟩ := Source.parse_isSourceProgram parsed
    have source := Source.forall_simpleStatementsOfAll.mpr fun statement inside =>
      (each statement inside).simple
    exact ⟨_, rfl, fun level second => level_records second budget source⟩

def loopSource : String :=
  "let x = true; fun f(y) = !y; while x { x = f(x); } print [x];"

def loopStatements : List Node :=
  [.variableDeclaration (.identifier (.text "x")) (.booleanLiteral true),
    .functionDeclaration (.identifier (.text "f")) [.identifier (.text "y")]
      (.unaryExpression (.text "!") (.identifier (.text "y"))),
    .whileStatement (.identifier (.text "x"))
      (.block [.assignment (.identifier (.text "x"))
        (.call (.identifier (.text "f")) [.identifier (.text "x")])]),
    .printStatement (.arrayLiteral [.identifier (.text "x")])]

theorem trace_records_loop :
    Source.parse loopSource = .ok (.program (.block loopStatements)) ∧
      traceOf 2 .ample (.program (.block loopStatements)) =
        ["run program with 4 statements", "declare x: Boolean = true", "define function f(y)",
          "assign x = false", "print [false]", "program finished with 1 outputs"].map
            Text.ofString ∧
      ∃ done moment,
        Performs 3 .ample ⟨loopStatements, ⟨.initial, []⟩⟩ done moment ∧
        done.map (fun completion => completion.event.text) =
          ["declare x: Boolean = true", "define function f(y)", "assign x = false",
            "print [false]"].map Text.ofString ∧
        moment.pending = [] ∧ moment.state.output.map Value.text = ["[false]"].map Text.ofString := by
  have parsed : Source.parse loopSource = .ok (.program (.block loopStatements)) := rfl
  obtain ⟨levels, statements, same, records⟩ := trace_records parsed .ample
  obtain rfl : loopStatements = statements := Node.block.inj (Node.program.inj same)
  obtain ⟨done, moment, performs, told, -, prints, success, -⟩ := records 3 (by decide)
  refine ⟨parsed, ?_, done, moment, performs, ?_, ?_, ?_⟩
  · exact (levels 2 3 (by decide) (by decide)).trans (by decide +kernel)
  · exact told.symm.trans (by decide +kernel)
  · exact (success _ rfl).1
  · exact prints.symm.trans (by decide +kernel)

end Bella
