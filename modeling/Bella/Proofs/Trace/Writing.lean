import Bella.Proofs.Origin.Events
import Bella.Proofs.Origin.Texts
import Bella.Writing

/-! Traces that are written. A name that can be written makes no line fail, so of a program with such names
only the values that are nested too deep do. Main statement: a run at a lower level is the one at a higher
level without the events above it, unless the higher one breaks off at an event or a parameter that cannot
be told. -/

namespace Bella

open Traced

namespace Value

mutual

def nesting : Value → Nat
  | .array items => nestings items + 1
  | _ => 0

def nestings : List Value → Nat
  | [] => 0
  | item :: rest => max (nesting item) (nestings rest)

end

end Value

def Event.nesting : Event → Nat
  | .declared _ value | .assigned _ value | .printed value | .guarded value => value.nesting
  | .called _ arguments | .calledBuiltin _ arguments => Value.nestings arguments
  | .started _ | .finished _ | .defined _ _ => 0

def Key.IsWritable : Key → Prop
  | .text value => value.string?.isSome
  | .integer value => (Nat.toDigits 10 value.natAbs).length ≤ Datum.longestNumeral
  | _ => True

def nestingFault? (allowed nested : Nat) : Option Fault :=
  if allowed < nested then some .recursionTooDeep else none

def CodePoint.IsCharacter (point : CodePoint) : Prop :=
  point.character?.isSome

section

variable {text : Text} {names : Set Key} {nesting : Nat}

theorem string?_isSome_iff : text.string?.isSome ↔ text.Every CodePoint.IsCharacter := by
  rw [Text.string?, Option.isSome_map]
  induction text with
  | nil => exact iff_of_true rfl (List.forall_mem_nil _)
  | cons point rest ih =>
      rw [Text.Every, List.forall_mem_cons, ← Text.Every, ← ih, List.mapM_cons]
      cases point with
      | character value =>
          cases rest.mapM CodePoint.character? <;> simp [CodePoint.character?, CodePoint.IsCharacter]
      | surrogate index => simp [CodePoint.character?, CodePoint.IsCharacter]

theorem ofString_every (text : String) : (Text.ofString text).Every CodePoint.IsCharacter :=
  string?_isSome_iff.mp (Text.string?_ofString text ▸ rfl)

theorem isCharacter_of_isPrintable (point : CodePoint) (printable : point.isPrintable = true) :
    point.IsCharacter := by
  cases point with
  | character value => rfl
  | surrogate index => cases printable

theorem Text.Every.fault? (every : text.Every CodePoint.IsCharacter) : text.fault? = none :=
  if_pos (string?_isSome_iff.mpr every)

theorem Value.faults?_of_each {items : List Value}
    (each : ∀ item ∈ items, item.fault? nesting = nestingFault? nesting item.nesting) :
    Value.faults? nesting items = nestingFault? nesting (Value.nestings items) := by
  induction items with
  | nil => rfl
  | cons item rest ih =>
      obtain ⟨first, others⟩ := List.forall_mem_cons.mp each
      rw [faults?, nestings, first, ih others]
      simp only [nestingFault?, lt_max_iff]
      by_cases deep : nesting < item.nesting
      · simp [deep]
      · simp [deep]

theorem argumentsText_every {arguments : List Text}
    (each : ∀ argument ∈ arguments, argument.Every CodePoint.IsCharacter) :
    (Event.argumentsText arguments).Every CodePoint.IsCharacter :=
  ((ofString_every "(").append ((ofString_every ", ").separated each)).append (ofString_every ")")

variable (writable : ∀ key ∈ names, key.IsWritable)

include writable

theorem Datum.NamedIn.encodable {name : Datum} (named : name.NamedIn names) :
    name.display.Every CodePoint.IsCharacter := by
  obtain ⟨key, among, known⟩ := named
  cases name with
  | text value =>
      obtain rfl := Option.some.inj known
      exact string?_isSome_iff.mp (writable _ among)
  | list items => cases known
  | object members => cases known
  | _ => exact ofString_every _

theorem Datum.NamedIn.fault? {name : Datum} (named : name.NamedIn names) (nesting : Nat) :
    name.fault? nesting = none := by
  obtain ⟨key, among, known⟩ := named
  cases name with
  | integer value =>
      obtain rfl := Option.some.inj known
      exact if_neg (Nat.not_lt_of_le (writable _ among))
  | list items => cases known
  | object members => cases known
  | _ => rfl

theorem Value.Made.encodable {value : Value} (made : value.MadeIn names) :
    value.text.Every CodePoint.IsCharacter :=
  made.text_every isCharacter_of_isPrintable fun _ _ _ known =>
    known.1.encodable writable

theorem Value.Made.fault? {value : Value} (made : value.MadeIn names) (nesting : Nat) :
    value.fault? nesting = nestingFault? nesting value.nesting := by
  induction made generalizing nesting with
  | array _ ih =>
      cases nesting with
      | zero => rw [Value.fault?, Value.nesting, nestingFault?, if_pos (Nat.succ_pos _)]
      | succ nesting =>
          rw [Value.fault?, Value.nesting, Value.faults?_of_each fun item inside => ih item inside nesting]
          simp only [nestingFault?, Nat.add_lt_add_iff_right]
  | function known => exact known.1.fault? writable nesting
  | _ => rfl

theorem texts_every {values : List Value} (made : ∀ value ∈ values, value.MadeIn names) :
    (Event.argumentsText (Value.texts values)).Every CodePoint.IsCharacter := by
  rw [Value.texts_eq_map]
  refine argumentsText_every (List.forall_mem_map.mpr fun value inside => ?_)
  exact (made value inside).encodable writable

theorem Event.Made.encodable {event : Event}
    (made : event.Made (Datum.NamedIn names) (DeclaredIn names)) :
    event.text.Every CodePoint.IsCharacter := by
  cases event with
  | started statements =>
      exact ((ofString_every _).append (ofString_every _)).append (ofString_every _)
  | finished outputs =>
      exact ((ofString_every _).append (ofString_every _)).append (ofString_every _)
  | declared name value =>
      have named := (ofString_every "declare ").append (made.1.encodable writable)
      have kind := (named.append (ofString_every ": ")).append (ofString_every value.kind.label)
      exact (kind.append (ofString_every " = ")).append (made.2.encodable writable)
  | defined name parameters =>
      have named := (ofString_every "define function ").append (made.1.encodable writable)
      exact named.append (argumentsText_every fun parameter inside =>
        (made.2 parameter inside).encodable writable)
  | assigned name value =>
      have named := (ofString_every "assign ").append (made.1.encodable writable)
      exact (named.append (ofString_every " = ")).append (made.2.encodable writable)
  | printed value => exact (ofString_every "print ").append (Value.Made.encodable writable made)
  | guarded value =>
      exact (ofString_every "while condition -> ").append (Value.Made.encodable writable made)
  | called name arguments =>
      obtain ⟨⟨_, _, known⟩, each⟩ := made
      have named := (ofString_every "call ").append (known.1.encodable writable)
      exact named.append (texts_every writable each)
  | calledBuiltin builtin arguments =>
      have named := (ofString_every "call builtin ").append (ofString_every builtin.name)
      exact named.append (texts_every writable made)

theorem Event.Made.fault? {event : Event} (made : event.Made (Datum.NamedIn names) (DeclaredIn names))
    (nesting : Nat) : event.fault? nesting = nestingFault? nesting event.nesting := by
  have line := (Event.Made.encodable writable made).fault?
  have several {values : List Value} (each : ∀ value ∈ values, value.MadeIn names) :
      Value.faults? nesting values = nestingFault? nesting (Value.nestings values) :=
    Value.faults?_of_each fun value inside => (each value inside).fault? writable nesting
  rw [Event.fault?, line, Option.or_none]
  cases event with
  | started | finished => rfl
  | declared | assigned =>
      rw [Event.partFault?, made.1.fault? writable nesting, made.2.fault? writable nesting]
      rfl
  | defined => exact made.1.fault? writable nesting
  | printed | guarded => exact Value.Made.fault? writable made nesting
  | called name arguments =>
      obtain ⟨⟨_, _, known⟩, each⟩ := made
      rw [Event.partFault?, known.1.fault? writable nesting, several each]
      rfl
  | calledBuiltin => exact several made

end

section

variable {α : Type} {nesting : Nat} {traced lower higher : Traced α} {before after : List Event}
  {event : Event} {fault : Fault}

theorem written_of_writable (each : ∀ event ∈ traced.events, event.fault? nesting = none) :
    traced.written nesting = ⟨traced.events, traced.result.mapError (Fault.raised nesting)⟩ := by
  rw [Traced.written, List.findSome?_eq_none_iff.mpr each]

theorem written_of_split (split : traced.events = before ++ event :: after)
    (each : ∀ event ∈ before, event.fault? nesting = none) (faulty : event.fault? nesting = some fault) :
    traced.written nesting = ⟨before, .error fault⟩ := by
  have found : traced.events.findSome? (Event.fault? nesting) = some fault :=
    List.findSome?_eq_some_iff.mpr ⟨before, event, after, split, faulty, each⟩
  have earlier : ∀ event ∈ before, (event.fault? nesting).isNone = true :=
    fun event inside => Option.isNone_iff_eq_none.mpr (each event inside)
  rw [Traced.written, found, split, List.takeWhile_append_of_pos earlier]
  simp [faulty]

theorem written_cases (nesting : Nat) (traced : Traced α) :
    (∀ event ∈ traced.events, event.fault? nesting = none) ∨
      ∃ before event after fault, traced.events = before ++ event :: after ∧
        (∀ event ∈ before, event.fault? nesting = none) ∧ event.fault? nesting = some fault := by
  cases found : traced.events.findSome? (Event.fault? nesting) with
  | none => exact .inl (List.findSome?_eq_none_iff.mp found)
  | some fault =>
      obtain ⟨before, event, after, split, faulty, each⟩ := List.findSome?_eq_some_iff.mp found
      exact .inr ⟨before, event, after, fault, split, each, faulty⟩

theorem prefix_written (starts : before <+: traced.events)
    (each : ∀ event ∈ before, event.fault? nesting = none) :
    before <+: (traced.written nesting).events := by
  rcases written_cases nesting traced with whole | ⟨earlier, event, after, fault, split, plain, faulty⟩
  · rw [written_of_writable whole]
    exact starts
  · rw [written_of_split split plain faulty]
    rw [split] at starts
    rcases List.prefix_or_prefix_of_prefix starts (List.prefix_append earlier (event :: after)) with
      shorter | longer
    · exact shorter
    · obtain ⟨rest, rfl⟩ := longer
      cases rest with
      | nil => simp
      | cons next rest =>
          obtain ⟨tail, same⟩ := starts
          rw [List.append_assoc, List.append_cancel_left_eq, List.cons_append, List.cons.injEq] at same
          have told := each next (List.mem_append_right _ List.mem_cons_self)
          rw [same.1, faulty] at told
          cases told

/-- A computation that is told alike at a lower level is written alike, unless the higher one breaks off at
an event above the level. -/
theorem written_shadows {low : Nat} {breaks : Prop} (shadows : lower.Shadows low breaks higher)
    (nesting : Nat) :
    lower.written nesting = (higher.written nesting).told low ∨
      ∃ fault, ((breaks ∧ fault = .untraceableName) ∨
          ∃ event ∈ higher.events, low < event.level ∧ event.fault? nesting = some fault) ∧
        (higher.written nesting).result = .error fault ∧
        ((higher.written nesting).told low).events <+: (lower.written nesting).events := by
  have earlier : (higher.told low).events <+: lower.events := by
    rcases shadows with rfl | ⟨-, -, earlier⟩
    · exact List.prefix_refl _
    · exact earlier
  have kept {events : List Event} (each : ∀ event ∈ events, event.fault? nesting = none) :
      ∀ event ∈ events.filter fun event => event.level ≤ low, event.fault? nesting = none :=
    fun event inside => each event (List.mem_of_mem_filter inside)
  rcases written_cases nesting higher with whole | ⟨before, event, after, fault, split, each, faulty⟩
  · rw [written_of_writable whole]
    rcases shadows with rfl | ⟨broken, ended, earlier⟩
    · exact .inl (written_of_writable (kept whole))
    · exact .inr ⟨_, .inl ⟨broken, rfl⟩, congrArg (Except.mapError _) ended,
        prefix_written earlier (kept whole)⟩
  · rw [written_of_split split each faulty]
    rw [told, split, List.filter_append] at earlier
    by_cases within : event.level ≤ low
    · rw [List.filter_cons_of_pos (by simpa using within)] at earlier
      obtain ⟨rest, same⟩ := earlier
      refine .inl ?_
      rw [List.append_assoc, List.cons_append] at same
      exact written_of_split same.symm (kept each) faulty
    · have inside : event ∈ higher.events := split ▸ List.mem_append_right _ List.mem_cons_self
      refine .inr ⟨fault, .inr ⟨event, inside, Nat.lt_of_not_le within, faulty⟩, rfl, ?_⟩
      exact prefix_written ((List.prefix_append _ _).trans earlier) (kept each)

end

/-- Why a run breaks off where one at a lower level goes on: a function has a parameter that is no text, or
an event above the lower level cannot be written. -/
def BreaksOff (limits : Limits) (low high : Nat) (program : Node) (scope : Scope) (fault : Fault) : Prop :=
  (Breaks low high program ∧ fault = .untraceableName) ∨
    ∃ event ∈ (run high limits.toBudget program scope).events,
      low < event.level ∧ event.fault? limits.nesting = some fault

/-- At a lower level a run is the same but for the events above the level, or the run at the higher level
breaks off where one of them or a parameter cannot be told, and so far has told the same. Of a program
whose names can be written every event can be told in which no array is nested too deep; if all are told
and the parameters are texts, neither the result nor the error depends on the level. -/
theorem levels_agree (limits : Limits) (program : Node) :
    (∀ scope low high, low ≤ high →
      writtenRun limits low program scope = (writtenRun limits high program scope).told low ∨
        ∃ fault, BreaksOff limits low high program scope fault ∧
          (writtenRun limits high program scope).result = .error fault ∧
          ((writtenRun limits high program scope).told low).events <+:
            (writtenRun limits low program scope).events) ∧
    ((∀ key ∈ program.names, key.IsWritable) →
      (∀ level, ∀ event ∈ (run level limits.toBudget program .initial).events,
        event.fault? limits.nesting =
          if limits.nesting < event.nesting then some .recursionTooDeep else none) ∧
      ((∀ function ∈ program.functions, function.HasTextParameters) → ∀ one other,
        (∀ level ∈ [one, other], ∀ event ∈ (run level limits.toBudget program .initial).events,
          event.nesting ≤ limits.nesting) →
        (writtenRun limits one program .initial).result =
          (writtenRun limits other program .initial).result)) := by
  refine ⟨fun scope low high order => ?_, fun writable => ?_⟩
  · exact written_shadows (run_shadows order limits.toBudget program scope) limits.nesting
  · have told (level : Nat) : ∀ event ∈ (run level limits.toBudget program .initial).events,
        event.fault? limits.nesting = nestingFault? limits.nesting event.nesting := by
      have makes : (run level limits.toBudget program .initial).MakesIn {key | key ∈ program.names} _ :=
        run_makes level limits.toBudget fun _ among => among
      exact fun event inside => Event.Made.fault? writable (makes.1 event inside) limits.nesting
    refine ⟨told, fun texts one other shallow => ?_⟩
    have whole (level : Nat) (asked : level ∈ [one, other]) :
        (writtenRun limits level program .initial).result =
          (run level limits.toBudget program .initial).result.mapError (Fault.raised limits.nesting) := by
      refine congrArg Traced.result (written_of_writable fun event inside => ?_)
      rw [told level event inside]
      exact if_neg (Nat.not_lt_of_le (shallow level asked event inside))
    have same := result_of_told (fun level => run level limits.toBudget program .initial)
      (fun level => run_told (Nat.zero_le level) limits.toBudget texts .initial) one other
    rw [whole one (by simp), whole other (by simp), same]

def numberedProgram : Node :=
  .program (.block [
    .functionDeclaration (.identifier (.text "f")) [.identifier (.integer 5)]
      (.booleanLiteral true),
    .printStatement (.booleanLiteral true)])

theorem levels_disagree_numbered :
    Node.decode numberedProgram.encode = .ok numberedProgram ∧
      (writtenRun .ample 1 numberedProgram .initial).result = .ok [.boolean true] ∧
      (writtenRun .ample 2 numberedProgram .initial).result = .error .untraceableName :=
  ⟨Node.decode_encode numberedProgram, rfl, rfl⟩

def halfProgram : Node :=
  .program (.block [
    .variableDeclaration (.identifier (.text [.surrogate ⟨0, by decide⟩])) (.booleanLiteral true)])

example : (writtenRun .ample 1 halfProgram .initial).result = .ok [] ∧
    (writtenRun .ample 2 halfProgram .initial).result = .error .unencodableText :=
  ⟨rfl, rfl⟩

end Bella
