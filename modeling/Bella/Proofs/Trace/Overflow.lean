import Bella.Proofs.Grammar.SourceNames
import Bella.Proofs.Programs
import Bella.Proofs.Rules.Budgets
import Bella.Proofs.Trace.Writing

/-! Source text on larger and larger machines. All its names can be written, so a run breaks off only where it
asks for deeper calls than the machine allows, or for the text of a deeper value. Main statement: a program
that ends overflows no machine that is large enough, and one that does not end overflows every machine or
loops on all large ones. -/

namespace Bella

open Traced

instance : LE Limits :=
  ⟨fun small large => small.toBudget ≤ large.toBudget ∧ small.nesting ≤ large.nesting⟩

/-- The run asks for more than there is: for calls, or for the text of a value, which the trace tells or a
message. -/
def Overflows (limits : Limits) (level : Nat) (program : Node) : Prop :=
  let traced := run level limits.toBudget program .initial
  traced.result = .error .recursionTooDeep ∨ (∃ event ∈ traced.events, limits.nesting < event.nesting) ∨
    ∃ callee, traced.result = .error (.misuse (.notCallable callee)) ∧ limits.nesting < callee.nesting

def Outcome.values : Outcome (List Value) → List Value
  | .ok output => output
  | .error (.notCallable callee) => [callee]
  | .error _ => []

structure Limits.Suffice (limits : Limits) (level : Nat) (program : Node)
    (outcome : Outcome (List Value)) : Prop where
  ended : (run level limits.toBudget program .initial).result = outcome.result
  fits : ¬Overflows limits level program
  shallow : ∀ value ∈ outcome.values, value.nesting ≤ limits.nesting

/-- What becomes of a program on larger and larger machines. -/
inductive Tends (level : Nat) (program : Node) : Prop
  | ends {outcome : Outcome (List Value)} (runs : Runs program .initial outcome)
      (settled : ∃ least : Limits, ∀ limits, least ≤ limits → limits.Suffice level program outcome)
  | recurses (deeper : Recurses fun budget => run level budget program .initial)
      (overflows : ∀ depth nesting, ∃ least, ∀ turns, least ≤ turns →
        Overflows ⟨⟨depth, turns⟩, nesting⟩ level program)
  | loops (longer : Loops fun budget => run level budget program .initial)
      (spent : ∃ least, ∀ depth turns, least ≤ depth →
        (run level ⟨depth, turns⟩ program .initial).result = .error .loopTooLong)

section

variable {source : String} {program : Node} {level nesting : Nat} {limits : Limits}

theorem nestingFault?_eq_none {allowed nested : Nat} :
    nestingFault? allowed nested = none ↔ nested ≤ allowed := by
  simp [nestingFault?]

theorem nestingFault?_eq_some {allowed nested : Nat} {fault : Fault} :
    nestingFault? allowed nested = some fault ↔ allowed < nested ∧ fault = .recursionTooDeep := by
  simp [nestingFault?, eq_comm]

theorem written_earlier {α : Type} (nesting : Nat) (traced : Traced α) :
    (traced.written nesting).events <+: traced.events := by
  rw [Traced.written]
  split
  · exact List.prefix_refl _
  · exact List.takeWhile_prefix _

theorem wordKeys_writable : ∀ key ∈ Source.wordKeys, key.IsWritable := by
  rintro key ⟨name, -, rfl⟩
  exact Option.isSome_of_eq_some (Text.string?_ofString name)

theorem parsed_makes (parsed : Source.parse source = .ok program) (level : Nat) (budget : Budget) :
    (run level budget program .initial).MakesIn Source.wordKeys
      fun output => ∀ value ∈ output, value.MadeIn Source.wordKeys :=
  run_makes level budget (Source.parse_within parsed)

theorem parsed_event_fault? (parsed : Source.parse source = .ok program) {budget : Budget} {event : Event}
    (inside : event ∈ (run level budget program .initial).events) (nesting : Nat) :
    event.fault? nesting = nestingFault? nesting event.nesting :=
  Event.Made.fault? wordKeys_writable ((parsed_makes parsed level budget).events event inside) nesting

/-- The message of a misuse is made of words. -/
theorem Misuse.Tells.fault? {cause : Misuse} (told : cause.Tells (Datum.NamedIn Source.wordKeys))
    (known : cause.kind ≠ "UnknownOperator") (nesting : Nat) : cause.fault? nesting = none := by
  cases cause with
  | unbound | alreadyDeclared | assignedFunction | assignedConstant =>
      exact Datum.NamedIn.fault? wordKeys_writable told nesting
  | wrongArity callee expected given =>
      rcases told with named | ⟨builtin, rfl⟩
      · exact named.fault? wordKeys_writable nesting
      · rfl
  | repeatedParameter parameter function =>
      rw [Misuse.fault?, told.1.fault? wordKeys_writable, told.2.fault? wordKeys_writable]
      rfl
  | unknownUnary | unknownBinary => exact absurd rfl known
  | notCallable callee => exact told.elim
  | _ => rfl

/-- Only a value that is called in vain may have no text for a message. -/
theorem raised_cases (nesting : Nat) {fault : Fault}
    (made : fault.Made (Datum.NamedIn Source.wordKeys) (DeclaredIn Source.wordKeys))
    (known : ∀ misuse, fault = .misuse misuse → misuse.kind ≠ "UnknownOperator") :
    (∃ callee, fault = .misuse (.notCallable callee) ∧ nesting < callee.nesting ∧
        fault.raised nesting = .recursionTooDeep) ∨
      (∀ callee, fault = .misuse (.notCallable callee) → callee.nesting ≤ nesting) ∧
        fault.raised nesting = fault := by
  cases fault with
  | misuse cause =>
      by_cases callee : ∃ callee, cause = .notCallable callee
      · obtain ⟨callee, rfl⟩ := callee
        have text := Value.Made.fault? wordKeys_writable made nesting
        rw [Fault.raised, Misuse.fault?, text]
        by_cases deep : nesting < callee.nesting
        · exact .inl ⟨callee, rfl, deep, by rw [nestingFault?_eq_some.mpr ⟨deep, rfl⟩]; rfl⟩
        · refine .inr ⟨?_, by rw [nestingFault?_eq_none.mpr (Nat.le_of_not_lt deep)]; rfl⟩
          rintro _ ⟨⟩
          exact Nat.le_of_not_lt deep
      · have told : cause.Tells (Datum.NamedIn Source.wordKeys) := by
          cases cause with
          | notCallable value => exact absurd ⟨value, rfl⟩ callee
          | _ => exact made
        refine .inr ⟨fun value same => absurd ⟨value, Fault.misuse.inj same⟩ callee, ?_⟩
        rw [Fault.raised, Misuse.Tells.fault? told (known cause rfl) nesting]
        rfl
  | _ => exact .inr ⟨nofun, rfl⟩

/-- Beside an overflow the result is the run's own. -/
theorem written_parsed (parsed : Source.parse source = .ok program) (limits : Limits) (level : Nat) :
    (Overflows limits level program ∧
        (writtenRun limits level program .initial).result = .error .recursionTooDeep) ∨
      ¬Overflows limits level program ∧
        (writtenRun limits level program .initial).result =
          (run level limits.toBudget program .initial).result := by
  have told := @parsed_event_fault? _ _ level parsed limits.toBudget
  have made := (parsed_makes parsed level limits.toBudget).fault
  rcases written_cases limits.nesting (run level limits.toBudget program .initial) with
    whole | ⟨before, event, after, fault, split, each, faulty⟩
  · have shallow : ¬∃ event ∈ (run level limits.toBudget program .initial).events,
        limits.nesting < event.nesting := by
      rintro ⟨event, inside, deep⟩
      have fits := nestingFault?_eq_none.mp ((told inside limits.nesting).symm.trans (whole event inside))
      exact absurd deep (Nat.not_lt_of_le fits)
    rw [writtenRun, written_of_writable whole]
    cases ended : (run level limits.toBudget program .initial).result with
    | ok output =>
        refine .inr ⟨?_, rfl⟩
        rintro (deep | told | ⟨callee, failed, -⟩)
        · cases ended.symm.trans deep
        · exact shallow told
        · cases ended.symm.trans failed
    | error fault =>
        have known (misuse : Misuse) (same : fault = .misuse misuse) : misuse.kind ≠ "UnknownOperator" :=
          parsed_kind parsed (same ▸ ended)
        rcases raised_cases limits.nesting (made fault ended) known with
          ⟨callee, rfl, deep, raised⟩ | ⟨fits, raised⟩
        · exact .inl ⟨.inr (.inr ⟨callee, ended, deep⟩), congrArg Except.error raised⟩
        · by_cases spent : fault = .recursionTooDeep
          · subst spent
            exact .inl ⟨.inl ended, rfl⟩
          · refine .inr ⟨?_, congrArg Except.error raised⟩
            rintro (deep | told | ⟨callee, failed, deep⟩)
            · exact spent (Except.error.inj (ended.symm.trans deep))
            · exact shallow told
            · exact absurd deep (Nat.not_lt_of_le (fits callee (Except.error.inj (ended.symm.trans failed))))
  · have inside : event ∈ (run level limits.toBudget program .initial).events :=
      split ▸ List.mem_append_right _ List.mem_cons_self
    obtain ⟨deep, rfl⟩ := nestingFault?_eq_some.mp ((told inside limits.nesting).symm.trans faulty)
    refine .inl ⟨.inr (.inl ⟨event, inside, deep⟩), ?_⟩
    rw [writtenRun, written_of_split split each faulty]

theorem exists_bound {α : Type} (items : List α) (measure : α → Nat) :
    ∃ bound, ∀ item ∈ items, measure item ≤ bound :=
  ⟨(items.map measure).sum, fun _ inside => List.le_sum_of_mem (List.mem_map_of_mem inside)⟩

/-- From some budget on the run is one and the same, so one bound is enough for all that it tells. -/
theorem Runs.settled {outcome : Outcome (List Value)} (runs : Runs program .initial outcome) (level : Nat) :
    ∃ least : Limits, ∀ limits, least ≤ limits → limits.Suffice level program outcome := by
  obtain ⟨least, ended⟩ := (run_settles level runs).exists
  obtain ⟨told, tells⟩ := exists_bound (run level least program .initial).events Event.nesting
  obtain ⟨last, ends⟩ := exists_bound outcome.values Value.nesting
  refine ⟨⟨least, max told last⟩, fun limits large => ?_⟩
  have same : run level limits.toBudget program .initial = run level least program .initial :=
    run_stable large.1 ended fun fault failed excused =>
      not_exhausted_of_result failed (exhausted_of_excuses excused)
  have shallow (value : Value) (inside : value ∈ outcome.values) : value.nesting ≤ limits.nesting :=
    (ends value inside).trans ((Nat.le_max_right told last).trans large.2)
  refine ⟨same ▸ ended, ?_, shallow⟩
  rw [Overflows, same, ended]
  rintro (deep | ⟨event, inside, deep⟩ | ⟨callee, failed, deep⟩)
  · exact not_exhausted_of_result deep trivial
  · have within := (tells event inside).trans ((Nat.le_max_left told last).trans large.2)
    exact absurd deep (Nat.not_lt_of_le within)
  · cases outcome with
    | ok output => cases failed
    | error misuse =>
        obtain rfl := Fault.misuse.inj (Except.error.inj failed)
        exact absurd deep (Nat.not_lt_of_le (shallow callee (List.mem_singleton_self callee)))

theorem parsed_tends (parsed : Source.parse source = .ok program) (level : Nat) : Tends level program := by
  have realises := parsed_realises parsed level
  by_cases derived : ∃ outcome, Runs program .initial outcome
  · obtain ⟨outcome, runs⟩ := derived
    exact .ends runs (runs.settled level)
  · have endless := realises.endless.mpr fun outcome runs => derived ⟨outcome, runs⟩
    rcases endless_iff.mp endless with deeper | longer
    · refine .recurses deeper fun depth nesting => ?_
      obtain ⟨least, spent⟩ := deeper.eventually depth
      exact ⟨least, fun turns enough => .inl (spent turns enough)⟩
    · exact .loops longer longer.eventually

end

end Bella
