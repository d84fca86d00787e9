import Bella.Material
import Bella.Trace.Recorder
import Bella.Writing

/-! Sessions: one recorder and one current scope, used step by step. A step that fails keeps the
scope of the statements that succeeded before. -/

namespace Bella

/-- What a step asks for. A run has a scope of its own, which is dropped afterwards: the initial
one, or a copy of the current one. -/
inductive Request where
  | run (program : Material)
  | runHere (program : Material)
  | execute (statements : Material)
  | evaluate (expression : Material)
  | call (name : Datum) (arguments : List Value)

inductive Reply where
  | done
  | output (values : List Value)
  | value (value : Value)

structure Session where
  recorder : Recorder
  scope : Scope

structure Answer where
  result : Except Failure Reply
  printed : List Text

namespace Session

def new (level : Nat) : Session :=
  ⟨.new level, .initial⟩

def executeEach (limits : Limits) (session : Session) (printed : List Text) :
    List Node → Session × Answer
  | [] => (session, ⟨.ok .done, printed⟩)
  | statement :: rest =>
      let (recorder, result) :=
        session.recorder.use
          ((execute session.recorder.level limits.toBudget statement ⟨session.scope, []⟩).written
            limits.nesting)
      match result with
      | .ok state =>
          executeEach limits ⟨recorder, state.scope⟩ (printed ++ Value.texts state.output) rest
      | .error fault =>
          ({ session with recorder := recorder }, ⟨.error (.faulted fault), printed⟩)

def answered {α : Type} (session : Session) (used : Recorder × Except Fault α)
    (reply : α → Reply) : Session × Answer :=
  ({ session with recorder := used.1 }, ⟨(used.2.map reply).mapError .faulted, []⟩)

def withMaterial {α : Type} (session : Session) (read : Except Failure α)
    (next : α → Session × Answer) : Session × Answer :=
  match read with
  | .ok value => next value
  | .error failure => (session, ⟨.error failure, []⟩)

def runFrom (limits : Limits) (session : Session) (program : Material) (scope : Scope) :
    Session × Answer :=
  session.withMaterial program.program fun node =>
    session.answered
      (session.recorder.useForRun (writtenRun limits session.recorder.level node scope)) .output

def step (limits : Limits) (session : Session) : Request → Session × Answer
  | .run program => runFrom limits session program .initial
  | .runHere program => runFrom limits session program session.scope
  | .execute statements =>
      session.withMaterial statements.statements (executeEach limits session [])
  | .evaluate expression =>
      session.withMaterial expression.expression fun node =>
        session.answered
          (session.recorder.use
            ((evaluateIn session.recorder.level limits.toBudget session.scope node).written
              limits.nesting))
          .value
  | .call name arguments =>
      session.withMaterial ((session.scope.get name).mapError .faulted) fun function =>
        session.answered
          (session.recorder.use
            ((applyFunction session.recorder.level limits.depth function arguments
              session.scope).written limits.nesting))
          .value

def bindings (session : Session) : List (Key × Text) :=
  let builtinKeys := Scope.builtinBindings.map fun binding => Key.text binding.1
  (session.scope.bindings.filter fun binding => !builtinKeys.contains binding.1).map
    fun binding => (binding.1, binding.2.text)

end Session

end Bella
