import Bella.Evaluation

/-! Execution of statements. A statement takes a scope and the output so far and returns both
anew. The body of a loop has no scope of its own: what it declares stays declared. -/

namespace Bella

structure Budget where
  depth : Nat
  turns : Nat

/-- The budget that programs are run with. It does not suffice for those that nest more calls than it
allows, or have a longer loop. -/
def Budget.ample : Budget := ⟨1000, Nat.pow 10 15⟩

structure State where
  scope : Scope
  output : List Value

def nameOf (node : Node) : Except Fault Datum :=
  match node.name? with
  | some name => .ok name
  | none => .error .missingPart

def parameterNames (function : Datum) :
    (seen : List Key) → List Node → Except Fault (List Datum)
  | _, [] => .ok []
  | seen, parameter :: rest => do
      let name ← nameOf parameter
      let key ← Scope.keyOf name
      if seen.contains key then throw (.misuse (.repeatedParameter name function))
      let names ← parameterNames function (key :: seen) rest
      return name :: names

def parameterTexts : List Datum → Except Fault (List Text)
  | [] => .ok []
  | .text name :: rest => (parameterTexts rest).map (name :: ·)
  | _ :: _ => .error .untraceableName

def noteDefinition (level : Nat) (name : Datum) (parameters : List Datum) : Traced Unit :=
  if level < 2 then pure ()
  else do
    let texts ← Traced.ofExcept (parameterTexts parameters)
    .note level (.defined name texts)

abbrev Evaluator := Scope → Node → Traced Value

def loopTurn (level : Nat) (evaluator : Evaluator) (test : Node) (body : State → Traced State)
    (current : State) : Traced (State × Bool) := do
  let value ← evaluator current.scope test
  .note level (.guarded value)
  match value with
  | .boolean true =>
      let next ← body current
      return (next, true)
  | _ => return (current, false)

section

variable (level turns : Nat) (evaluator : Evaluator)

mutual

def executeBy : Node → State → Traced State
  | .variableDeclaration id initializer, state => do
      let name ← Traced.ofExcept (nameOf id)
      .ofExcept (state.scope.mayDeclare name)
      let value ← evaluator state.scope initializer
      .note level (.declared name value)
      let scope ← Traced.ofExcept (state.scope.declare name value)
      return { state with scope := scope }
  | .functionDeclaration id parameters body, state => do
      let name ← Traced.ofExcept (nameOf id)
      .ofExcept (state.scope.mayDeclare name)
      let names ← Traced.ofExcept (parameterNames name [] parameters)
      noteDefinition level name names
      let scope ← Traced.ofExcept (state.scope.declare name (.function name names body))
      return { state with scope := scope }
  | .assignment target source, state => do
      let name ← Traced.ofExcept (nameOf target)
      .ofExcept (state.scope.mayAssign name)
      let value ← evaluator state.scope source
      .note level (.assigned name value)
      let scope ← Traced.ofExcept (state.scope.assign name value)
      return { state with scope := scope }
  | .printStatement expression, state => do
      let value ← evaluator state.scope expression
      .note level (.printed value)
      return { state with output := state.output ++ [value] }
  | .whileStatement test body, state =>
      .repeatWhile (loopTurn level evaluator test (executeBodyBy body)) turns state
  | .block statements, state => executeAllBy statements state
  | other, _ => .fail (.notAStatement other.className)

def executeBodyBy : Node → State → Traced State
  | .block statements, state => executeAllBy statements state
  | _, _ => .fail .missingPart

def executeAllBy : List Node → State → Traced State
  | [], state => pure state
  | statement :: rest, state => do
      let next ← executeBy statement state
      executeAllBy rest next

end

def runBy (program : Node) (scope : Scope) : Traced (List Value) :=
  match program.block?.bind (·.statements?) with
  | none => .fail .missingPart
  | some statements => do
      .note level (.started statements.length)
      let final ← executeAllBy level turns evaluator statements ⟨scope, []⟩
      .note level (.finished final.output.length)
      return final.output

end

section

variable (level : Nat) (budget : Budget)

def evaluateIn (scope : Scope) (node : Node) : Traced Value :=
  evaluate (applyFunction level budget.depth) scope node

def execute (statement : Node) (state : State) : Traced State :=
  executeBy level budget.turns (evaluateIn level budget) statement state

def executeAll (statements : List Node) (state : State) : Traced State :=
  executeAllBy level budget.turns (evaluateIn level budget) statements state

def run (program : Node) (scope : Scope) : Traced (List Value) :=
  runBy level budget.turns (evaluateIn level budget) program scope

end

end Bella
