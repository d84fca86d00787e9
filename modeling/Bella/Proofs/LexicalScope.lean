import Bella.Proofs.Correspondence

/-! Lexical scope. The language evaluates the body of a function in the scope of the call. Main
statement: a program in whose function bodies no name is a parameter of another function runs just as
if each body were evaluated in the scope of the statement, extended by its own parameters only. -/

namespace Bella

open Traced

/-- Application in a language where a body sees, apart from its own parameters, only `base`. -/
def applyLexically (level : Nat) (base : Scope) : (depth : Nat) → Application
  | depth, .function name parameters body, arguments, _ => do
      .ofExcept (checkArity name parameters.length arguments.length)
      .note level (.called name arguments)
      let bindings ← Traced.ofExcept (bindParameters parameters arguments)
      match depth with
      | 0 => .fail .recursionTooDeep
      | depth + 1 => evaluate (applyLexically level base depth) (base.extend bindings) body
  | depth, other, arguments, scope => applyFunction level depth other arguments scope

/-- Every expression of a statement starts from the scope that the statement is executed in. -/
def runLexically (level : Nat) (budget : Budget) (program : Node) (scope : Scope) :
    Traced (List Value) :=
  runBy level budget.turns
    (fun base node => evaluate (applyLexically level base budget.depth) base node) program scope

def Value.parameterKeys : Value → List Key
  | .function _ parameters _ => parameters.filterMap Datum.key?
  | _ => []

def Value.bodyNames : Value → List Key
  | .function _ _ body => body.names
  | _ => []

section

variable (program : Node)

def Declares (name : Datum) (parameters : List Datum) (body : Node) : Prop :=
  .function name parameters body ∈ program.functions

def IsParameter (key : Key) : Prop :=
  ∃ function ∈ program.functions, key ∈ function.parameterKeys

/-- Apart from a function's own parameters no name in its body is a parameter. -/
def CollisionFree : Prop :=
  ∀ function ∈ program.functions, ∀ key ∈ function.bodyNames, key ∉ function.parameterKeys →
    ∀ other ∈ program.functions, key ∉ other.parameterKeys

instance : Decidable (CollisionFree program) :=
  inferInstanceAs (Decidable (∀ function ∈ program.functions, ∀ key ∈ function.bodyNames,
    key ∉ function.parameterKeys → ∀ other ∈ program.functions, key ∉ other.parameterKeys))

end

section

variable {program : Node}

def Outside (program : Node) (base frame : Scope) : Prop :=
  ∀ key, ¬IsParameter program key → frame.find? key = base.find? key

theorem Outside.extend {base frame : Scope} (outside : Outside program base frame)
    {bindings : List (Key × Value)}
    (parameters : ∀ key ∈ bindings.map (·.1), IsParameter program key) :
    Outside program base (frame.extend bindings) := by
  intro key foreign
  have absent : key ∉ bindings.map (·.1) := fun own => foreign (parameters key own)
  rw [Scope.find?_extend_absent frame absent, outside key foreign]

theorem Outside.found {base frame : Scope} (outside : Outside program base frame)
    {bindings : List (Key × Value)} {key : Key}
    (foreign : key ∉ bindings.map (·.1) → ¬IsParameter program key) :
    (frame.extend bindings).find? key = (base.extend bindings).find? key := by
  by_cases own : key ∈ bindings.map (·.1)
  · exact Scope.find?_extend_bound frame base own
  · rw [Scope.find?_extend_absent frame own, Scope.find?_extend_absent base own,
      outside key (foreign own)]

/-- The frames of the calls so far bind parameters only, so they hide nothing that a body looks for
outside its own. -/
theorem applyLexically_alike (free : CollisionFree program) (level depth : Nat)
    {base frame : Scope} (outside : Outside program base frame)
    (every : frame.EveryAt Set.univ (Declares program)) {function : Value}
    {arguments : List Value} (admitted : function.Every (Declares program))
    (each : ∀ argument ∈ arguments, argument.Every (Declares program)) (scope : Scope) :
    (applyFunction level depth function arguments frame).Alike
      (applyLexically level base depth function arguments scope)
      (SameEvery (Declares program)) := by
  induction depth using Nat.strongRecOn generalizing frame function arguments scope with
  | ind depth ih =>
      cases admitted with
      | @function name parameters body declared =>
          simp only [applyLexically, applyFunction]
          refine alike_ofExcept fun _ checked => alike_same fun _ _ => ?_
          refine alike_ofExcept fun bindings bound => ?_
          cases depth with
          | zero => exact alike_fail _
          | succ depth =>
              obtain ⟨own, given⟩ := bindParameters_ok (checkArity_length checked) bound
              have keys : bindings.map (·.1) =
                  (Value.function name parameters body).parameterKeys := own
              have inner : (frame.extend bindings).EveryAt Set.univ (Declares program) :=
                extend_every every fun binding member => each _ (given binding member)
              have beyond : Outside program base (frame.extend bindings) :=
                outside.extend fun key member => ⟨_, declared, keys ▸ member⟩
              have found (key : Key) (member : key ∈ body.names) :
                  (frame.extend bindings).find? key = (base.extend bindings).find? key := by
                refine outside.found fun foreign parameter => ?_
                obtain ⟨other, listed, bindsKey⟩ := parameter
                exact free _ declared key member (keys ▸ foreign) other listed bindsKey
              exact evaluate_alike found (fun key _ => inner key trivial)
                (fun _ _ callee values =>
                  ih depth (Nat.lt_succ_self depth) beyond inner callee values _)
                body fun _ member => member
      | builtin | number | boolean | array | foreign =>
          rw [applyLexically]
          · exact applyFunction_scopeless level depth (by simp) arguments frame scope
          · simp

theorem lexical_correspondence (free : CollisionFree program) (level : Nat) (budget : Budget) :
    Correspondence (evaluateIn level budget)
      (fun base node => evaluate (applyLexically level base budget.depth) base node) Set.univ
      (Value.Every (Declares program))
      fun one other => one = other ∧ one.EveryAt Set.univ (Declares program) where
  evaluate := by
    rintro scope _ node ⟨rfl, every⟩ within
    exact evaluate_alike (fun _ _ => rfl) every
      (fun _ _ callee given =>
        applyLexically_alike free level budget.depth (fun _ _ => rfl) every callee given scope)
      node within
  found := by
    rintro _ _ _ ⟨rfl, -⟩ -
    rfl
  constants := by
    rintro _ _ _ ⟨rfl, -⟩ -
    rfl
  bind := by
    rintro _ _ _ _ ⟨rfl, every⟩ - - fit
    exact ⟨rfl, bind_every every fit⟩

theorem functions_declared (program : Node) :
    ∀ value ∈ program.functions, value.Every (Declares program) := by
  intro value member
  obtain ⟨id, parameters, body, rfl, -⟩ := mem_functions program value member
  exact .function member

end

/-- A program without collisions has the same end under both kinds of scope. -/
theorem run_lexical (level : Nat) (budget : Budget) {program : Node}
    (free : CollisionFree program) :
    (run level budget program .initial).result =
      (runLexically level budget program .initial).result := by
  rw [← alike_eq_iff]
  unfold run runLexically runBy
  cases program with
  | program block =>
      cases block with
      | block statements =>
          have initially : StatesAlike
              (fun one other => one = other ∧
                one.EveryAt Set.univ (Declares (.program (.block statements))))
              [] [] ⟨.initial, []⟩ ⟨.initial, []⟩ :=
            ⟨⟨rfl, initial_every _ _⟩, [], rfl, rfl⟩
          have declared := functions_declared (.program (.block statements))
          refine alike_same fun _ _ => ?_
          refine alike_bind (executeAllBy_alike (lexical_correspondence free level budget) statements
            (fun _ _ => trivial) declared _ _ initially) fun final other alike => ?_
          obtain ⟨_, printed, one, two⟩ := alike
          rw [one.trans two.symm]
          exact alike_same fun _ _ => alike_pure rfl
      | _ => exact alike_fail _
  | _ => exact alike_fail _

def recursiveProgram : Node :=
  let call (callee : String) (arguments : List Node) : Node :=
    .call (.identifier (.text callee)) arguments
  let n : Node := .identifier (.text "n")
  let other : Node := .unaryExpression (.text "!") n
  .program (.block [
    .functionDeclaration (.identifier (.text "even")) [n]
      (.conditionalExpression n (.booleanLiteral true) (call "odd" [other])),
    .functionDeclaration (.identifier (.text "odd")) [n]
      (.conditionalExpression n (.booleanLiteral false) (call "even" [other])),
    .functionDeclaration (.identifier (.text "apply")) [.identifier (.text "h"), n]
      (call "h" [n]),
    .printStatement (call "apply" [.identifier (.text "even"), .booleanLiteral false])])

theorem run_lexical_recursive :
    CollisionFree recursiveProgram ∧
      (run 3 ⟨5, 1⟩ recursiveProgram .initial).result =
        (runLexically 3 ⟨5, 1⟩ recursiveProgram .initial).result := by
  have free : CollisionFree recursiveProgram := by decide +kernel
  exact ⟨free, run_lexical 3 ⟨5, 1⟩ free⟩

end Bella
