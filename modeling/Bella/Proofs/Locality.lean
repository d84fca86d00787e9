import Bella.Proofs.Correspondence

/-! A statement reads and writes only the names that it can reach: those in it, and those in the
functions that the scope has under such names. Main statement: from two scopes that agree on all names
of such a set it has the same outcome, and it leaves all other names as they are. -/

namespace Bella

open Traced

def Reaches (names : Set Key) (_name : Datum) (parameters : List Datum) (body : Node) : Prop :=
  (∀ parameter ∈ parameters, ∀ key, parameter.key? = some key → key ∈ names) ∧ body.Within names

structure Scope.AgreeOn (names : Set Key) (one other : Scope) : Prop where
  found : ∀ key ∈ names, one.find? key = other.find? key
  constants : ∀ key ∈ names, key ∈ one.constants ↔ key ∈ other.constants

namespace Scope

variable {names : Set Key} {one other : Scope} {key : Key} {value : Value}

theorem AgreeOn.refl (names : Set Key) (scope : Scope) : scope.AgreeOn names scope :=
  ⟨fun _ _ => rfl, fun _ _ => Iff.rfl⟩

theorem AgreeOn.bind (agree : one.AgreeOn names other) (key : Key) (value : Value) :
    (one.bind key value).AgreeOn names (other.bind key value) := by
  refine ⟨fun looked member => ?_, agree.constants⟩
  rw [find?_bind, find?_bind, agree.found looked member]

theorem AgreeOn.bind_left (agree : one.AgreeOn names other) (outside : key ∉ names)
    (value : Value) : (one.bind key value).AgreeOn names other := by
  refine ⟨fun looked member => ?_, agree.constants⟩
  have different : key ≠ looked := fun same => outside (same ▸ member)
  rw [find?_bind, if_neg different, agree.found looked member]

theorem find?_extend_congr (same : one.find? key = other.find? key)
    (bindings : List (Key × Value)) :
    (one.extend bindings).find? key = (other.extend bindings).find? key := by
  rw [find?_extend, find?_extend other, same]

end Scope

section

variable {names : Set Key}

/-- A call binds its parameters over both scopes, so the body finds the same in both. -/
theorem applyFunction_alike (level depth : Nat) {one other : Scope}
    (found : ∀ key ∈ names, one.find? key = other.find? key)
    (every : one.EveryAt names (Reaches names)) {function : Value} {arguments : List Value}
    (admitted : function.Every (Reaches names))
    (each : ∀ argument ∈ arguments, argument.Every (Reaches names)) :
    (applyFunction level depth function arguments one).Alike
      (applyFunction level depth function arguments other) (SameEvery (Reaches names)) := by
  induction depth using Nat.strongRecOn generalizing one other function arguments with
  | ind depth ih =>
      cases admitted with
      | @function name parameters body reaches =>
          simp only [applyFunction]
          refine alike_ofExcept fun _ checked => alike_same fun _ _ => ?_
          refine alike_ofExcept fun bindings bound => ?_
          cases depth with
          | zero => exact alike_fail _
          | succ depth =>
              have given := (bindParameters_ok (checkArity_length checked) bound).2
              have inner : (one.extend bindings).EveryAt names (Reaches names) :=
                extend_every every fun binding member => each _ (given binding member)
              have same (key : Key) (member : key ∈ names) :
                  (one.extend bindings).find? key = (other.extend bindings).find? key :=
                Scope.find?_extend_congr (found key member) bindings
              exact evaluate_alike same inner
                (fun _ _ callee given => ih depth (Nat.lt_succ_self depth) same inner callee given)
                body reaches.2
      | builtin | number | boolean | array | foreign =>
          exact applyFunction_scopeless level depth (by simp) arguments one other

theorem declaration_reaches {id body : Node} {parameters : List Node}
    (within : (Node.functionDeclaration id parameters body).Within names) :
    Reaches names (id.name?.getD .null) (parameters.filterMap Node.name?) body := by
  simp only [Node.Within, Node.names, List.forall_mem_append] at within
  refine ⟨fun parameter member key named => ?_, within.2⟩
  obtain ⟨node, listed, known⟩ := List.mem_filterMap.mp member
  obtain rfl := Node.name?_eq_some known
  exact within.1.2 key (mem_namesOfAll.mpr ⟨_, listed, by simp [Node.names, named]⟩)

theorem functions_reach {statement : Node} (within : statement.Within names) :
    ∀ value ∈ statement.functions, value.Every (Reaches names) := by
  intro value member
  obtain ⟨id, parameters, body, rfl, inside⟩ := mem_functions statement value member
  exact .function (declaration_reaches fun key named => within key (inside key named))

end

/-- Scopes that agree on names, each like the one it comes from on all others. -/
structure LocalChange (names : Set Key) (start begin one other : Scope) : Prop where
  agree : one.AgreeOn names other
  every : one.EveryAt names (Reaches names)
  first : one.AgreeOn namesᶜ start
  second : other.AgreeOn namesᶜ begin

theorem localChange_correspondence (level : Nat) (budget : Budget) (names : Set Key)
    (start begin : Scope) :
    Correspondence (evaluateIn level budget) (evaluateIn level budget) names
      (Value.Every (Reaches names)) (LocalChange names start begin) where
  evaluate change within :=
    evaluate_alike change.agree.found change.every
      (fun _ _ callee given => applyFunction_alike level budget.depth change.agree.found change.every
        callee given) _ within
  found change member := change.agree.found _ member
  constants change member := change.agree.constants _ member
  bind {_ _ key value} change member _ fit :=
    ⟨change.agree.bind key value, bind_every change.every fit,
      change.first.bind_left (fun outside => outside member) value,
      change.second.bind_left (fun outside => outside member) value⟩

/-- What a statement ends with depends only on the names that it reaches, and changes no other. -/
theorem execute_local (level : Nat) (budget : Budget) {names : Set Key} {statement : Node}
    {one other : Scope} (output : List Value) (within : statement.Within names)
    (reached : one.EveryAt names (Reaches names)) (agree : one.AgreeOn names other) :
    (execute level budget statement ⟨one, output⟩).Alike
      (execute level budget statement ⟨other, output⟩) fun next following =>
        next.output = following.output ∧ next.scope.AgreeOn names following.scope ∧
          next.scope.AgreeOn namesᶜ one ∧ following.scope.AgreeOn namesᶜ other := by
  have initially : StatesAlike (LocalChange names one other) output output ⟨one, output⟩
      ⟨other, output⟩ :=
    ⟨⟨agree, reached, .refl _ one, .refl _ other⟩, [], by simp⟩
  refine alike_mono
    (executeBy_alike (localChange_correspondence level budget names one other) statement within
      (functions_reach within) _ _ initially) fun next following alike => ?_
  obtain ⟨change, printed, one, two⟩ := alike
  exact ⟨one.trans two.symm, change.agree, change.first, change.second⟩

def dependentScope : Scope :=
  (Scope.initial.bind (.text "x") (.boolean true)).bind (.text "f")
    (.function (.text "f") [.text "a"]
      (.binaryExpression (.text "&&") (.identifier (.text "x")) (.identifier (.text "a"))))

def dependentStatement : Node :=
  .assignment (.identifier (.text "x"))
    (.call (.identifier (.text "f")) [.booleanLiteral false])

def dependentNames : Set Key :=
  {key | key ∈ [Key.text "x", .text "f", .text "a"]}

theorem execute_local_dependent :
    dependentStatement.Within dependentNames ∧
      (dependentScope.bind (.text "y") (.boolean true)).EveryAt dependentNames
        (Reaches dependentNames) ∧
      (dependentScope.bind (.text "y") (.boolean true)).AgreeOn dependentNames dependentScope ∧
      (execute 0 ⟨1, 1⟩ dependentStatement
          ⟨dependentScope.bind (.text "y") (.boolean true), []⟩).Alike
        (execute 0 ⟨1, 1⟩ dependentStatement ⟨dependentScope, []⟩) fun next following =>
          next.output = following.output ∧
            next.scope.AgreeOn dependentNames following.scope ∧
            next.scope.AgreeOn dependentNamesᶜ
              (dependentScope.bind (.text "y") (.boolean true)) ∧
            following.scope.AgreeOn dependentNamesᶜ dependentScope := by
  have within : dependentStatement.Within dependentNames := by
    simp [Node.Within, dependentStatement, Node.names, namesOfAll, dependentNames, Datum.key?]
  have function : (Value.function (.text "f") [.text "a"]
      (.binaryExpression (.text "&&") (.identifier (.text "x"))
        (.identifier (.text "a")))).Every (Reaches dependentNames) := by
    refine .function ⟨?_, ?_⟩
    · simp [dependentNames, Datum.key?]
    · simp [Node.Within, Node.names, dependentNames, Datum.key?]
  have reached : (dependentScope.bind (.text "y") (.boolean true)).EveryAt dependentNames
      (Reaches dependentNames) :=
    bind_every (bind_every (bind_every (initial_every _ _) (.boolean true)) function)
      (.boolean true)
  have outside : Key.text "y" ∉ dependentNames := by
    simp only [dependentNames, Set.mem_ofPred_eq]
    decide
  have agree : (dependentScope.bind (.text "y") (.boolean true)).AgreeOn dependentNames
      dependentScope :=
    (Scope.AgreeOn.refl _ _).bind_left outside _
  exact ⟨within, reached, agree, execute_local 0 ⟨1, 1⟩ [] within reached agree⟩

end Bella
