import Bella.Proofs.Grammar.SourceTree
import Bella.Proofs.StraightLine
import Bella.Proofs.Trace.Levels

/-! The statements and names of source text. Main statements: each statement, whatever block it stands in,
is again one of source text, so what it declares has a word for a name; all names are words. -/

namespace Bella.Source

theorem IsWord.characters {name : String} (word : IsWord name) :
    ∀ character ∈ name.toList, isNameCharacter character = true := by
  obtain ⟨first, others, spelled, start, rest⟩ := word
  rw [spelled]
  refine List.forall_mem_cons.mpr ⟨?_, rest⟩
  simp only [isNameStart, isNameCharacter, Char.isAlphanum, Bool.or_eq_true] at start ⊢
  exact start.imp_left .inl

theorem forall_simpleStatementsOfAll {holds : Node → Prop} {statements : List Node} :
    (∀ simple ∈ simpleStatementsOfAll statements, holds simple) ↔
      ∀ statement ∈ statements, ∀ simple ∈ statement.simpleStatements, holds simple := by
  induction statements with
  | nil => simp [simpleStatementsOfAll]
  | cons statement rest ih =>
      rw [simpleStatementsOfAll, List.forall_mem_append, List.forall_mem_cons, ih]

theorem forall_functionsOfAll {holds : Value → Prop} {statements : List Node} :
    (∀ function ∈ functionsOfAll statements, holds function) ↔
      ∀ statement ∈ statements, ∀ function ∈ statement.functions, holds function := by
  induction statements with
  | nil => simp [functionsOfAll]
  | cons statement rest ih =>
      rw [functionsOfAll, List.forall_mem_append, List.forall_mem_cons, ih]

theorem IsSourceStatement.simple {statement : Node} (source : IsSourceStatement statement) :
    ∀ simple ∈ statement.simpleStatements, IsSourceStatement simple := by
  induction source with
  | variableDeclaration word initial =>
      exact List.forall_mem_singleton.mpr (.variableDeclaration word initial)
  | functionDeclaration word words result =>
      exact List.forall_mem_singleton.mpr (.functionDeclaration word words result)
  | assignment named assigned => exact List.forall_mem_singleton.mpr (.assignment named assigned)
  | printStatement printed => exact List.forall_mem_singleton.mpr (.printStatement printed)
  | whileStatement tested each ih => exact forall_simpleStatementsOfAll.mpr ih

theorem IsSourceStatement.textParameters {statement : Node} (source : IsSourceStatement statement) :
    ∀ function ∈ statement.functions, function.HasTextParameters := by
  induction source with
  | @functionDeclaration name parameters body word words result =>
      refine List.forall_mem_singleton.mpr fun parameter inside => ?_
      obtain ⟨node, written, named⟩ := List.mem_filterMap.mp inside
      obtain ⟨parameter, -, rfl⟩ := List.mem_map.mp written
      exact ⟨parameter, (Option.some.inj named).symm⟩
  | whileStatement tested each ih => exact forall_functionsOfAll.mpr ih
  | variableDeclaration | assignment | printStatement => exact List.forall_mem_nil _

def wordKeys : Set Key :=
  {key | ∃ name : String, IsWord name ∧ key = .text name}

theorem IsWord.within {name : String} (word : IsWord name) :
    (Node.identifier (.text name)).Within wordKeys := by
  intro key inside
  obtain rfl := List.mem_singleton.mp inside
  exact ⟨name, word, rfl⟩

theorem within_append {first second : List Key} (one : ∀ key ∈ first, key ∈ wordKeys)
    (other : ∀ key ∈ second, key ∈ wordKeys) : ∀ key ∈ first ++ second, key ∈ wordKeys :=
  List.forall_mem_append.mpr ⟨one, other⟩

theorem within_all {nodes : List Node} (each : ∀ node ∈ nodes, node.Within wordKeys) :
    ∀ key ∈ namesOfAll nodes, key ∈ wordKeys := by
  intro key inside
  obtain ⟨node, among, named⟩ := mem_namesOfAll.mp inside
  exact each node among key named

theorem IsSourceExpression.within {expression : Node} (source : IsSourceExpression expression) :
    expression.Within wordKeys := by
  induction source with
  | numeral | booleanLiteral => exact List.forall_mem_nil _
  | identifier named => exact named.1.within
  | unaryExpression _ _ inner => exact inner
  | binaryExpression _ _ _ first second | subscriptExpression _ _ first second =>
      exact within_append first second
  | conditionalExpression _ _ _ tested positive negative =>
      exact within_append (within_append tested positive) negative
  | arrayLiteral _ each => exact within_all each
  | call named _ each => exact within_append named.1.within (within_all each)

theorem IsSourceStatement.within {statement : Node} (source : IsSourceStatement statement) :
    statement.Within wordKeys := by
  induction source with
  | variableDeclaration word initial => exact within_append word.within initial.within
  | functionDeclaration word words result =>
      refine within_append (within_append word.within (within_all ?_)) result.within
      exact List.forall_mem_map.mpr fun parameter inside => (words parameter inside).within
  | assignment named assigned => exact within_append named.1.within assigned.within
  | printStatement printed => exact printed.within
  | whileStatement tested _ each => exact within_append tested.within (within_all each)

theorem parse_within {source : String} {program : Node} (parsed : parse source = .ok program) :
    program.Within wordKeys := by
  obtain ⟨-, each⟩ := parse_isSourceProgram parsed
  exact within_all fun statement inside => (each statement inside).within

end Bella.Source
