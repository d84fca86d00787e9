import Bella.Proofs.Codec.RoundTrip
import Bella.Proofs.Document.Reading
import Bella.Proofs.Grammar.SourceTree

/-! Programs in documents. A stored node is an object of named members, and the members of source trees
are words, truth values, numbers, and nodes again. Main statement: the document of a source program holds
what the program is stored as. -/

namespace Bella.Node

open Datum Source

section

variable {fields : List Field} {contents : List Content}

theorem storedMembers_names (paired : fields.length = contents.length) :
    (storedMembers fields contents).map Prod.fst = fields.map fun field => Text.ofString field.name := by
  induction fields generalizing contents with
  | nil => simp [storedMembers]
  | cons field others ih =>
      cases contents with
      | nil => simp at paired
      | cons content rest => exact congrArg _ (ih (Nat.succ.inj paired))

theorem storedMembers_values : ∀ member ∈ storedMembers fields contents,
    ∃ content ∈ contents, member.2 = content.encoded := by
  induction fields generalizing contents with
  | nil => simp [storedMembers]
  | cons field others ih =>
      cases contents with
      | nil => simp [storedMembers]
      | cons content rest =>
          refine List.forall_mem_cons.mpr ⟨⟨content, List.mem_cons_self, rfl⟩, fun member inside => ?_⟩
          obtain ⟨found, listed, value⟩ := ih member inside
          exact ⟨found, List.mem_cons_of_mem _ listed, value⟩

end

theorem readable_of_contents {node : Node}
    (each : node.contents.Forall fun content => Readable content.encoded) : Readable node.encode := by
  obtain ⟨name, same, row⟩ := fields?_cases (fields?_className node)
  have names := storedMembers_names (contents_fit node).length_eq
  have members : ((Text.ofString "type", Datum.text node.className) ::
      storedMembers node.fields node.contents).map Prod.fst =
        ("type" :: node.fields.map Field.name).map Text.ofString := by
    rw [List.map_cons, names, List.map_cons, List.map_map]
    rfl
  rw [encode_eq]
  refine readable_object ?_ ?_ ?_
  · rw [members]
    exact (fields_distinct row).map Text.ofString_injective
  · intro member inside
    have named : member.1 ∈ _ := List.mem_map.mpr ⟨member, inside, rfl⟩
    rw [members] at named
    obtain ⟨text, -, same⟩ := List.mem_map.mp named
    exact ⟨text, same.symm⟩
  · refine List.forall_mem_cons.mpr ⟨readable_text _, fun member inside => ?_⟩
    obtain ⟨content, listed, value⟩ := storedMembers_values member inside
    rw [value]
    exact List.forall_iff_forall_mem.mp each content listed

theorem readable_nodes {nodes : List Node} (each : ∀ node ∈ nodes, Readable node.encode) :
    Readable (.list (encodeAll nodes)) := by
  refine readable_list fun item inside => ?_
  induction nodes with
  | nil => cases inside
  | cons node rest ih =>
      obtain ⟨here, later⟩ := List.forall_mem_cons.mp each
      rcases List.mem_cons.mp inside with rfl | inside
      · exact here
      · exact ih later inside

theorem readable_identifier (name : String) : Readable (encode (.identifier (.text name))) :=
  readable_of_contents (readable_text name)

theorem readable_expression {expression : Node} (source : IsSourceExpression expression) :
    Readable expression.encode := by
  induction source with
  | numeral unsigned => exact readable_of_contents (readable_real _)
  | booleanLiteral truth =>
      exact readable_of_contents (readable_boolean truth)
  | identifier named => exact readable_identifier _
  | unaryExpression listed inner operand =>
      exact readable_of_contents ⟨readable_text _, operand⟩
  | binaryExpression listed first second left right =>
      exact readable_of_contents ⟨readable_text _, left, right⟩
  | conditionalExpression tested positive negative test consequent alternate =>
      exact readable_of_contents ⟨test, consequent, alternate⟩
  | arrayLiteral each elements =>
      exact readable_of_contents (readable_nodes elements)
  | subscriptExpression first second array subscript =>
      exact readable_of_contents ⟨array, subscript⟩
  | call named each arguments =>
      exact readable_of_contents ⟨readable_identifier _, readable_nodes arguments⟩

theorem readable_statement {statement : Node} (source : IsSourceStatement statement) :
    Readable statement.encode := by
  induction source with
  | variableDeclaration word initial =>
      exact readable_of_contents ⟨readable_identifier _, readable_expression initial⟩
  | functionDeclaration word words result =>
      refine readable_of_contents
        ⟨readable_identifier _, readable_nodes fun node inside => ?_, readable_expression result⟩
      obtain ⟨parameter, -, rfl⟩ := List.mem_map.mp inside
      exact readable_identifier parameter
  | assignment named assigned =>
      exact readable_of_contents ⟨readable_identifier _, readable_expression assigned⟩
  | printStatement printed =>
      exact readable_of_contents (readable_expression printed)
  | whileStatement tested each statements =>
      exact readable_of_contents ⟨readable_expression tested,
        readable_of_contents (readable_nodes statements)⟩

theorem readable_program {program : Node} (source : IsSourceProgram program) :
    Readable program.encode := by
  cases source with
  | program filled each =>
      have statements := readable_nodes fun statement inside => readable_statement (each statement inside)
      exact readable_of_contents (readable_of_contents statements)

end Bella.Node
