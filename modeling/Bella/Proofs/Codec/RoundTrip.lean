import Bella.Material
import Bella.Proofs.Codec.Schema
import Mathlib.Data.List.Nodup

/-! Stored trees are read back. A class has its fields under different names, so each is found again
where it was put, and its content is read as what it was. Main statement: every tree is read from what
it is stored as. -/

namespace Bella.Node

theorem fields_distinct {name : String} {fields : List Field} (row : (name, fields) ∈ classes) :
    ("type" :: fields.map Field.name).Nodup := by
  have each : ∀ row ∈ classes, ("type" :: row.2.map Field.name).Nodup := by decide
  exact each _ row

section

variable {fields : List Field} {contents : List Content} {field : Field} {content : Content}
  {rest : List (Text × Datum)}

theorem member?_cons (name other : String) (value : Datum) :
    Datum.member? ((Text.ofString name, value) :: rest) other =
      if name = other then some value else Datum.member? rest other := by
  rw [Datum.member?, List.find?_cons]
  by_cases same : name = other
  · simp [same]
  · have differs : (Text.ofString name == Text.ofString other) = false :=
      beq_eq_false_iff_ne.mpr fun equal => same (Text.ofString_injective _ _ equal)
    simp only [differs, if_neg same]
    rfl

theorem member?_stored (distinct : (fields.map Field.name).Nodup)
    (paired : (field, content) ∈ fields.zip contents) :
    Datum.member? (storedMembers fields contents) field.name = some content.encoded := by
  induction fields generalizing contents with
  | nil => simp at paired
  | cons first others ih =>
      cases contents with
      | nil => simp at paired
      | cons firstContent later =>
          rw [storedMembers, List.zipWith_cons_cons, member?_cons]
          rw [List.map_cons, List.nodup_cons] at distinct
          rw [List.zip_cons_cons, List.mem_cons] at paired
          rcases paired with same | paired
          · obtain ⟨rfl, rfl⟩ := Prod.mk.inj same
            rw [if_pos rfl]
          · have listed : field.name ∈ others.map Field.name :=
              List.mem_map_of_mem (List.of_mem_zip paired).1
            have other : first.name ≠ field.name := fun same => distinct.1 (same ▸ listed)
            rw [if_neg other]
            exact ih distinct.2 paired

end

theorem decode_of_contents (node : Node)
    (each : ∀ content ∈ node.contents, content.use.decode content.encoded = .ok content) :
    decode node.encode = .ok node := by
  obtain ⟨name, -, row⟩ := fields?_cases (fields?_className node)
  have distinct := List.nodup_cons.mp (fields_distinct row)
  have typed : typeOf (("type", .text node.className) :: storedMembers node.fields node.contents) =
      .text node.className := by
    rw [typeOf, member?_cons, if_pos rfl]
    rfl
  have read : node.fields.mapM (Field.decode
      (("type", .text node.className) :: storedMembers node.fields node.contents)) =
      .ok node.contents := by
    obtain ⟨length, fit⟩ := List.forall₂_iff_zip.mp (contents_fit node)
    rw [mapM_ok_iff, List.forall₂_iff_zip]
    refine ⟨length, fun {field content} paired => ?_⟩
    have members := List.of_mem_zip paired
    have other : "type" ≠ field.name :=
      fun same => distinct.1 (same ▸ List.mem_map_of_mem members.1)
    rw [Field.decode, member?_cons, if_neg other, member?_stored distinct.2 paired]
    exact fit paired ▸ each content members.2
  have known := decode_known (typed.symm ▸ fields?_className node)
  rw [read, ← encoded, ← encode_eq] at known
  obtain ⟨other, taken, type, same⟩ := known
  rw [typed] at type
  have sameClass : node.className = other.className :=
    Text.ofString_injective _ _ (Datum.text.inj type)
  rw [taken, eq_of_contents sameClass same.symm]

section

variable {node child : Node} {children : List Node}

theorem sizeOf_node_lt (inside : Content.node child ∈ node.contents) : sizeOf child < sizeOf node := by
  cases node <;> simp only [contents, List.mem_cons, List.not_mem_nil, or_false] at inside
  all_goals grind

theorem sizeOf_nodes_lt (inside : Content.nodes children ∈ node.contents) :
    sizeOf children < sizeOf node := by
  cases node <;> simp only [contents, List.mem_cons, List.not_mem_nil, or_false] at inside
  all_goals grind

end

mutual

theorem decode_encode (node : Node) : decode node.encode = .ok node :=
  decode_of_contents node fun content inside => by
    cases content with
    | datum value => rfl
    | truth value => rfl
    | node child =>
        have smaller := sizeOf_node_lt inside
        exact congrArg (Except.map Content.node) (decode_encode child)
    | nodes children =>
        have smaller := sizeOf_nodes_lt inside
        exact congrArg (Except.map Content.nodes) (decodeAll_encodeAll children)
termination_by sizeOf node

theorem decodeAll_encodeAll (nodes : List Node) : decodeAll (encodeAll nodes) = .ok nodes := by
  cases nodes with
  | nil => rfl
  | cons node rest =>
      rw [encodeAll, decodeAll, decode_encode node, decodeAll_encodeAll rest]
      rfl
termination_by sizeOf nodes

end

end Bella.Node

namespace Bella

open Node

/-- Every tree is read from what it is stored as, so no two trees are stored alike. What a source or a
stored tree is read as is read once more from its stored form, and runs as before. -/
theorem encode_faithful :
    (∀ node : Node, decode node.encode = .ok node) ∧
    Function.Injective encode ∧
    (∀ source : String, ((Material.source source).program >>= fun program =>
      (Material.stored program.encode).program) = (Material.source source).program) ∧
    (∀ stored : Datum, ((Material.stored stored).program >>= fun program =>
      (Material.stored program.encode).program) = (Material.stored stored).program) ∧
    ∀ (node : Node) (level : Nat) (budget : Budget) (scope : Scope),
      ((decode node.encode).map fun program => run level budget program scope) =
        .ok (run level budget node scope) := by
  have again (read : Except Failure Node) :
      (read >>= fun program => (Material.stored program.encode).program) = read := by
    cases read with
    | error failure => rfl
    | ok program => exact congrArg (Except.mapError Failure.notDecoded) (decode_encode program)
  refine ⟨decode_encode, ?_, fun source => again _, fun stored => again _, ?_⟩
  · intro one other same
    have read : (Except.ok one : Except DecodeError Node) = .ok other := by
      rw [← decode_encode one, ← decode_encode other, same]
    exact Except.ok.inj read
  · intro node level budget scope
    rw [decode_encode]
    rfl

end Bella
