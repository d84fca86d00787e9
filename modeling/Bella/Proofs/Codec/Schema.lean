import Bella.Proofs.Rules.Primitive
import Bella.Tree.Codec
import Mathlib.Data.List.Forall2

/-! The classes of stored trees as a table of their fields. A node is read and written field for field,
so what reading does to an object follows from what it does to the object's fields, for all classes
alike. -/

namespace Bella.Node

/-- How a class reads one of its members: as it stands, as whether it holds, as a node, or as a list of
nodes. -/
inductive Use where
  | datum
  | truth
  | node
  | nodes
deriving DecidableEq

structure Field where
  name : String
  use : Use
deriving DecidableEq

def classes : List (String × List Field) :=
  [("Program", [⟨"block", .node⟩]),
   ("Block", [⟨"statements", .nodes⟩]),
   ("VariableDeclaration", [⟨"id", .node⟩, ⟨"initializer", .node⟩]),
   ("FunctionDeclaration", [⟨"id", .node⟩, ⟨"parameters", .nodes⟩, ⟨"body", .node⟩]),
   ("Assignment", [⟨"target", .node⟩, ⟨"source", .node⟩]),
   ("PrintStatement", [⟨"expression", .node⟩]),
   ("WhileStatement", [⟨"test", .node⟩, ⟨"body", .node⟩]),
   ("Numeral", [⟨"value", .datum⟩]),
   ("BooleanLiteral", [⟨"value", .truth⟩]),
   ("Identifier", [⟨"name", .datum⟩]),
   ("UnaryExpression", [⟨"operator", .datum⟩, ⟨"expression", .node⟩]),
   ("BinaryExpression", [⟨"operator", .datum⟩, ⟨"left", .node⟩, ⟨"right", .node⟩]),
   ("ConditionalExpression", [⟨"test", .node⟩, ⟨"consequent", .node⟩, ⟨"alternate", .node⟩]),
   ("ArrayLiteral", [⟨"elements", .nodes⟩]),
   ("SubscriptExpression", [⟨"array", .node⟩, ⟨"subscript", .node⟩]),
   ("Call", [⟨"callee", .node⟩, ⟨"args", .nodes⟩])]

def fields? (type : Datum) : Option (List Field) :=
  type.string?.bind fun name => classes.lookup name

def typeOf (members : List (Text × Datum)) : Datum :=
  (Datum.member? members "type").getD .null

inductive Content where
  | datum (value : Datum)
  | truth (value : Bool)
  | node (value : Node)
  | nodes (values : List Node)

def Content.encoded : Content → Datum
  | .datum value => value
  | .truth value => .boolean value
  | .node value => value.encode
  | .nodes values => .list (encodeAll values)

def Content.use : Content → Use
  | .datum _ => .datum
  | .truth _ => .truth
  | .node _ => .node
  | .nodes _ => .nodes

def contents : Node → List Content
  | .numeral value => [.datum value]
  | .booleanLiteral value => [.truth value]
  | .identifier name => [.datum name]
  | .unaryExpression operator expression => [.datum operator, .node expression]
  | .binaryExpression operator left right => [.datum operator, .node left, .node right]
  | .conditionalExpression test consequent alternate =>
      [.node test, .node consequent, .node alternate]
  | .arrayLiteral elements => [.nodes elements]
  | .subscriptExpression array subscript => [.node array, .node subscript]
  | .call callee arguments => [.node callee, .nodes arguments]
  | .variableDeclaration id initializer => [.node id, .node initializer]
  | .functionDeclaration id parameters body => [.node id, .nodes parameters, .node body]
  | .assignment target source => [.node target, .node source]
  | .printStatement expression => [.node expression]
  | .whileStatement test body => [.node test, .node body]
  | .block statements => [.nodes statements]
  | .program body => [.node body]

def fields (node : Node) : List Field :=
  (classes.lookup node.className).getD []

def storedMembers (fields : List Field) (contents : List Content) : List (Text × Datum) :=
  List.zipWith (fun field content => (Text.ofString field.name, content.encoded)) fields contents

def Use.decode : Use → Datum → Except DecodeError Content
  | .datum, value => .ok (.datum value)
  | .truth, value => .ok (.truth value.holds)
  | .node, value => (Node.decode value).map .node
  | .nodes, value => (decodeItems value).map .nodes

def Field.decode (members : List (Text × Datum)) (field : Field) : Except DecodeError Content :=
  match Datum.member? members field.name with
  | some value => field.use.decode value
  | none => .error (.missingMember field.name)

def Field.read (parts : List Part) (field : Field) : Except DecodeError Content :=
  match field.use with
  | .datum => (datumPart parts field.name).map .datum
  | .truth => (datumPart parts field.name).map fun value => .truth value.holds
  | .node => (nodePart parts field.name).map .node
  | .nodes => (nodesPart parts field.name).map .nodes

theorem fields?_text (name : String) : fields? (.text name) = classes.lookup name := by
  rw [fields?, Datum.string?_text]
  rfl

theorem fields?_className (node : Node) : fields? (.text node.className) = some node.fields := by
  rw [fields?_text]
  cases node <;> rfl

theorem encode_eq (node : Node) :
    node.encode = encoded node.className (storedMembers node.fields node.contents) := by
  cases node <;> rfl

theorem contents_fit (node : Node) :
    List.Forall₂ (fun field content => content.use = field.use) node.fields node.contents := by
  cases node <;> repeat' constructor

theorem fields?_cases {type : Datum} {fields : List Field} (listed : fields? type = some fields) :
    ∃ name : String, type = .text name ∧ (name, fields) ∈ classes := by
  obtain ⟨name, read, found⟩ := Option.bind_eq_some_iff.mp listed
  obtain ⟨before, after, split, -⟩ := List.lookup_eq_some_iff.mp found
  exact ⟨name, Datum.string?_eq_some read, split ▸ by simp⟩

theorem fields?_of_mem {name : String} {fields : List Field} (row : (name, fields) ∈ classes) :
    fields? (.text name) = some fields := by
  have each : ∀ row ∈ classes, classes.lookup row.1 = some row.2 := by decide
  rw [fields?_text]
  exact each _ row

section

variable {type : Datum} {parts : List Part} {members : List (Text × Datum)} {fields : List Field}
  {error : DecodeError}

theorem assemble_unknown (foreign : fields? type = none) :
    assemble type parts = .error (.unknownClass type) := by
  have listed {name : String} {found : List Field} (read : type.string? = some name)
      (row : classes.lookup name = some found) : False := by
    obtain rfl := Datum.string?_eq_some read
    rw [fields?_text, row] at foreign
    cases foreign
  unfold assemble
  split
  all_goals first | rfl | exact (listed ‹_› rfl).elim

/-- What the fields of a class are read as after earlier ones, and the node that is made of them all: of
the class and with these contents, or the same error. -/
def Assembles (type : Datum) (earlier : List Content) (read : Except DecodeError (List Content))
    (made : Except DecodeError Node) : Prop :=
  match read with
  | .ok contents => ∃ node, made = .ok node ∧ type = .text node.className ∧
      node.contents = earlier ++ contents
  | .error error => made = .error error

theorem Assembles.whole {earlier : List Content} {node : Node} (named : type = .text node.className)
    (complete : node.contents = earlier) : Assembles type earlier (pure []) (pure node) :=
  ⟨node, rfl, named, by rw [complete, List.append_nil]⟩

theorem Assembles.part {α : Type} {earlier : List Content} {part : Except DecodeError α}
    {content : α → Content} {rest : Except DecodeError (List Content)}
    {next : α → Except DecodeError Node}
    (later : ∀ value, Assembles type (earlier ++ [content value]) rest (next value)) :
    Assembles type earlier
      (part.map content >>= fun first => rest >>= fun others => pure (first :: others))
      (part >>= next) := by
  cases part with
  | error error => rfl
  | ok value =>
      have onward := later value
      cases rest with
      | error error => exact onward
      | ok contents =>
          obtain ⟨node, made, named, complete⟩ := onward
          exact ⟨node, made, named, by rw [complete, List.append_assoc, List.singleton_append]⟩

/-- A class takes its node from what its fields are read as, or fails where the first of them does. -/
theorem assemble_known (listed : fields? type = some fields) :
    match fields.mapM (Field.read parts) with
    | .ok contents => ∃ node, assemble type parts = .ok node ∧ type = .text node.className ∧
        node.contents = contents
    | .error error => assemble type parts = .error error := by
  change Assembles type [] (fields.mapM (Field.read parts)) (assemble type parts)
  obtain ⟨name, rfl, row⟩ := fields?_cases listed
  simp only [classes, List.mem_cons, Prod.mk.injEq, List.not_mem_nil, or_false] at row
  rcases row with ⟨rfl, rfl⟩ | ⟨rfl, rfl⟩ | ⟨rfl, rfl⟩ | ⟨rfl, rfl⟩ | ⟨rfl, rfl⟩ | ⟨rfl, rfl⟩ |
    ⟨rfl, rfl⟩ | ⟨rfl, rfl⟩ | ⟨rfl, rfl⟩ | ⟨rfl, rfl⟩ | ⟨rfl, rfl⟩ | ⟨rfl, rfl⟩ | ⟨rfl, rfl⟩ |
    ⟨rfl, rfl⟩ | ⟨rfl, rfl⟩ | ⟨rfl, rfl⟩
  all_goals simp only [List.mapM_cons, List.mapM_nil, Field.read, assemble, Datum.string?_text]
  · exact .part fun body => .whole rfl rfl
  · exact .part fun statements => .whole rfl rfl
  · exact .part fun id => .part fun initializer => .whole rfl rfl
  · exact .part fun id => .part fun parameters => .part fun body => .whole rfl rfl
  · exact .part fun target => .part fun source => .whole rfl rfl
  · exact .part fun expression => .whole rfl rfl
  · exact .part fun test => .part fun body => .whole rfl rfl
  · exact .part fun value => .whole rfl rfl
  · exact .part fun value => .whole rfl rfl
  · exact .part fun name => .whole rfl rfl
  · exact .part fun operator => .part fun expression => .whole rfl rfl
  · exact .part fun operator => .part fun left => .part fun right => .whole rfl rfl
  · exact .part fun test => .part fun consequent => .part fun alternate => .whole rfl rfl
  · exact .part fun elements => .whole rfl rfl
  · exact .part fun array => .part fun subscript => .whole rfl rfl
  · exact .part fun callee => .part fun arguments => .whole rfl rfl

theorem eq_of_contents {one other : Node} (sameClass : one.className = other.className)
    (same : one.contents = other.contents) : one = other := by
  cases one <;> cases other <;> simp_all [className, contents]

theorem find?_decodeMembers (members : List (Text × Datum)) (name : Text) :
    (decodeMembers members).find? (fun part => part.name == name) =
      (Datum.member? members name).map fun value =>
        ⟨name, value, Node.decode value, decodeItems value⟩ := by
  induction members with
  | nil => rfl
  | cons member rest ih =>
      obtain ⟨other, value⟩ := member
      rw [decodeMembers, List.find?_cons, Datum.member?, List.find?_cons]
      by_cases same : other = name
      · subst same
        simp
      · have differs : (other == name) = false := beq_eq_false_iff_ne.mpr same
        rw [differs]
        exact ih

theorem Field.read_decodeMembers (members : List (Text × Datum)) (field : Field) :
    field.read (decodeMembers members) = field.decode members := by
  obtain ⟨name, use⟩ := field
  have found : findPart (decodeMembers members) name =
      match Datum.member? members name with
      | some value => .ok ⟨name, value, Node.decode value, decodeItems value⟩
      | none => .error (.missingMember name) := by
    rw [findPart, find?_decodeMembers]
    cases Datum.member? members name <;> rfl
  simp only [Field.read, Field.decode, datumPart, nodePart, nodesPart, found]
  cases Datum.member? members name with
  | none => cases use <;> rfl
  | some value => cases use <;> rfl

theorem decode_known (listed : fields? (typeOf members) = some fields) :
    match fields.mapM (Field.decode members) with
    | .ok contents => ∃ node, Node.decode (.object members) = .ok node ∧
        typeOf members = .text node.className ∧ node.contents = contents
    | .error error => Node.decode (.object members) = .error error := by
  have read := @assemble_known (typeOf members) (decodeMembers members) fields listed
  rw [funext (Field.read_decodeMembers members)] at read
  exact read

theorem decode_unknown (foreign : fields? (typeOf members) = none) :
    Node.decode (.object members) = .error (.unknownClass (typeOf members)) :=
  assemble_unknown foreign

theorem decodeAll_eq_mapM (items : List Datum) : decodeAll items = items.mapM Node.decode := by
  induction items with
  | nil => rfl
  | cons item rest ih => simp only [decodeAll, List.mapM_cons, ih]

end

section

variable {ε α β : Type} {read : α → Except ε β} {items : List α} {results : List β} {error : ε}

theorem map_ok_iff {result : Except ε α} {after : α → β} {last : β} :
    result.map after = .ok last ↔ ∃ value, result = .ok value ∧ after value = last := by
  cases result with
  | error error => simp [Except.map]
  | ok value => simp [Except.map]

theorem mapM_ok_iff :
    items.mapM read = .ok results ↔ List.Forall₂ (fun item result => read item = .ok result) items results := by
  induction items generalizing results with
  | nil =>
      rw [List.mapM_nil, List.forall₂_nil_left_iff]
      exact ⟨fun same => (Except.ok.inj same).symm, fun same => same ▸ rfl⟩
  | cons item rest ih =>
      rw [List.mapM_cons, List.forall₂_cons_left_iff]
      constructor
      · intro taken
        cases first : read item with
        | error error => simp [first] at taken
        | ok result =>
            cases others : rest.mapM read with
            | error error => simp [first, others] at taken
            | ok later =>
                simp only [first, others, ok_bind, except_pure, Except.ok.injEq] at taken
                exact ⟨result, later, rfl, ih.mp others, taken.symm⟩
      · rintro ⟨result, later, first, others, rfl⟩
        simp [first, ih.mpr others]

theorem each_of_mapM_ok (taken : items.mapM read = .ok results) {item : α} (inside : item ∈ items) :
    ∃ result, read item = .ok result := by
  obtain ⟨length, reads⟩ := List.forall₂_iff_get.mp (mapM_ok_iff.mp taken)
  obtain ⟨index, rfl⟩ := List.mem_iff_get.mp inside
  exact ⟨_, reads index index.isLt (length ▸ index.isLt)⟩

theorem mapM_error_iff :
    items.mapM read = .error error ↔
      ∃ before item after, items = before ++ item :: after ∧
        (∀ earlier ∈ before, ∃ result, read earlier = .ok result) ∧ read item = .error error := by
  induction items with
  | nil => simp
  | cons item rest ih =>
      rw [List.mapM_cons]
      cases first : read item with
      | error earliest =>
          simp only [error_bind, Except.error.injEq]
          constructor
          · rintro rfl
            exact ⟨[], item, rest, rfl, by simp, first⟩
          · rintro ⟨before, failing, after, split, passed, failed⟩
            cases before with
            | nil =>
                obtain ⟨rfl, -⟩ := List.cons.inj split
                exact Except.error.inj (first.symm.trans failed)
            | cons passing others =>
                obtain ⟨rfl, -⟩ := List.cons.inj split
                obtain ⟨result, passes⟩ := passed item (List.mem_cons_self ..)
                cases first.symm.trans passes
      | ok result =>
          have later : (do let others ← rest.mapM read; pure (result :: others) : Except ε (List β)) =
              .error error ↔ rest.mapM read = .error error := by
            cases rest.mapM read <;> simp
          rw [ok_bind, later, ih]
          constructor
          · rintro ⟨before, failing, after, rfl, passed, failed⟩
            exact ⟨item :: before, failing, after, rfl,
              List.forall_mem_cons.mpr ⟨⟨result, first⟩, passed⟩, failed⟩
          · rintro ⟨before, failing, after, split, passed, failed⟩
            cases before with
            | nil =>
                obtain ⟨rfl, -⟩ := List.cons.inj split
                cases first.symm.trans failed
            | cons passing others =>
                obtain ⟨rfl, rfl⟩ := List.cons.inj split
                exact ⟨others, failing, after, rfl, (List.forall_mem_cons.mp passed).2, failed⟩

end

end Bella.Node
