import Bella.Proofs.Codec.RoundTrip
import Mathlib.Data.List.Lex

/-! What is read as a tree. The data that reading accepts are described by the classes alone, and so is
what is left of them; anything else fails where the first place stands that is not as its class asks,
in the order of reading. Main statement: reading accepts what conforms, keeps its normal form, and
reports its first problem, which nothing after that place changes. -/

namespace Bella.Node

/-- Data that may stand where a class asks for them. Further members of an object do not matter. -/
inductive Conforms : Use → Datum → Prop where
  | datum (value : Datum) : Conforms .datum value
  | truth (value : Datum) : Conforms .truth value
  | node (members : List (Text × Datum)) (name : String) (fields : List Field) (values : Field → Datum)
      (named : Datum.member? members "type" = some (.text name))
      (listed : (name, fields) ∈ classes)
      (present : ∀ field ∈ fields, Datum.member? members field.name = some (values field))
      (each : ∀ field ∈ fields, Conforms field.use (values field)) : Conforms .node (.object members)
  | nodes (items : List Datum) (each : ∀ item ∈ items, Conforms .node item) :
      Conforms .nodes (.list items)
  | emptyText : Conforms .nodes (.text [])
  | emptyObject : Conforms .nodes (.object [])

mutual

def normal : Use → Datum → Datum
  | .truth, value => .boolean value.holds
  | .node, .object members =>
      .object (("type", typeOf members) ::
        ((fields? (typeOf members)).getD []).filterMap fun field =>
          ((normalMembers members).find? fun member => member.1 == Text.ofString field.name).map
            fun member => (Text.ofString field.name, member.2 field.use))
  | .nodes, .list items => .list (normalItems items)
  | .nodes, .text [] => .list []
  | .nodes, .object [] => .list []
  | _, value => value

def normalMembers : List (Text × Datum) → List (Text × (Use → Datum))
  | [] => []
  | (name, value) :: rest => (name, fun use => normal use value) :: normalMembers rest

def normalItems : List Datum → List Datum
  | [] => []
  | item :: rest => normal .node item :: normalItems rest

end

inductive Slot where
  | missing (name : String)
  | present (use : Use) (value : Datum)

/-- What is seen of a place without looking further down. Of data that are no nodes nothing is seen. -/
inductive Sight where
  | absent
  | missing (name : String)
  | plain
  | object (type : Datum)
  | noObject
  | items
  | noItems

def items? : Datum → Option (List Datum)
  | .list items => some items
  | .text value => some (value.map fun point => .text [point])
  | .object members => some (members.map fun member => .text member.1)
  | _ => none

def slot (members : List (Text × Datum)) (field : Field) : Slot :=
  match Datum.member? members field.name with
  | some value => .present field.use value
  | none => .missing field.name

namespace Slot

def sight : Slot → Sight
  | .missing name => .missing name
  | .present .datum _ => .plain
  | .present .truth _ => .plain
  | .present .node (.object members) => .object (typeOf members)
  | .present .node _ => .noObject
  | .present .nodes value => if (items? value).isSome then .items else .noItems

def parts : Slot → List Slot
  | .present .node (.object members) => ((fields? (typeOf members)).getD []).map (slot members)
  | .present .nodes value => ((items? value).getD []).map (.present .node)
  | _ => []

def look (slot : Slot) : List Nat → Sight
  | [] => slot.sight
  | index :: rest =>
      match slot.parts[index]? with
      | some part => part.look rest
      | none => .absent

def decode : Slot → Except DecodeError Content
  | .missing name => .error (.missingMember name)
  | .present use value => use.decode value

def Conforms : Slot → Prop
  | .missing _ => False
  | .present use value => Node.Conforms use value

end Slot

def Sight.error? : Sight → Option DecodeError
  | .missing name => some (.missingMember name)
  | .object type => if (fields? type).isSome then none else some (.unknownClass type)
  | .noObject => some .notAnObject
  | .noItems => some .notAList
  | .absent | .plain | .items => none

/-- The first place with something wrong. A place is before the places inside it, and these are in
the order of the parts. -/
def Slot.FirstProblem (slot : Slot) (place : List Nat) (error : DecodeError) : Prop :=
  (slot.look place).error? = some error ∧ ∀ earlier < place, (slot.look earlier).error? = none

theorem sizeOf_member_lt {members : List (Text × Datum)} {name : Text} {value : Datum}
    (found : Datum.member? members name = some value) : sizeOf value < sizeOf (Datum.object members) := by
  obtain ⟨member, taken, rfl⟩ := Option.map_eq_some_iff.mp found
  have listed := List.sizeOf_lt_of_mem (List.mem_of_find?_eq_some taken)
  obtain ⟨other, value⟩ := member
  simp only [Prod.mk.sizeOf_spec] at listed
  simp only [Datum.object.sizeOf_spec]
  omega

theorem Slot.parts_cases {use : Use} {value : Datum} {part : Slot}
    (inside : part ∈ (Slot.present use value).parts) :
    part.parts = [] ∨ ∃ inner deeper, part = .present inner deeper ∧ sizeOf deeper < sizeOf value := by
  cases use with
  | datum => cases inside
  | truth => cases inside
  | node =>
      cases value with
      | object members =>
          obtain ⟨field, -, rfl⟩ := List.mem_map.mp inside
          rw [Node.slot]
          cases found : Datum.member? members field.name with
          | none => exact .inl rfl
          | some value => exact .inr ⟨field.use, value, rfl, sizeOf_member_lt found⟩
      | _ => cases inside
  | nodes =>
      obtain ⟨item, listed, rfl⟩ := List.mem_map.mp inside
      cases value with
      | list items =>
          have smaller : sizeOf item < sizeOf items := List.sizeOf_lt_of_mem listed
          refine .inr ⟨.node, item, rfl, ?_⟩
          rw [Datum.list.sizeOf_spec]
          omega
      | text value =>
          obtain ⟨point, -, rfl⟩ := List.mem_map.mp listed
          exact .inl rfl
      | object members =>
          obtain ⟨member, -, rfl⟩ := List.mem_map.mp listed
          exact .inl rfl
      | _ => cases listed

theorem Slot.induct {motive : Slot → Prop}
    (step : ∀ slot : Slot, (∀ part ∈ slot.parts, motive part) → motive slot) (slot : Slot) :
    motive slot := by
  have inert {slot : Slot} (childless : slot.parts = []) : motive slot :=
    step slot (by simp [childless])
  have data (value : Datum) : ∀ use, motive (.present use value) := by
    induction value using WellFounded.induction (measure (sizeOf (α := Datum))).wf with
    | h value ih =>
        intro use
        refine step _ fun part inside => ?_
        rcases Slot.parts_cases inside with childless | ⟨inner, deeper, rfl, smaller⟩
        · exact inert childless
        · exact ih deeper smaller inner
  cases slot with
  | missing name => exact inert rfl
  | present use value => exact data value use

theorem decodeItems_eq (value : Datum) :
    decodeItems value =
      match items? value with
      | some items => items.mapM Node.decode
      | none => .error .notAList := by
  cases value with
  | list items => exact decodeAll_eq_mapM items
  | text value => cases value <;> rfl
  | object members => cases members <;> rfl
  | _ => rfl

theorem mapM_present (items : List Datum) :
    (items.map (Slot.present .node)).mapM Slot.decode =
      (items.mapM Node.decode).map fun nodes => nodes.map Content.node := by
  induction items with
  | nil => rfl
  | cons item rest ih =>
      rw [List.map_cons, List.mapM_cons, List.mapM_cons, ih]
      change ((Node.decode item).map Content.node >>= _) = _
      cases Node.decode item with
      | error error => rfl
      | ok node => cases rest.mapM Node.decode <;> rfl

section

variable {slot : Slot} {error : DecodeError} {members : List (Text × Datum)} {fields : List Field}

theorem decode_slot (field : Field) : (Node.slot members field).decode = field.decode members := by
  rw [Node.slot, Field.decode]
  cases Datum.member? members field.name <;> rfl

theorem decode_of_sight (wrong : slot.sight.error? = some error) : slot.decode = .error error := by
  cases slot with
  | missing name => exact congrArg Except.error (Option.some.inj wrong)
  | present use value =>
      cases use with
      | datum => cases wrong
      | truth => cases wrong
      | node =>
          cases value with
          | object members =>
              simp only [Slot.sight, Sight.error?, Option.ite_none_left_eq_some,
                Option.some.injEq, Bool.not_eq_true, Option.isSome_eq_false_iff,
                Option.isNone_iff_eq_none] at wrong
              obtain ⟨foreign, rfl⟩ := wrong
              exact congrArg (Except.map Content.node) (decode_unknown foreign)
          | _ => exact congrArg Except.error (Option.some.inj wrong)
      | nodes =>
          change (decodeItems value).map Content.nodes = _
          rw [decodeItems_eq]
          cases gone : items? value with
          | some items => simp [Slot.sight, Sight.error?, gone] at wrong
          | none =>
              simp only [Slot.sight, gone, Option.isSome_none, Bool.false_eq_true, if_false] at wrong
              exact congrArg Except.error (Option.some.inj wrong)

/-- With nothing wrong about a slot itself, reading it fails where reading its parts does. -/
theorem decode_of_parts (clean : slot.sight.error? = none) :
    match slot.parts.mapM Slot.decode with
    | .ok _ => ∃ content, slot.decode = .ok content
    | .error error => slot.decode = .error error := by
  cases slot with
  | missing name => cases clean
  | present use value =>
      cases use with
      | datum => exact ⟨_, rfl⟩
      | truth => exact ⟨_, rfl⟩
      | node =>
          cases value with
          | object members =>
              cases listed : fields? (typeOf members) with
              | none => simp [Slot.sight, Sight.error?, listed] at clean
              | some fields =>
                  have known := decode_known listed
                  have parts : (Slot.present .node (.object members)).parts.mapM Slot.decode =
                      fields.mapM (Field.decode members) := by
                    rw [Slot.parts, listed, Option.getD_some, List.mapM_map]
                    exact congrArg fields.mapM (funext decode_slot)
                  rw [parts]
                  cases read : fields.mapM (Field.decode members) with
                  | error error =>
                      rw [read] at known
                      exact congrArg (Except.map Content.node) known
                  | ok contents =>
                      rw [read] at known
                      obtain ⟨node, taken, -⟩ := known
                      exact ⟨.node node, congrArg (Except.map Content.node) taken⟩
          | _ => cases clean
      | nodes =>
          change match (((items? value).getD []).map (Slot.present .node)).mapM Slot.decode with
            | .ok _ => ∃ content, (decodeItems value).map Content.nodes = .ok content
            | .error error => (decodeItems value).map Content.nodes = .error error
          rw [decodeItems_eq]
          cases gone : items? value with
          | none => simp [Slot.sight, Sight.error?, gone] at clean
          | some items =>
              rw [Option.getD_some, mapM_present]
              dsimp only
              cases items.mapM Node.decode with
              | error error => rfl
              | ok nodes => exact ⟨.nodes nodes, rfl⟩

theorem decode_ok_iff_parts :
    (∃ content, slot.decode = .ok content) ↔
      slot.sight.error? = none ∧ ∀ part ∈ slot.parts, ∃ content, part.decode = .ok content := by
  cases wrong : slot.sight.error? with
  | some error => simp [decode_of_sight wrong]
  | none =>
      have read := decode_of_parts wrong
      cases taken : slot.parts.mapM Slot.decode with
      | ok contents =>
          rw [taken] at read
          have each : ∀ part ∈ slot.parts, ∃ content, part.decode = .ok content := by
            intro part inside
            obtain ⟨content, reads⟩ := each_of_mapM_ok taken inside
            exact ⟨content, reads⟩
          exact iff_of_true read ⟨rfl, each⟩
      | error error =>
          rw [taken] at read
          obtain ⟨before, part, after, split, -, failed⟩ := mapM_error_iff.mp taken
          have inside : part ∈ slot.parts := by simp [split]
          refine iff_of_false (by simp [read]) fun ⟨_, each⟩ => ?_
          obtain ⟨content, reads⟩ := each part inside
          cases failed.symm.trans reads

def Slot.IsClean (slot : Slot) : Prop :=
  ∀ place, (slot.look place).error? = none

theorem Slot.IsClean.of_parts (clean : slot.sight.error? = none)
    (each : ∀ part ∈ slot.parts, part.IsClean) : slot.IsClean := by
  intro place
  cases place with
  | nil => exact clean
  | cons index rest =>
      rw [Slot.look]
      cases found : slot.parts[index]? with
      | none => rfl
      | some part => exact each part (List.mem_of_getElem? found) rest

theorem Slot.FirstProblem.of_part {before after : List Slot} {part : Slot} {place : List Nat}
    (clean : slot.sight.error? = none) (split : slot.parts = before ++ part :: after)
    (passed : ∀ other ∈ before, other.IsClean) (problem : part.FirstProblem place error) :
    slot.FirstProblem (before.length :: place) error := by
  obtain ⟨here, first⟩ := problem
  have found : slot.parts[before.length]? = some part := by simp [split]
  refine ⟨by rw [Slot.look, found]; exact here, fun earlier smaller => ?_⟩
  cases earlier with
  | nil => exact clean
  | cons index rest =>
      rw [Slot.look]
      rcases List.cons_lt_cons_iff.mp smaller with lower | ⟨rfl, lower⟩
      · have among : slot.parts[index]? = some before[index] := by
          simp [split, List.getElem?_append_left lower]
        rw [among]
        exact passed _ (List.getElem_mem lower) rest
      · rw [found]
        exact first rest lower

/-- Reading fails at the first problem, and without one it does not fail. -/
theorem decode_described (slot : Slot) :
    match slot.decode with
    | .ok _ => slot.IsClean
    | .error error => ∃ place, slot.FirstProblem place error := by
  induction slot using Slot.induct with
  | step slot ih =>
      cases wrong : slot.sight.error? with
      | some error =>
          rw [decode_of_sight wrong]
          exact ⟨[], wrong, fun earlier before => absurd before (List.not_lt_nil _)⟩
      | none =>
          have read := decode_of_parts wrong
          have clean {part : Slot} (inside : part ∈ slot.parts)
              (reads : ∃ content, part.decode = .ok content) : part.IsClean := by
            obtain ⟨content, reads⟩ := reads
            have described := ih part inside
            rw [reads] at described
            exact described
          cases taken : slot.parts.mapM Slot.decode with
          | ok contents =>
              rw [taken] at read
              obtain ⟨content, reads⟩ := read
              rw [reads]
              exact .of_parts wrong fun part inside => clean inside (each_of_mapM_ok taken inside)
          | error error =>
              rw [taken] at read
              rw [read]
              obtain ⟨before, part, after, split, passed, failed⟩ := mapM_error_iff.mp taken
              have described := ih part (by simp [split])
              rw [failed] at described
              obtain ⟨place, problem⟩ := described
              refine ⟨_, .of_part wrong split (fun other among => ?_) problem⟩
              exact clean (by simp [split, among]) (passed other among)

theorem decode_error_iff : slot.decode = .error error ↔ ∃ place, slot.FirstProblem place error := by
  have described := decode_described slot
  constructor
  · intro failed
    rw [failed] at described
    exact described
  · rintro ⟨place, here, first⟩
    cases read : slot.decode with
    | ok content =>
        rw [read] at described
        cases here.symm.trans (described place)
    | error other =>
        rw [read] at described
        obtain ⟨otherPlace, otherHere, otherFirst⟩ := described
        rcases lt_trichotomy place otherPlace with before | rfl | after
        · cases here.symm.trans (otherFirst place before)
        · exact congrArg Except.error (Option.some.inj (otherHere.symm.trans here))
        · cases otherHere.symm.trans (first otherPlace after)

end

theorem conforms_slot {members : List (Text × Datum)} {field : Field} :
    (slot members field).Conforms ↔
      ∃ value, Datum.member? members field.name = some value ∧ Conforms field.use value := by
  rw [slot]
  cases Datum.member? members field.name with
  | none => simp [Slot.Conforms]
  | some value => simp [Slot.Conforms]

theorem fields?_typeOf {members : List (Text × Datum)} {fields : List Field} :
    fields? (typeOf members) = some fields ↔
      ∃ name : String, Datum.member? members "type" = some (.text name) ∧ (name, fields) ∈ classes := by
  constructor
  · intro known
    obtain ⟨name, type, listed⟩ := fields?_cases known
    refine ⟨name, ?_, listed⟩
    cases found : Datum.member? members "type" with
    | none => simp [typeOf, found] at type
    | some value => simpa [typeOf, found] using type
  · rintro ⟨name, named, listed⟩
    rw [typeOf, named, Option.getD_some, fields?_of_mem listed]

theorem conforms_object {members : List (Text × Datum)} :
    Conforms .node (.object members) ↔
      ∃ fields, fields? (typeOf members) = some fields ∧
        ∀ field ∈ fields, (slot members field).Conforms := by
  constructor
  · intro conforms
    cases conforms with
    | node _ name fields values named listed present each =>
        refine ⟨fields, fields?_typeOf.mpr ⟨name, named, listed⟩, fun field belongs => ?_⟩
        exact conforms_slot.mpr ⟨values field, present field belongs, each field belongs⟩
  · rintro ⟨fields, known, each⟩
    obtain ⟨name, named, listed⟩ := fields?_typeOf.mp known
    refine .node members name fields
      (fun field => (Datum.member? members field.name).getD .null) named listed ?_ ?_
    · intro field belongs
      obtain ⟨value, found, -⟩ := conforms_slot.mp (each field belongs)
      rw [found, Option.getD_some]
    · intro field belongs
      obtain ⟨value, found, conforms⟩ := conforms_slot.mp (each field belongs)
      rwa [found, Option.getD_some]

/-- What is gone through as a list conforms when its items do. The items of a text or an object are
texts, of which none conforms. -/
theorem conforms_nodes {value : Datum} :
    Conforms .nodes value ↔
      ∃ items, items? value = some items ∧ ∀ item ∈ items, Conforms .node item := by
  have textual {text : Text} : ¬ Conforms .node (.text text) := by
    intro conforms
    cases conforms
  constructor
  · intro conforms
    cases conforms with
    | nodes items each => exact ⟨items, rfl, each⟩
    | emptyText => exact ⟨[], rfl, by simp⟩
    | emptyObject => exact ⟨[], rfl, by simp⟩
  · rintro ⟨items, gone, each⟩
    cases value with
    | list listed =>
        obtain rfl := Option.some.inj gone
        exact .nodes listed each
    | text value =>
        obtain rfl := Option.some.inj gone
        cases value with
        | nil => exact .emptyText
        | cons first rest => exact absurd (each _ (List.mem_cons_self ..)) textual
    | object members =>
        obtain rfl := Option.some.inj gone
        cases members with
        | nil => exact .emptyObject
        | cons first rest => exact absurd (each _ (List.mem_cons_self ..)) textual
    | _ => cases gone

theorem conforms_iff_parts (slot : Slot) :
    slot.Conforms ↔ slot.sight.error? = none ∧ ∀ part ∈ slot.parts, part.Conforms := by
  cases slot with
  | missing name => exact iff_of_false id fun both => Option.some_ne_none _ both.1
  | present use value =>
    cases use with
    | datum => exact iff_of_true (.datum value) ⟨rfl, by simp [Slot.parts]⟩
    | truth => exact iff_of_true (.truth value) ⟨rfl, by simp [Slot.parts]⟩
    | node =>
        cases value with
        | object members =>
            rw [Slot.Conforms, conforms_object, Slot.parts]
            cases known : fields? (typeOf members) with
            | none => simp [Slot.sight, Sight.error?, known]
            | some fields => simp [Slot.sight, Sight.error?, known]
        | _ =>
            exact iff_of_false (fun conforms => by cases conforms) (by simp [Slot.sight, Sight.error?])
    | nodes =>
        rw [Slot.Conforms, conforms_nodes, Slot.parts]
        cases gone : items? value with
        | none => simp [Slot.sight, Sight.error?, gone]
        | some items => simp [Slot.sight, Sight.error?, gone, Slot.Conforms]

theorem decode_ok_iff (slot : Slot) : (∃ content, slot.decode = .ok content) ↔ slot.Conforms := by
  induction slot using Slot.induct with
  | step slot ih =>
      rw [decode_ok_iff_parts, conforms_iff_parts]
      exact and_congr_right fun _ => forall₂_congr ih

theorem find?_normalMembers (members : List (Text × Datum)) (name : Text) :
    (normalMembers members).find? (fun member => member.1 == name) =
      (Datum.member? members name).map fun value => (name, fun use => normal use value) := by
  induction members with
  | nil => rfl
  | cons member rest ih =>
      obtain ⟨other, value⟩ := member
      rw [normalMembers, List.find?_cons, Datum.member?, List.find?_cons]
      by_cases same : other = name
      · subst same
        simp
      · have differs : (other == name) = false := beq_eq_false_iff_ne.mpr same
        rw [differs]
        exact ih

theorem normalItems_eq_map (items : List Datum) : normalItems items = items.map (normal .node) := by
  induction items with
  | nil => rfl
  | cons item rest ih => rw [normalItems, List.map_cons, ih]

theorem normal_list (items : List Datum) :
    normal .nodes (.list items) = .list (items.map (normal .node)) := by
  rw [← normalItems_eq_map]
  simp only [normal]

theorem normal_object (members : List (Text × Datum)) :
    normal .node (.object members) = .object (("type", typeOf members) ::
      ((fields? (typeOf members)).getD []).filterMap fun field =>
        (Datum.member? members field.name).map fun value =>
          (Text.ofString field.name, normal field.use value)) := by
  rw [normal]
  simp only [find?_normalMembers, Option.map_map]
  rfl

def Slot.normal? : Slot → Option Datum
  | .missing _ => none
  | .present use value => some (normal use value)

theorem normal?_slot (members : List (Text × Datum)) (field : Field) :
    (slot members field).normal? = (Datum.member? members field.name).map (normal field.use) := by
  rw [slot]
  cases Datum.member? members field.name <;> rfl

theorem filterMap_eq_storedMembers {members : List (Text × Datum)} {fields : List Field}
    {contents : List Content}
    (each : List.Forall₂ (fun field content => (slot members field).normal? = some content.encoded)
      fields contents) :
    (fields.filterMap fun field => (Datum.member? members field.name).map fun value =>
      (Text.ofString field.name, normal field.use value)) = storedMembers fields contents := by
  induction each with
  | nil => rfl
  | @cons field content fields contents first rest ih =>
      obtain ⟨value, found, same⟩ := Option.map_eq_some_iff.mp ((normal?_slot members field).symm.trans first)
      rw [List.filterMap_cons, found, Option.map_some, ih, same]
      rfl

theorem encodeAll_eq_map (nodes : List Node) : encodeAll nodes = nodes.map encode := by
  induction nodes with
  | nil => rfl
  | cons node rest ih => rw [encodeAll, List.map_cons, ih]

theorem encoded_object {members : List (Text × Datum)} {node : Node}
    (each : ∀ field ∈ (fields? (typeOf members)).getD [], ∀ content,
      (slot members field).decode = .ok content →
        (slot members field).normal? = some content.encoded)
    (read : decode (.object members) = .ok node) : normal .node (.object members) = node.encode := by
  cases known : fields? (typeOf members) with
  | none => cases (decode_unknown known).symm.trans read
  | some fields =>
      have reads := decode_known known
      cases taken : fields.mapM (Field.decode members) with
      | error error =>
          rw [taken] at reads
          cases reads.symm.trans read
      | ok contents =>
          rw [taken] at reads
          obtain ⟨other, same, type, rfl⟩ := reads
          obtain rfl := Except.ok.inj (read.symm.trans same)
          rw [known, Option.getD_some] at each
          have normals : List.Forall₂
              (fun field content => (slot members field).normal? = some content.encoded)
              fields node.contents := by
            obtain ⟨length, zipped⟩ := List.forall₂_iff_zip.mp (mapM_ok_iff.mp taken)
            refine List.forall₂_iff_zip.mpr ⟨length, fun {field content} paired => ?_⟩
            exact each field (List.of_mem_zip paired).1 content
              ((decode_slot field).trans (zipped paired))
          obtain rfl : node.fields = fields := by
            rw [type, fields?_className] at known
            exact Option.some.inj known
          rw [normal_object, known, Option.getD_some, filterMap_eq_storedMembers normals, type, encode_eq]
          rfl

theorem encoded_items {items : List Datum} {nodes : List Node}
    (each : ∀ item ∈ items, ∀ node, decode item = .ok node → normal .node item = node.encode)
    (read : items.mapM decode = .ok nodes) : items.map (normal .node) = encodeAll nodes := by
  rw [encodeAll_eq_map]
  obtain ⟨length, reads⟩ := List.forall₂_iff_get.mp (mapM_ok_iff.mp read)
  refine List.ext_get (by simpa using length) fun index below belowNodes => ?_
  rw [List.length_map] at below belowNodes
  simpa using each _ (List.get_mem items ⟨index, below⟩) _ (reads index below belowNodes)

theorem encoded_of_decode (slot : Slot) (content : Content) (read : slot.decode = .ok content) :
    slot.normal? = some content.encoded := by
  induction slot using Slot.induct generalizing content with
  | step slot ih =>
    cases slot with
    | missing name => cases read
    | present use value =>
      cases use with
      | datum =>
          obtain rfl := Except.ok.inj read
          rw [Slot.normal?, normal.eq_def]
          rfl
      | truth =>
          obtain rfl := Except.ok.inj read
          rw [Slot.normal?, normal.eq_def]
          rfl
      | node =>
          obtain ⟨node, taken, rfl⟩ := map_ok_iff.mp read
          cases value with
          | object members =>
              rw [Slot.parts, List.forall_mem_map] at ih
              exact congrArg some (encoded_object ih taken)
          | _ => cases taken
      | nodes =>
          obtain ⟨nodes, taken, rfl⟩ := map_ok_iff.mp read
          cases value with
          | list items =>
              have each : ∀ item ∈ items, ∀ node, decode item = .ok node →
                  normal .node item = node.encode := by
                intro item inside node reads
                exact Option.some.inj (ih _ (List.mem_map_of_mem inside) (.node node)
                  (congrArg (Except.map Content.node) reads))
              rw [Slot.normal?, normal_list, encoded_items each ((decodeAll_eq_mapM items).symm.trans taken)]
              rfl
          | text value =>
              cases value with
              | nil =>
                  obtain rfl := Except.ok.inj taken
                  rw [Slot.normal?, normal.eq_def]
                  rfl
              | cons first rest => cases taken
          | object members =>
              cases members with
              | nil =>
                  obtain rfl := Except.ok.inj taken
                  rw [Slot.normal?, normal.eq_def]
                  rfl
              | cons first rest => cases taken
          | _ => cases taken

end Bella.Node

namespace Bella

open Node

/-- A stored tree is read if it conforms to the classes, and what is read is stored in its normal form
and is then read as the same. Otherwise the error is that of the first problem, whatever stands after
its place. -/
theorem decode_by_classes (stored : Datum) :
    ((∃ node, decode stored = .ok node) ↔ Conforms .node stored) ∧
    (∀ node, decode stored = .ok node →
      node.encode = normal .node stored ∧ decode node.encode = .ok node) ∧
    (∀ error, decode stored = .error error ↔
      ∃ place, (Slot.present .node stored).FirstProblem place error) ∧
    ∀ place error, (Slot.present .node stored).FirstProblem place error →
      ∀ other : Datum,
        (∀ earlier ≤ place, (Slot.present .node other).look earlier =
          (Slot.present .node stored).look earlier) →
        decode other = .error error := by
  have read (value : Datum) : (Slot.present .node value).decode = (decode value).map .node := rfl
  have error_iff (value : Datum) (error : DecodeError) : decode value = .error error ↔
      ∃ place, (Slot.present .node value).FirstProblem place error := by
    rw [← decode_error_iff, read]
    cases decode value <;> simp [Except.map]
  refine ⟨?_, ?_, error_iff stored, ?_⟩
  · have accepted := decode_ok_iff (.present .node stored)
    rw [read] at accepted
    rw [← Slot.Conforms.eq_2, ← accepted]
    cases decode stored <;> simp [Except.map]
  · intro node taken
    have normals := encoded_of_decode (.present .node stored) (.node node) (by rw [read, taken]; rfl)
    exact ⟨(Option.some.inj normals).symm, decode_encode node⟩
  · rintro place error ⟨here, first⟩ other alike
    refine (error_iff other error).mpr ⟨place, ?_, fun earlier before => ?_⟩
    · rw [alike place le_rfl]
      exact here
    · rw [alike earlier before.le]
      exact first earlier before

/-- Of two problems in a call the callee's is reported, also when the arguments are left out. -/
theorem decode_by_classes_call :
    decode (.object [("type", .text "Call"), ("callee", .null), ("args", .integer 7)]) =
      .error .notAnObject ∧
    decode (.object [("type", .text "Call"), ("callee", .null)]) = .error .notAnObject := by
  have before {place : List Nat} (earlier : place < [0]) : place = [] := by
    cases place with
    | nil => rfl
    | cons index rest =>
        rcases List.cons_lt_cons_iff.mp earlier with lower | ⟨-, lower⟩
        · exact absurd lower (Nat.not_lt_zero index)
        · exact absurd lower (List.not_lt_nil rest)
  obtain ⟨-, -, errors, later⟩ := decode_by_classes
    (.object [("type", .text "Call"), ("callee", .null), ("args", .integer 7)])
  have problem : (Slot.present .node (.object [("type", .text "Call"), ("callee", .null),
      ("args", .integer 7)])).FirstProblem [0] .notAnObject :=
    ⟨rfl, fun place earlier => before earlier ▸ rfl⟩
  refine ⟨(errors _).mpr ⟨[0], problem⟩, later [0] _ problem _ fun place upTo => ?_⟩
  rcases upTo.lt_or_eq with earlier | rfl
  · rw [before earlier]
    rfl
  · rfl

end Bella
