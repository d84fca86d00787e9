import Bella.Number.Text
import Bella.Text.Quoted

/-! Data of a document: what a stored tree is written as, and what its names, operators and
numerals may be when it was not made from source text. -/

namespace Bella

/-- An object keeps its members in order and has no member twice. A `nan` with a label differs,
as a name, from those of other labels and from the one that documents write. -/
inductive Datum where
  | null
  | boolean (value : Bool)
  | integer (value : Int)
  | real (value : Number)
  | labelledNan (label : Nat)
  | text (value : Text)
  | list (items : List Datum)
  | object (members : List (Text × Datum))
deriving Inhabited

namespace Datum

def setMember (members : List (Text × Datum)) (name : Text) (value : Datum) :
    List (Text × Datum) :=
  match members with
  | [] => [(name, value)]
  | (other, old) :: rest =>
      if other = name then (name, value) :: rest else (other, old) :: setMember rest name value

def ofMembers (members : List (Text × Datum)) : Datum :=
  .object (members.foldl (fun earlier member => setMember earlier member.1 member.2) [])

def member? (members : List (Text × Datum)) (name : Text) : Option Datum :=
  (members.find? fun member => member.1 == name).map (·.2)

def string? : Datum → Option String
  | .text value => value.string?
  | _ => none

def holds : Datum → Bool
  | .null => false
  | .boolean value => value
  | .integer value => value != 0
  | .real value => !value.isZero
  | .labelledNan _ => true
  | .text value => !value.isEmpty
  | .list items => !items.isEmpty
  | .object members => !members.isEmpty

mutual

def nestedText : Datum → String
  | .null => "None"
  | .boolean value => if value then "True" else "False"
  | .integer value => String.ofList (Number.integerText value)
  | .real value => value.literal
  | .labelledNan _ => Number.nan.literal
  | .text value => Text.quoted value
  | .list items => "[" ++ ", ".intercalate (nestedTexts items) ++ "]"
  | .object members => "\x7b" ++ ", ".intercalate (memberTexts members) ++ "\x7d"

def nestedTexts : List Datum → List String
  | [] => []
  | item :: rest => nestedText item :: nestedTexts rest

def memberTexts : List (Text × Datum) → List String
  | [] => []
  | (name, value) :: rest => (Text.quoted name ++ ": " ++ nestedText value) :: memberTexts rest

end

def display : Datum → Text
  | .text value => value
  | other => other.nestedText

/-- Integers of more digits than this are neither read nor written. -/
def longestNumeral : Nat := 4300

end Datum

/-- What a name is looked up by. A truth value counts as zero or one and a whole real as that
integer, so names of different spelling may be one key. -/
inductive Key where
  | null
  | text (value : Text)
  | integer (value : Int)
  | real (value : Number)
  | labelledNan (label : Nat)
deriving DecidableEq

def Datum.key? : Datum → Option Key
  | .null => some .null
  | .boolean value => some (.integer (if value then 1 else 0))
  | .integer value => some (.integer value)
  | .real value =>
      match value.integer? with
      | some whole => some (.integer whole)
      | none => some (.real value)
  | .labelledNan label => some (.labelledNan label)
  | .text value => some (.text value)
  | .list _ | .object _ => none

end Bella
