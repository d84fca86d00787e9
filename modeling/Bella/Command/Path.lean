/-! Paths as they are given to a command. Empty parts and single points have no meaning and are
dropped; a double point is kept, because the part before it may be a link. -/

namespace Bella

structure Path where
  root : String
  parts : List String
deriving DecidableEq

namespace Path

/-- Exactly two slashes at the front are a root of their own. -/
def rootOf : List Char → String
  | '/' :: '/' :: '/' :: _ => "/"
  | '/' :: '/' :: _ => "//"
  | '/' :: _ => "/"
  | _ => ""

def splitParts : List Char → List (List Char)
  | [] => [[]]
  | '/' :: rest => [] :: splitParts rest
  | character :: rest =>
      match splitParts rest with
      | first :: others => (character :: first) :: others
      | [] => [[character]]

def ofText (text : String) : Path :=
  ⟨rootOf text.toList,
    ((splitParts text.toList).map String.ofList).filter fun part => part != "" && part != "."⟩

def text (path : Path) : String :=
  if path.root = "" ∧ path.parts = [] then "."
  else path.root ++ "/".intercalate path.parts

def withEnding (path : Path) (ending : String) : Path :=
  match path.parts.reverse with
  | last :: earlier => { path with parts := (earlier.reverse ++ [last ++ ending]) }
  | [] => path

end Path

end Bella
