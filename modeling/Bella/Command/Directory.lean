import Bella.Command.Path

/-! A working directory: the files in it and in the directories below it, and the places that may not be
read or written. -/

namespace Bella

inductive Entry where
  | missing
  | directory
  | unreadable
  | file (content : ByteArray)

inductive Obstacle where
  | missing
  | directory
  | permission
deriving DecidableEq

/-- Files by their parts. A directory is there as long as it has files. -/
structure Directory where
  files : List (List String × ByteArray)
  unreadable : List (List String)
  unwritable : List (List String)

namespace Directory

def ofFiles (files : List (List String × ByteArray)) : Directory :=
  ⟨files, [], []⟩

def fileAt? (directory : Directory) (parts : List String) : Option ByteArray :=
  (directory.files.find? fun entry => entry.1 == parts).map (·.2)

def isDirectory (directory : Directory) (parts : List String) : Bool :=
  parts.isEmpty ||
    directory.files.any fun entry => parts.isPrefixOf entry.1 && parts.length < entry.1.length

inductive Location where
  | outside (steps : Nat)
  | inside (parts : List String)

def follow (directory : Directory) : Location → List String → Option Location
  | location, [] => some location
  | .outside steps, part :: rest =>
      if part = ".." then follow directory (.outside (steps + 1)) rest else none
  | .inside parts, part :: rest =>
      if directory.isDirectory parts then
        if part = ".." then
          follow directory (if parts.isEmpty then .outside 1 else .inside parts.dropLast) rest
        else follow directory (.inside (parts ++ [part])) rest
      else none

def locate (directory : Directory) (path : Path) : Option Location :=
  if path.root = "" then directory.follow (.inside []) path.parts
  else if path.parts.all (· == "..") then some (.outside 1)
  else none

def lookup (directory : Directory) (path : Path) : Entry :=
  match directory.locate path with
  | some (.outside _) => .directory
  | some (.inside parts) =>
      if directory.isDirectory parts then .directory
      else
        match directory.fileAt? parts with
        | some content => if parts ∈ directory.unreadable then .unreadable else .file content
        | none => .missing
  | none => .missing

def setFile (parts : List String) (content : ByteArray) :
    List (List String × ByteArray) → List (List String × ByteArray)
  | [] => [(parts, content)]
  | (other, old) :: rest =>
      if other = parts then (parts, content) :: rest
      else (other, old) :: setFile parts content rest

def writingPlace (directory : Directory) (path : Path) : Except Obstacle (List String) :=
  match directory.locate path with
  | some (.outside _) => .error .directory
  | some (.inside parts) =>
      if directory.isDirectory parts then .error .directory
      else if parts ∈ directory.unwritable then .error .permission
      else .ok parts
  | none => .error .missing

def write (directory : Directory) (path : Path) (content : ByteArray) : Except Obstacle Directory :=
  (directory.writingPlace path).map fun place =>
    { directory with files := setFile place content directory.files }

end Directory

end Bella
