import Bella.Command.Arguments
import Bella.Command.Directory
import Bella.Datum.Reader
import Bella.Datum.Writer
import Bella.Source.Parse
import Bella.Trace.Recorder
import Bella.Tree.Codec
import Bella.Writing

/-! The command line. A command reads one file, and what it does is a function of what is found
there: files to write, text to print, an exit code, and perhaps a diagnostic. -/

namespace Bella

inductive Command.Task where
  | emitTree
  | runTree
  | runSource
deriving DecidableEq

structure Command where
  task : Command.Task
  path : Path
  level : Nat

namespace Command

def ofArguments (arguments : List String) : Except Refusal Command :=
  match Arguments.read arguments with
  | .error refusal => .error refusal
  | .ok read =>
      let given (value : Option String) : Option String := value.filter (· != "")
      match given read.emitTree, given read.runTree, given read.program with
      | some name, _, _ => .ok ⟨.emitTree, .ofText name, read.verbosity⟩
      | none, some name, _ => .ok ⟨.runTree, .ofText name, read.verbosity⟩
      | none, none, some name => .ok ⟨.runSource, .ofText name, read.verbosity⟩
      | none, none, none => .error .usage

inductive Diagnostic where
  | notFound (path : Path)
  | notParsed (error : Source.SyntaxError)
  | misuse (cause : Misuse)
  | recursionTooDeep

def syntaxErrorText : Source.SyntaxError → Text
  | .unexpectedToken terminal lexeme position =>
      unexpected terminal.label lexeme position
  | .unexpectedEnd position => unexpected "$END" "" position
  | .unexpectedCharacter character position =>
      "No terminal matches '" ++ character.toString ++ "' in the current parser context, at line "
        ++ toString position.line ++ " col " ++ toString position.column
where
  unexpected (label lexeme : String) (position : Source.Position) : Text :=
    "Unexpected token Token(" ++ Text.quoted label ++ ", " ++ Text.quoted lexeme ++ ") at line "
      ++ toString position.line ++ ", column " ++ toString position.column ++ "."

def Diagnostic.text : Diagnostic → Text
  | .notFound path => "Error: file " ++ path.text ++ " not found"
  | .notParsed error => "Syntax error: " ++ syntaxErrorText error
  | .misuse cause => "Runtime error: " ++ cause.report
  | .recursionTooDeep => "Runtime error: maximum recursion depth exceeded"

structure Report where
  exitCode : Nat
  output : Text
  diagnostic : Option Diagnostic

/-- Why a command stops without a report. A fault may come after some of the output has been printed. -/
inductive Breakdown where
  | notOpened (obstacle : Obstacle)
  | notText
  | notADocument (error : Datum.ReadError)
  | notDecoded (error : Node.DecodeError)
  | faulted (printed : Text) (fault : Fault)

structure Outcome where
  writes : List (Path × Text)
  result : Except Breakdown Report

def refuse (diagnostic : Diagnostic) : Outcome :=
  ⟨[], .ok ⟨1, "", some diagnostic⟩⟩

def breakDown (breakdown : Breakdown) : Outcome :=
  ⟨[], .error breakdown⟩

def unifyLineEnds : List Char → List Char
  | [] => []
  | '\r' :: '\n' :: rest => '\n' :: unifyLineEnds rest
  | '\r' :: rest => '\n' :: unifyLineEnds rest
  | character :: rest => character :: unifyLineEnds rest

def decodeText? (content : ByteArray) : Option String :=
  (String.fromUTF8? content).map fun text => String.ofList (unifyLineEnds text.toList)

def tracePath : Path := .ofText "debug.txt"

def lines (texts : List Text) : Text :=
  texts.flatMap fun text => text ++ "\n"

def printAll (nesting : Nat) (output : List Value) : Except Breakdown Report :=
  match output.findSome? (Value.lineFault? nesting) with
  | none => .ok ⟨0, lines (output.map Value.text), none⟩
  | some fault =>
      let printed := output.takeWhile fun value => (value.lineFault? nesting).isNone
      .error (.faulted (lines (printed.map Value.text)) fault)

def runProgram (limits : Limits) (level : Nat) (program : Node) : Outcome :=
  let (recorder, result) :=
    (Recorder.new level).useForRun (writtenRun limits level program .initial)
  let writes := if 0 < level then [(tracePath, lines recorder.file)] else []
  match result with
  | .ok output => ⟨writes, printAll limits.nesting output⟩
  | .error (.misuse cause) => ⟨writes, .ok ⟨1, "", some (.misuse cause)⟩⟩
  | .error .recursionTooDeep => ⟨writes, .ok ⟨1, "", some .recursionTooDeep⟩⟩
  | .error fault => ⟨writes, .error (.faulted "" fault)⟩

def withText (path : Path) (entry : Entry) (next : String → Outcome) : Outcome :=
  match entry with
  | .missing => refuse (.notFound path)
  | .directory => breakDown (.notOpened .directory)
  | .unreadable => breakDown (.notOpened .permission)
  | .file content =>
      match decodeText? content with
      | some text => next text
      | none => breakDown .notText

def withProgram (text : String) (next : Node → Outcome) : Outcome :=
  match Source.parse text with
  | .ok program => next program
  | .error error => refuse (.notParsed error)

def treePath (path : Path) : Path :=
  path.withEnding ".ast.json"

def perform (limits : Limits) (command : Command) (entry : Entry) : Outcome :=
  withText command.path entry fun text =>
    match command.task with
    | .emitTree =>
        withProgram text fun program =>
          ⟨[(treePath command.path, program.encode.write)],
            .ok ⟨0, lines [(treePath command.path).text], none⟩⟩
    | .runTree =>
        match Datum.read text with
        | .error error => breakDown (.notADocument error)
        | .ok stored =>
            match Node.decode stored with
            | .error error => breakDown (.notDecoded error)
            | .ok program => runProgram limits command.level program
    | .runSource => withProgram text (runProgram limits command.level)

def write (directory : Directory) (path : Path) (content : Text) : Except Breakdown Directory :=
  match content.string? with
  | some text => (directory.write path text.toUTF8).mapError .notOpened
  | none => .error (.faulted "" .unencodableText)

def writeAll (directory : Directory) : List (Path × Text) → Directory × Except Breakdown Unit
  | [] => (directory, .ok ())
  | (path, content) :: rest =>
      match write directory path content with
      | .ok next => writeAll next rest
      | .error breakdown => (directory, .error breakdown)

def performIn (limits : Limits) (command : Command) (directory : Directory) :
    Directory × Except Breakdown Report :=
  let outcome := command.perform limits (directory.lookup command.path)
  let (next, written) := writeAll directory outcome.writes
  (next, written.bind fun _ => outcome.result)

end Command

end Bella
