import Bella.Command

/-! The program that carries out commands on the files of the machine. -/

open Bella Bella.Command

def entryAt (path : String) : IO Entry := do
  match ← (IO.FS.Handle.mk path .read).toBaseIO with
  | .error (.noFileOrDirectory _ _ _) | .error (.inappropriateType _ _ _) => return .missing
  | .error (.permissionDenied _ _ _) => return .unreadable
  | .error error => throw error
  | .ok handle =>
      match ← handle.readBinToEnd.toBaseIO with
      | .ok content => return .file content
      | .error (.inappropriateType _ _ _) => return .directory
      | .error error => throw error

def encoded (text : Text) : IO String :=
  match text.string? with
  | some string => return string
  | none => throw (.userError "The text has no encoding")

def breakdownText : Breakdown → String
  | .notOpened .missing => "No such file or directory"
  | .notOpened .directory => "Is a directory"
  | .notOpened .permission => "Permission denied"
  | .notText => "The file is not UTF-8 text"
  | .notADocument _ => "The file is not a document"
  | .notDecoded _ => "The document is not a stored tree"
  | .faulted _ _ => "The program cannot be run to its end"

def main (arguments : List String) : IO UInt32 := do
  match Command.ofArguments arguments with
  | .error .help =>
      IO.println "usage: bella [-v] [--emit-ast BELLA_FILE | --ast AST_JSON_FILE] [program]"
      return 0
  | .error .usage =>
      IO.eprintln "usage: bella [-v] [--emit-ast BELLA_FILE | --ast AST_JSON_FILE] [program]"
      return 2
  | .ok command =>
      let outcome := command.perform .ample (← entryAt command.path.text)
      for (path, content) in outcome.writes do
        IO.FS.writeFile path.text (← encoded content)
      match outcome.result with
      | .error breakdown =>
          match breakdown with
          | .faulted printed _ => IO.print (← encoded printed)
          | _ => pure ()
          IO.eprintln (breakdownText breakdown)
          return 1
      | .ok report =>
          IO.print (← encoded report.output)
          match report.diagnostic with
          | some diagnostic => IO.eprintln diagnostic.text.escaped
          | none => pure ()
          return report.exitCode.toUInt32
