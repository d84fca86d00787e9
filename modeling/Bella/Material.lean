import Bella.Source.Parse
import Bella.Tree.Codec
import Bella.Writing

/-! What a program may be given as: a source text, or a stored tree. -/

namespace Bella

inductive Material where
  | source (text : String)
  | stored (tree : Datum)

inductive Failure where
  | notParsed (error : Source.SyntaxError)
  | notDecoded (error : Node.DecodeError)
  | faulted (fault : Fault)

namespace Material

def parse (text : String) : Except Failure Node :=
  (Source.parse text).mapError .notParsed

def decode (tree : Datum) : Except Failure Node :=
  (Node.decode tree).mapError .notDecoded

def program : Material → Except Failure Node
  | .source text => parse text
  | .stored tree => decode tree

def statements : Material → Except Failure (List Node)
  | .source text => do
      match ← parse text with
      | .program (.block statements) => return statements
      | _ => throw (.faulted .missingPart)
  | .stored tree => do return [← decode tree]

def expression : Material → Except Failure Node
  | .source text => do
      match ← parse ("print " ++ text ++ ";") with
      | .program (.block (.printStatement expression :: _)) => return expression
      | _ => throw (.faulted .missingPart)
  | .stored tree => decode tree

def output (limits : Limits) (material : Material) : Except Failure (List Value) := do
  (writtenRun limits 0 (← material.program) .initial).result.mapError .faulted

end Material

end Bella
