import Bella.Source.Construction

/-! From source text to a tree. Blanks and comments are passed over, and each terminal is added
to the construction as soon as it is read, so the first terminal that cannot stand at its place
is the one that is reported. -/

namespace Bella.Source

inductive SyntaxError where
  | unexpectedToken (terminal : Terminal) (lexeme : String) (position : Position)
  | unexpectedEnd (position : Position)
  | unexpectedCharacter (character : Char) (position : Position)
deriving DecidableEq

/-- Goes on at a position with `passed` characters that belong to what has been read already.
The end of the text is reported at the last terminal. -/
def parseFrom (construction : Construction) (position last : Position) :
    (passed : Nat) → List Char → Except SyntaxError Node
  | _, [] =>
      match construction.finish? with
      | some program => .ok program
      | none => .error (.unexpectedEnd last)
  | passed + 1, character :: rest =>
      parseFrom construction (position.after character) last passed rest
  | 0, character :: rest =>
      if isBlank character then parseFrom construction (position.after character) last 0 rest
      else
        match commentExtent? character rest with
        | some extent => parseFrom construction (position.after character) last extent rest
        | none =>
            match construction.stage.place.scan character rest with
            | none => .error (.unexpectedCharacter character position)
            | some (terminal, extent) =>
                let lexeme := character :: rest.take extent
                match construction.add terminal lexeme with
                | some next => parseFrom next (position.after character) position extent rest
                | none =>
                    .error (.unexpectedToken terminal (String.ofList lexeme) position)

def parse (source : String) : Except SyntaxError Node :=
  parseFrom .empty .start .start 0 source.toList

end Bella.Source
