import Bella.Text.Character

/-! The arguments of a command. Options may stand anywhere before a double dash, may be given by
any beginning that only one of them has, and take their value after an equals sign or as the
next argument. -/

namespace Bella.Command

inductive LongOption where
  | help
  | emitTree
  | runTree
deriving DecidableEq

def LongOption.all : List LongOption := [.help, .emitTree, .runTree]

def LongOption.text : LongOption → String
  | .help => "--help"
  | .emitTree => "--emit-ast"
  | .runTree => "--ast"

inductive Word where
  | plain (text : String)
  | letters (letters : List Char)
  | long (option : LongOption) (value : Option String)
  | separator
  | unknown
  | ambiguous
deriving DecidableEq

def splitEquals (characters : List Char) : List Char × Option (List Char) :=
  match characters.dropWhile (· != '=') with
  | [] => (characters, none)
  | _ :: value => (characters.takeWhile (· != '='), some value)

/-- A minus sign and a decimal numeral without exponent, in digits of any script; one line feed
may follow. -/
def isNegativeNumeral (characters : List Char) : Bool :=
  match characters with
  | '-' :: rest =>
      let whole := rest.takeWhile Text.isDigit
      let ended (others : List Char) : Bool := others == [] || others == ['\n']
      match rest.dropWhile Text.isDigit with
      | '.' :: fraction =>
          !(fraction.takeWhile Text.isDigit).isEmpty && ended (fraction.dropWhile Text.isDigit)
      | others => !whole.isEmpty && ended others
  | _ => false

def unrecognized (characters : List Char) : Word :=
  if isNegativeNumeral characters || characters.contains ' ' then .plain (String.ofList characters)
  else .unknown

def classifyLong (characters : List Char) : Word :=
  let (name, value) := splitEquals characters
  let exact := LongOption.all.filter fun option => option.text.toList == name
  let begun := LongOption.all.filter fun option => name.isPrefixOf option.text.toList
  match exact, begun with
  | option :: _, _ => .long option (value.map String.ofList)
  | [], [option] => .long option (value.map String.ofList)
  | [], [] => unrecognized characters
  | [], _ => .ambiguous

def isShortOption (letter : Char) : Bool :=
  letter == 'v' || letter == 'h'

/-- The letters that are joined after a minus sign. An equals sign between the first letter and
others has no meaning. -/
def joinedLetters : List Char → List Char
  | first :: '=' :: second :: rest => first :: second :: rest
  | letters => letters

def classify (argument : String) : Word :=
  match argument.toList with
  | ['-', '-'] => .separator
  | '-' :: '-' :: rest => classifyLong ('-' :: '-' :: rest)
  | '-' :: letter :: rest =>
      if isShortOption letter then .letters (joinedLetters (letter :: rest))
      else unrecognized ('-' :: letter :: rest)
  | other => .plain (String.ofList other)

def classifyAll : List String → List Word
  | [] => []
  | argument :: rest =>
      match classify argument with
      | .separator => .separator :: rest.map .plain
      | word => word :: classifyAll rest

inductive Refusal where
  | usage
  | help

structure Arguments where
  verbosity : Nat
  emitTree : Option String
  runTree : Option String
  program : Option String
  programRead : Bool
  surplus : Bool

def Arguments.none : Arguments := ⟨0, .none, .none, .none, false, false⟩

def readLetters (arguments : Arguments) (letters : List Char) : Except Refusal Arguments :=
  if !letters.all isShortOption then .error .usage
  else if letters.contains 'h' then .error .help
  else .ok { arguments with verbosity := arguments.verbosity + letters.length }

/-- The plain arguments between two options, with the double dash among them. The first one is
the program, a double dash beside it is passed over, and the rest is surplus. -/
def readPlain (arguments : Arguments) (words : List Word) : Arguments :=
  if words.isEmpty then arguments
  else if arguments.programRead then { arguments with surplus := true }
  else
    let taken (program : Option String) (rest : List Word) : Arguments :=
      { arguments with
        program := program
        programRead := true
        surplus := arguments.surplus || !rest.isEmpty }
    match words with
    | .separator :: .plain program :: rest => taken (some program) rest
    | .separator :: rest => taken .none rest
    | .plain program :: .separator :: rest => taken (some program) rest
    | .plain program :: rest => taken (some program) rest
    | rest => taken .none rest

/-- A tree option excludes the other one, even with an empty value. A double dash after an equals
sign stands for no value and is kept as an empty one. -/
def setTree (arguments : Arguments) (option : LongOption) (given : String) :
    Except Refusal Arguments :=
  let value := if given = "--" then "" else given
  match option with
  | .help => .error .help
  | .emitTree =>
      if arguments.runTree.isSome then .error .usage
      else .ok { arguments with emitTree := some value }
  | .runTree =>
      if arguments.emitTree.isSome then .error .usage
      else .ok { arguments with runTree := some value }

def readWords (arguments : Arguments) (pending : List Word) : List Word → Except Refusal Arguments
  | [] => .ok (readPlain arguments pending.reverse)
  | word :: rest =>
      let settled := readPlain arguments pending.reverse
      match word with
      | .plain text => readWords arguments (.plain text :: pending) rest
      | .separator => readWords arguments (.separator :: pending) rest
      | .letters letters =>
          match readLetters settled letters with
          | .ok next => readWords next [] rest
          | .error refusal => .error refusal
      | .long .help none => .error .help
      | .long .help (some _) => .error .usage
      | .long option (some value) =>
          match setTree settled option value with
          | .ok next => readWords next [] rest
          | .error refusal => .error refusal
      | .long option none =>
          match rest with
          | .plain value :: others =>
              match setTree settled option value with
              | .ok next => readWords next [] others
              | .error refusal => .error refusal
          | _ => .error .usage
      | .unknown => readWords { settled with surplus := true } [] rest
      | .ambiguous => .error .usage

def Arguments.read (arguments : List String) : Except Refusal Arguments :=
  let words := classifyAll arguments
  if words.contains .ambiguous then .error .usage
  else
    match readWords .none [] words with
    | .ok read => if read.surplus then .error .usage else .ok read
    | .error refusal => .error refusal

end Bella.Command
