import Bella.Tree
import Bella.RealMath

/-! The values of programs. A foreign value is none that a program can make; it only comes from
outside, and every operation of the language refuses it. -/

namespace Bella

inductive Builtin where
  | squareRoot
  | sine
  | cosine
  | naturalLogarithm
  | exponential
  | hypotenuse
deriving DecidableEq

namespace Builtin

def all : List Builtin :=
  [.squareRoot, .sine, .cosine, .naturalLogarithm, .exponential, .hypotenuse]

def name : Builtin → String
  | .squareRoot => "sqrt"
  | .sine => "sin"
  | .cosine => "cos"
  | .naturalLogarithm => "ln"
  | .exponential => "exp"
  | .hypotenuse => "hypot"

def arity : Builtin → Nat
  | .hypotenuse => 2
  | _ => 1

def ofName? (name : String) : Option Builtin :=
  all.find? fun builtin => builtin.name == name

def compute : Builtin → List Number → Except Refusal Number
  | .squareRoot, [argument] => RealMath.squareRoot argument
  | .sine, [argument] => RealMath.sine argument
  | .cosine, [argument] => RealMath.cosine argument
  | .naturalLogarithm, [argument] => RealMath.naturalLogarithm argument
  | .exponential, [argument] => RealMath.exponential argument
  | .hypotenuse, [left, right] => RealMath.hypotenuse left right
  | _, _ => .error .domain

end Builtin

inductive Value where
  | number (value : Number)
  | boolean (value : Bool)
  | array (items : List Value)
  | builtin (function : Builtin)
  | function (name : Datum) (parameters : List Datum) (body : Node)
  | foreign (text : Option Text)
deriving Inhabited

inductive Kind where
  | number
  | boolean
  | array
  | builtin
  | function
  | foreignEmpty
  | foreignText
deriving DecidableEq

def Kind.label : Kind → String
  | .number => "Number"
  | .boolean => "Boolean"
  | .array => "Array"
  | .builtin => "BuiltinFunction"
  | .function => "UserFunction"
  | .foreignEmpty => "NoneType"
  | .foreignText => "str"

namespace Value

def kind : Value → Kind
  | .number _ => .number
  | .boolean _ => .boolean
  | .array _ => .array
  | .builtin _ => .builtin
  | .function _ _ _ => .function
  | .foreign none => .foreignEmpty
  | .foreign (some _) => .foreignText

def isFunction : Value → Bool
  | .builtin _ | .function _ _ _ => true
  | _ => false

def functionText (label name : Text) : Text :=
  "<" ++ label ++ " " ++ name ++ ">"

mutual

def text : Value → Text
  | .number value => value.text
  | .boolean value => if value then "true" else "false"
  | .array items => "[" ++ Text.separated ", " (texts items) ++ "]"
  | .builtin callee => functionText "builtin" callee.name
  | .function name _ _ => functionText "function" name.display
  | .foreign none => "None"
  | .foreign (some text) => text

def texts : List Value → List Text
  | [] => []
  | item :: rest => text item :: texts rest

end

mutual

def listing : Value → Text
  | .number value => value.literal
  | .boolean value => if value then "True" else "False"
  | .array items => "Array([" ++ Text.separated ", " (listings items) ++ "])"
  | .builtin callee => functionText "builtin" callee.name
  | .function name _ _ => functionText "function" name.display
  | .foreign none => "None"
  | .foreign (some text) => Text.quoted text

def listings : List Value → List Text
  | [] => []
  | item :: rest => listing item :: listings rest

end

end Value

end Bella
