/-! Text that comes from documents. A document may name any code point, also one half of a
surrogate pair without the other half. Such a half is no character, but it is a part of the text
like any other: texts are equal when their code points are. -/

namespace Bella

/-- The halves of surrogate pairs are counted from `0xd800`. -/
inductive CodePoint where
  | character (value : Char)
  | surrogate (index : Fin 2048)
deriving DecidableEq

abbrev Text := List CodePoint

namespace CodePoint

def value : CodePoint → Nat
  | .character value => value.toNat
  | .surrogate index => 0xd800 + index

def character? : CodePoint → Option Char
  | .character value => some value
  | .surrogate _ => none

end CodePoint

namespace Text

def ofCharacters (characters : List Char) : Text :=
  characters.map .character

def ofString (text : String) : Text :=
  ofCharacters text.toList

instance : Coe String Text := ⟨ofString⟩

def string? (text : Text) : Option String :=
  (text.mapM CodePoint.character?).map String.ofList

def separated (separator : Text) (parts : List Text) : Text :=
  separator.intercalate parts

theorem mapM_character_ofCharacters (characters : List Char) :
    (ofCharacters characters).mapM CodePoint.character? = some characters := by
  induction characters with
  | nil => rfl
  | cons first rest ih =>
      have step : (ofCharacters rest).mapM CodePoint.character? = some rest := ih
      simp only [ofCharacters, List.map_cons, List.mapM_cons] at step ⊢
      simp [CodePoint.character?, step]

theorem string?_ofString (text : String) : (ofString text).string? = some text := by
  simp [string?, ofString, mapM_character_ofCharacters]

theorem ofString_injective (first second : String) (same : ofString first = ofString second) :
    first = second := by
  have equal : (ofString first).string? = (ofString second).string? := by rw [same]
  simpa [string?_ofString] using equal

end Text

end Bella
