import Bella.Proofs.Decimal.Printed
import Bella.Proofs.Exchange.Values
import Bella.Proofs.Grammar.SourceNames
import Bella.Proofs.Origin.Functions

/-! The texts of the values that programs make. Main statement: what a program in source text prints
consists of printable characters, so each value takes one line. -/

namespace Bella

def CodePoint.isPrintable : CodePoint → Bool
  | .character value => decide (0x20 ≤ value.toNat ∧ value.toNat ≤ 0x7e)
  | .surrogate _ => false

def Text.Every (holds : CodePoint → Prop) (text : Text) : Prop :=
  ∀ point ∈ text, holds point

def Text.IsPrintable (text : Text) : Prop :=
  text.Every fun point => point.isPrintable = true

theorem isPrintable_of_isAlphanum {character : Char} (plain : character.isAlphanum = true) :
    (CodePoint.character character).isPrintable = true := by
  have bounds := toNat_of_isAlphanum plain
  simp only [CodePoint.isPrintable, decide_eq_true_eq]
  omega

theorem isPrintable_of_isNameCharacter {character : Char}
    (named : Source.isNameCharacter character = true) :
    (CodePoint.character character).isPrintable = true := by
  rcases Bool.or_eq_true _ _ ▸ named with plain | underscore
  · exact isPrintable_of_isAlphanum plain
  · rw [beq_iff_eq.mp underscore]
    decide

theorem isPrintable_of_isWordCharacter {character : Char}
    (word : Datum.isWordCharacter character = true) :
    (CodePoint.character character).isPrintable = true := by
  simp only [Datum.isWordCharacter, Bool.or_eq_true, beq_iff_eq] at word
  rcases word with ((plain | rfl) | rfl) | rfl
  · exact isPrintable_of_isAlphanum plain
  all_goals decide

theorem Text.isPrintable_ofCharacters {characters : List Char}
    (each : ∀ character ∈ characters, (CodePoint.character character).isPrintable = true) :
    (ofCharacters characters).IsPrintable := by
  intro point inside
  obtain ⟨character, written, rfl⟩ := List.mem_map.mp inside
  exact each character written

theorem number_text_isPrintable (number : Number) : (Text.ofString number.text).IsPrintable :=
  Text.isPrintable_ofCharacters fun character inside =>
    isPrintable_of_isWordCharacter (number.text_isWordCharacter character inside)

theorem isPrintable_ofString (text : String)
    (each : text.toList.all fun character => (CodePoint.character character).isPrintable) :
    (Text.ofString text).IsPrintable :=
  Text.isPrintable_ofCharacters (List.all_eq_true.mp each)

/-! Whatever holds of printable characters holds of the texts that are put together of them and of
names. -/

section

variable {holds : CodePoint → Prop} {text : Text}

namespace Text

theorem Every.mono {weaker : CodePoint → Prop} (every : text.Every holds)
    (implied : ∀ point, holds point → weaker point) : text.Every weaker :=
  fun point inside => implied point (every point inside)

theorem Every.append {more : Text} (first : text.Every holds) (second : more.Every holds) :
    (text ++ more).Every holds :=
  List.forall_mem_append.mpr ⟨first, second⟩

theorem Every.separated {separator : Text} {parts : List Text} (between : separator.Every holds)
    (each : ∀ part ∈ parts, part.Every holds) : (Text.separated separator parts).Every holds := by
  induction parts with
  | nil => exact List.forall_mem_nil _
  | cons part rest ih =>
      obtain ⟨first, others⟩ := List.forall_mem_cons.mp each
      cases rest with
      | nil =>
          rw [Text.separated, List.intercalate_singleton]
          exact first
      | cons next rest =>
          rw [Text.separated, List.intercalate_cons_cons]
          exact (first.append between).append (ih others)

end Text

variable (printable : ∀ point : CodePoint, point.isPrintable = true → holds point)

include printable

theorem every_ofString (text : String)
    (each : text.toList.all fun character => (CodePoint.character character).isPrintable) :
    (Text.ofString text).Every holds :=
  (isPrintable_ofString text each).mono printable

theorem functionText_every {label name : Text} (first : label.Every holds) (second : name.Every holds) :
    (Value.functionText label name).Every holds := by
  have opened := (every_ofString printable "<" rfl).append first
  have named := (opened.append (every_ofString printable " " rfl)).append second
  exact named.append (every_ofString printable ">" rfl)

theorem Value.Made.text_every {declared : Datum → List Datum → Node → Prop} {value : Value}
    (made : value.Made declared)
    (names : ∀ name parameters body, declared name parameters body → name.display.Every holds) :
    value.text.Every holds := by
  induction made with
  | number value => exact (number_text_isPrintable value).mono printable
  | boolean value => cases value <;> exact every_ofString printable _ rfl
  | @array items _ ih =>
      have each : ∀ text ∈ Value.texts items, text.Every holds := by
        rw [Value.texts_eq_map]
        exact List.forall_mem_map.mpr ih
      have between := (every_ofString printable ", " rfl).separated each
      exact ((every_ofString printable "[" rfl).append between).append (every_ofString printable "]" rfl)
  | builtin function =>
      have label := every_ofString printable "builtin" rfl
      refine functionText_every printable label (every_ofString printable function.name ?_)
      cases function <;> rfl
  | @function name parameters body known =>
      have label := every_ofString printable "function" rfl
      exact functionText_every printable label (names name parameters body known)

end

theorem Source.IsWord.isPrintable {name : String} (word : Source.IsWord name) :
    (Text.ofString name).IsPrintable :=
  Text.isPrintable_ofCharacters fun character inside =>
    isPrintable_of_isNameCharacter (word.characters character inside)

theorem output_isPrintable {source : String} {program : Node}
    (parsed : Source.parse source = .ok program) {level : Nat} {budget : Budget}
    {output : List Value} (ran : (run level budget program .initial).result = .ok output) :
    ∀ value ∈ output, value.text.IsPrintable := by
  obtain ⟨statements, line, final, rfl, arrives, rfl⟩ := run_arrives ran
  obtain ⟨-, each⟩ := Source.parse_isSourceProgram parsed
  have source := Source.forall_simpleStatementsOfAll.mpr fun statement inside =>
    (each statement inside).simple
  have made := arrives.made ⟨initial_made, List.forall_mem_nil _⟩
  intro value inside
  refine (made.2 value inside).text_every (fun _ same => same) fun name parameters body declared => ?_
  have written := source _ (arrives.occurs _ (List.mem_append_left _ declared.1))
  generalize parameters.map Node.identifier = nodes at written
  cases written with
  | functionDeclaration word => exact word.isPrintable

end Bella
