import Bella.Proofs.Arithmetic.Rational
import Bella.Proofs.Decimal.Fewest

/-! Printed numbers. Their texts are words with neither blanks nor underscores, so nothing of them is
lost when they are read. Main statement: the text that a number is printed as is read as that number, or
as zero if it is one. -/

namespace Bella.Number

def withoutSignOfZero (number : Number) : Number :=
  if number.isZero then zero false else number

/-- What the text of a finite number shows: all digits of a whole number that is not large, and else the
digits of a decimal that goes to the number, as few as there can be. -/
structure IsPrinted (number : Number) : Prop where
  whole : ∀ value : ℤ, number.rational? = some (value : ℚ) → value.natAbs < 10 ^ 21 →
    number.text = String.ofList (integerText value)
  shortest : ∀ value, number.rational? = some value →
    (∀ whole : ℤ, value = whole → 10 ^ 21 ≤ whole.natAbs) →
    ∃ negative body decimal, number.text = String.ofList (if negative then '-' :: body else body) ∧
      IsWritten body decimal ∧ ofDecimal negative decimal = number ∧
      ∀ other, ofDecimal negative other = number →
        decimalLength decimal.significand ≤ decimalLength other.significand

section

variable {characters body : List Char} {negative : Bool} {number : Number}

theorem not_isNumeralBlank {character : Char} (word : Datum.isWordCharacter character = true) :
    Text.isNumeralBlank character = false := by
  simp only [Datum.isWordCharacter, Bool.or_eq_true, beq_iff_eq] at word
  rcases word with ((plain | rfl) | rfl) | rfl
  · have bounds := toNat_of_isAlphanum plain
    simp only [Text.isNumeralBlank, Bool.or_eq_false_iff, decide_eq_false_iff_not, beq_eq_false_iff_ne]
    omega
  all_goals decide

theorem trimBlanks_word (word : ∀ character ∈ characters, Datum.isWordCharacter character = true) :
    trimBlanks characters = characters := by
  have kept (characters : List Char)
      (word : ∀ character ∈ characters, Datum.isWordCharacter character = true) :
      characters.dropWhile Text.isNumeralBlank = characters := by
    cases characters with
    | nil => rfl
    | cons first rest =>
        rw [List.dropWhile_cons, not_isNumeralBlank (word first List.mem_cons_self)]
        rfl
  rw [trimBlanks, kept characters word, kept characters.reverse, List.reverse_reverse]
  exact fun character inside => word character (List.mem_reverse.mp inside)

theorem joinDigits?_word (previous : Bool)
    (word : ∀ character ∈ characters, Datum.isWordCharacter character = true) :
    joinDigits? previous characters = some characters := by
  induction characters generalizing previous with
  | nil => rw [joinDigits?]
  | cons first rest ih =>
      obtain ⟨here, later⟩ := List.forall_mem_cons.mp word
      have other : first ≠ '_' := by
        rintro rfl
        exact absurd here (by decide)
      rw [joinDigits?, ih _ later, Option.map_some]
      exact other

theorem toLower_of_isDigit {character : Char} (digit : character.isDigit = true) :
    character.toLower = character := by
  obtain ⟨low, high⟩ := Char.isDigit_iff_toNat.mp digit
  have code : character.toNat = character.val.toNat := rfl
  have bounds : 'A'.val.toNat = 65 ∧ '9'.toNat = 57 := by decide
  have other : ¬('A'.val ≤ character.val ∧ character.val ≤ 'Z'.val) := by
    rw [UInt32.le_iff_toNat_le]
    omega
  exact dif_neg other

theorem readUnsigned?_digit {first : Char} {rest : List Char} (digit : first.isDigit = true) :
    readUnsigned? negative (first :: rest) =
      (readDecimal? (first :: rest)).map (ofDecimal negative) := by
  have other (letter : Char) (nondigit : letter.isDigit = false) : first.toLower ≠ letter := by
    rw [toLower_of_isDigit digit]
    rintro rfl
    exact Bool.false_ne_true (nondigit.symm.trans digit)
  rw [readUnsigned?, List.map_cons, if_neg (by simp [other 'n' rfl]), if_neg (by simp [other 'i' rfl])]

theorem read?_word (word : ∀ character ∈ body, Datum.isWordCharacter character = true)
    (starts : ∃ first rest, body = first :: rest ∧ first.isDigit = true) :
    read? (String.ofList (if negative then '-' :: body else body)) =
      (readDecimal? body).map (ofDecimal negative) := by
  obtain ⟨first, rest, rfl, digit⟩ := starts
  have unsigned := @readUnsigned?_digit negative first rest digit
  rw [read?, String.toList_ofList]
  cases negative with
  | true =>
      have all : ∀ character ∈ '-' :: first :: rest, Datum.isWordCharacter character = true :=
        List.forall_mem_cons.mpr ⟨by decide, word⟩
      rw [if_pos rfl, trimBlanks_word all, joinDigits?_word _ all]
      exact unsigned
  | false =>
      have other (sign : Char) (nondigit : sign.isDigit = false) : first ≠ sign := by
        rintro rfl
        exact Bool.false_ne_true (nondigit.symm.trans digit)
      rw [if_neg Bool.false_ne_true, trimBlanks_word word, joinDigits?_word _ word]
      split
      · rename_i none
        cases none
      · rename_i minus
        exact absurd (List.cons.inj (Option.some.inj minus)).1 (other '-' rfl)
      · rename_i plus
        exact absurd (List.cons.inj (Option.some.inj plus)).1 (other '+' rfl)
      · rename_i same
        obtain rfl := Option.some.inj same
        exact unsigned

theorem read?_finiteText (negative : Bool) (rank : Fin rankCount) :
    read? (String.ofList (finiteText negative rank)) = some (.finite negative rank) := by
  obtain ⟨body, decimal, text, written, nearest⟩ := finiteText_written negative rank.isLt
  rw [text, read?_word written.isWordCharacter written.first]
  obtain ⟨whole, fraction, exponent, power, rfl, leading, integral, fractional, powered, -, units⟩ :=
    written
  have filled : whole ≠ [] := by
    rcases leading with rfl | ⟨first, others, rfl, -⟩ <;> exact List.cons_ne_nil _ _
  rw [readDecimal?_written filled integral fractional powered, Option.map_some, nearest _ units]

theorem read?_integerText (value : Int) :
    read? (String.ofList (integerText value)) =
      some (ofDecimal (decide (value < 0)) ⟨value.natAbs, 0⟩) := by
  have signed : integerText value = if decide (value < 0) then '-' :: Nat.toDigits 10 value.natAbs
      else Nat.toDigits 10 value.natAbs := by
    simp only [integerText, decide_eq_true_eq]
  have digital := digital_toDigits value.natAbs
  have starts : ∃ first rest, Nat.toDigits 10 value.natAbs = first :: rest ∧ first.isDigit = true := by
    obtain ⟨first, rest, cons⟩ :=
      List.exists_cons_of_ne_nil (Nat.toDigits_ne_nil (b := 10) (n := value.natAbs))
    exact ⟨first, rest, cons, digital first (cons ▸ List.mem_cons_self)⟩
  have read := (Source.readDecimal?_toDigits value.natAbs (.inl rfl)).2
  rw [List.append_nil] at read
  rw [signed, read?_word digital.isWordCharacter starts, read]
  rfl

theorem ofDecimal_whole {value : Int} (known : number.rational? = some (value : ℚ)) :
    ofDecimal (decide (value < 0)) ⟨value.natAbs, 0⟩ = number.withoutSignOfZero := by
  have below := isNegative_iff known
  obtain ⟨negative, rank, rfl, same⟩ := exists_of_rational? known
  by_cases least : rank.val = 0
  · obtain rfl : value = 0 := by
      exact_mod_cast Option.some.inj (known.symm.trans (rational?_least least))
    rw [withoutSignOfZero, if_pos (isZero_finite.mpr least)]
    exact ofDecimal_zero false rfl
  · have sign : decide (value < 0) = negative := by
      rw [Bool.eq_iff_iff, decide_eq_true_iff, ← Int.cast_lt_zero (R := ℚ), ← below, isNegative_finite]
      simp [least]
    have size : ((value.natAbs * unitsPerOne : Nat) : ℚ) = magnitude rank := by
      have absolute := abs_signed_magnitude negative rank
      rw [← same, ← Int.cast_abs, eq_div_iff unitsPerOne_pos_rat.ne', Int.abs_eq_natAbs] at absolute
      exact_mod_cast absolute
    have units : Decimal.units ⟨value.natAbs, 0⟩ = magnitude rank := by
      rw [← size, Decimal.units, zpow_zero, mul_one, Nat.cast_mul]
    have filled := Nat.pos_of_ne_zero least
    rw [withoutSignOfZero, if_neg (mt isZero_finite.mp least), sign]
    exact ofDecimal_of_roundsTo negative filled rank.isLt (units ▸ roundsTo_magnitude filled)

theorem text_finite (negative : Bool) (rank : Fin rankCount) :
    (∃ value : Int, rational? (.finite negative rank) = some (value : ℚ) ∧ value.natAbs < 10 ^ 21 ∧
      text (.finite negative rank) = String.ofList (integerText value)) ∨
    (∀ value : Int, rational? (.finite negative rank) = some (value : ℚ) → 10 ^ 21 ≤ value.natAbs) ∧
      text (.finite negative rank) = String.ofList (finiteText negative rank) := by
  rw [text]
  split
  · rename_i value whole
    have known := integer?_eq_some.mp whole
    split
    · rename_i small
      exact .inl ⟨value, known, small, rfl⟩
    · rename_i large
      refine .inr ⟨fun other same => ?_, rfl⟩
      obtain rfl := Option.some.inj (whole.symm.trans (integer?_eq_some.mpr same))
      exact Nat.not_lt.mp large
  · rename_i fraction
    exact .inr ⟨fun value same => absurd same (integer?_eq_none.mp fraction value), rfl⟩

theorem text_isWordCharacter (number : Number) :
    ∀ character ∈ number.text.toList, Datum.isWordCharacter character = true := by
  have document := documentText_isWordCharacter number
  cases number with
  | nan => exact document
  | infinite negative => exact document
  | finite negative rank =>
      rcases text_finite negative rank with ⟨value, -, -, same⟩ | ⟨-, same⟩
      · have digital := (digital_toDigits value.natAbs).isWordCharacter
        rw [same, String.toList_ofList, integerText]
        split
        · exact List.forall_mem_cons.mpr ⟨by decide, digital⟩
        · exact digital
      · rw [same]
        exact document

theorem read?_text (number : Number) : read? number.text = some number.withoutSignOfZero := by
  cases number with
  | nan => decide
  | infinite negative => cases negative <;> decide
  | finite negative rank =>
      rcases text_finite negative rank with ⟨value, known, -, same⟩ | ⟨large, same⟩
      · rw [same, read?_integerText, ofDecimal_whole known]
      · have filled : isZero (.finite negative rank) ≠ true := by
          intro least
          exact absurd (large 0 (rational?_eq_zero.mpr least)) (by decide)
        rw [same, read?_finiteText, withoutSignOfZero, if_neg filled]

theorem isPrinted (number : Number) : number.IsPrinted where
  whole value known small := by
    obtain ⟨negative, rank, rfl, -⟩ := exists_of_rational? known
    rcases text_finite negative rank with ⟨other, same, -, text⟩ | ⟨large, -⟩
    · obtain rfl : other = value := by exact_mod_cast Option.some.inj (same.symm.trans known)
      exact text
    · exact absurd small (Nat.not_lt.mpr (large value known))
  shortest value known large := by
    obtain ⟨negative, rank, rfl, -⟩ := exists_of_rational? known
    rcases text_finite negative rank with ⟨whole, same, small, -⟩ | ⟨-, text⟩
    · have equal := Option.some.inj (known.symm.trans same)
      exact absurd small (Nat.not_lt.mpr (large whole equal))
    · have filled : 0 < rank.val := by
        by_contra least
        have zero : value = (0 : ℤ) := by
          have null := @rational?_least negative rank (Nat.eq_zero_of_not_pos least)
          exact (Option.some.inj (known.symm.trans null)).trans Int.cast_zero.symm
        exact absurd (large 0 zero) (by decide)
      have written := Decimal.filled_of_roundsTo filled (shortestDecimal_roundsTo filled)
      refine ⟨negative, _, shortestDecimal rank, ?_, isWritten_of_filled written,
        ofDecimal_of_shortest negative filled rank.isLt rfl,
        fun other read => shortestDecimal_fewest filled rank.isLt read⟩
      rw [text, finiteText]
      simp only [if_neg filled.ne']

end

end Bella.Number
