import Bella.Proofs.Exact
import Bella.Proofs.Grammar.Numeral
import Bella.Number.Reading

/-! The numbers that numerals stand for: those without a sign, plus infinity among them. Every
numeral stands for one of them, and each of them has a numeral. -/

namespace Bella

namespace Number

def IsUnsigned : Number → Prop
  | .nan => False
  | .infinite negative | .finite negative _ => negative = false

section

variable {digits rest : List Char} {character : Char}

theorem digitRun_append (digital : ∀ character ∈ digits, Text.isDigit character = true)
    (stops : ∀ character ∈ rest.head?, Text.isDigit character = false) :
    digitRun (digits ++ rest) = (digits.filterMap Text.digitValue?, rest) := by
  induction digits with
  | nil =>
      cases rest with
      | nil => rfl
      | cons first others =>
          have none : Text.digitValue? first = none := by
            simpa [Text.isDigit] using stops first rfl
          simp only [List.nil_append, digitRun, none, List.filterMap_nil]
  | cons first others ih =>
      obtain ⟨value, read⟩ : ∃ value, Text.digitValue? first = some value :=
        Option.isSome_iff_exists.mp (digital first (List.mem_cons_self ..))
      have later := ih fun character found => digital character (List.mem_cons_of_mem _ found)
      simp only [List.cons_append, digitRun, read, later, List.filterMap_cons]

theorem ofRank_isUnsigned (rank : Nat) : (ofRank false rank).IsUnsigned := by
  rw [ofRank]
  split <;> rfl

theorem ofDecimal_isUnsigned (decimal : Decimal) : (ofDecimal false decimal).IsUnsigned := by
  simp only [ofDecimal]
  split
  · rfl
  split
  · rfl
  split
  · exact ofRank_isUnsigned _
  · exact ofRank_isUnsigned _

theorem digitValue?_of_isDigit (digit : character.isDigit = true) :
    Text.digitValue? character = some (character.toNat - '0'.toNat) := by
  obtain ⟨low, high⟩ := Char.isDigit_iff_toNat.mp digit
  have first : decide (0x30 ≤ character.toNat ∧ character.toNat < 0x30 + 10) = true :=
    decide_eq_true ⟨low, Nat.lt_succ_of_le high⟩
  simp only [Text.digitValue?, Text.digitZeros, List.find?_cons, first, Option.map_some]
  rfl

theorem digitsValue_ofDigitChars (digital : ∀ character ∈ digits, character.isDigit = true) :
    digitsValue (digits.filterMap Text.digitValue?) = Nat.ofDigitChars 10 digits 0 := by
  have run (sum : Nat) : (digits.filterMap Text.digitValue?).foldl
      (fun value digit => 10 * value + digit) sum = Nat.ofDigitChars 10 digits sum := by
    induction digits generalizing sum with
    | nil => rfl
    | cons first others ih =>
        rw [List.forall_mem_cons] at digital
        rw [List.filterMap_cons, digitValue?_of_isDigit digital.1, List.foldl_cons, ih digital.2,
          Nat.ofDigitChars_cons]
  exact run 0

end

end Number

namespace Source

open Number

section

variable {digits whole fraction exponent lexeme : List Char} {value : Number}

theorem Digits.values_ne_nil (digital : Digits digits) :
    digits.filterMap Text.digitValue? ≠ [] := by
  obtain ⟨first, others, rfl⟩ := List.exists_cons_of_ne_nil digital.1
  obtain ⟨value, read⟩ : ∃ value, Text.digitValue? first = some value :=
    Option.isSome_iff_exists.mp (digital.2 first (List.mem_cons_self ..))
  rw [List.filterMap_cons, read]
  exact List.cons_ne_nil _ _

theorem Digits.run (digital : Digits digits) :
    digitRun digits = (digits.filterMap Text.digitValue?, []) := by
  have ends : ∀ character ∈ ([] : List Char).head?, Text.isDigit character = false := nofun
  have run := digitRun_append digital.2 ends
  rwa [List.append_nil] at run

theorem Exponent.stops (exponential : Exponent exponent) :
    ∀ character ∈ exponent.head?, Text.isDigit character = false := by
  rcases exponential with rfl | ⟨mark, sign, digits, rfl, marked, -, -⟩
  · exact fun _ found => nomatch found
  · intro character found
    obtain rfl := Option.some.inj found
    rcases marked with rfl | rfl <;> decide

theorem readExponent?_isSome (exponential : Exponent exponent) :
    (readExponent? exponent).isSome := by
  rcases exponential with rfl | ⟨mark, sign, digits, rfl, marked, signs, digital⟩
  · rfl
  obtain ⟨first, others, values⟩ := List.exists_cons_of_ne_nil digital.values_ne_nil
  have run : digitRun digits = (first :: others, []) := by
    rw [digital.run, values]
  rcases signs with rfl | rfl | rfl
  · obtain ⟨character, tail, rfl⟩ := List.exists_cons_of_ne_nil digital.1
    have digit : Text.isDigit character = true := digital.2 character (List.mem_cons_self ..)
    have minus : character ≠ '-' := by
      rintro rfl
      exact absurd digit (by decide)
    have plus : character ≠ '+' := by
      rintro rfl
      exact absurd digit (by decide)
    simp [readExponent?, marked, minus, plus, run]
  · simp only [readExponent?, if_pos marked, List.cons_append, List.nil_append, run]
    rfl
  · simp only [readExponent?, if_pos marked, List.cons_append, List.nil_append, run]
    rfl

theorem readDecimal?_parts (digital : Digits whole) (fractional : Fraction fraction)
    (exponential : Exponent exponent) :
    readDecimal? (whole ++ (fraction ++ exponent)) = (readExponent? exponent).map fun power =>
      ⟨digitsValue ((whole ++ fraction.tail).filterMap Text.digitValue?),
        power - (fraction.tail.filterMap Text.digitValue?).length⟩ := by
  have filled : (whole.filterMap Text.digitValue?).isEmpty = false :=
    List.isEmpty_eq_false_iff.mpr digital.values_ne_nil
  rcases fractional with rfl | ⟨digits, rfl, fractional⟩
  · have run := digitRun_append digital.2 exponential.stops
    rcases exponential with rfl | ⟨mark, sign, digits, rfl, rfl | rfl, -⟩ <;>
      simp only [List.nil_append, readDecimal?, run, filled] <;> simp
  · have stops : ∀ character ∈ ('.' :: (digits ++ exponent)).head?,
        Text.isDigit character = false := by
      intro character found
      obtain rfl := Option.some.inj found
      decide
    rw [List.cons_append, readDecimal?, digitRun_append digital.2 stops]
    simp only [digitRun_append fractional.2 exponential.stops, filled, Bool.false_and,
      Bool.false_eq_true, if_false, List.tail_cons, List.filterMap_append]

theorem ofNumeral_isUnsigned (numerical : Numeral lexeme) : (ofNumeral lexeme).IsUnsigned := by
  obtain ⟨whole, fraction, exponent, rfl, digital, fractional, exponential⟩ := numerical
  obtain ⟨power, read⟩ := Option.isSome_iff_exists.mp (readExponent?_isSome exponential)
  rw [ofNumeral, readDecimal?_parts digital fractional exponential, read]
  exact ofDecimal_isUnsigned _

theorem isDigit_of_common {character : Char} (digit : character.isDigit = true) :
    Text.isDigit character = true := by
  rw [Text.isDigit, digitValue?_of_isDigit digit]
  rfl

theorem readDecimal?_toDigits (value : Nat) (exponential : Exponent exponent) :
    Numeral (Nat.toDigits 10 value ++ exponent) ∧
      readDecimal? (Nat.toDigits 10 value ++ exponent) =
        (readExponent? exponent).map fun power => ⟨value, power⟩ := by
  have common : ∀ character ∈ Nat.toDigits 10 value, character.isDigit = true :=
    fun character => Nat.isDigit_of_mem_toDigits (by decide) (by decide)
  have digital : Digits (Nat.toDigits 10 value) :=
    ⟨Nat.toDigits_ne_nil, fun character found => isDigit_of_common (common character found)⟩
  have written : digitsValue ((Nat.toDigits 10 value).filterMap Text.digitValue?) = value := by
    rw [digitsValue_ofDigitChars common, Nat.ofDigitChars_toDigits (by decide) (by decide)]
  refine ⟨⟨_, [], exponent, rfl, digital, .inl rfl, exponential⟩, ?_⟩
  have parts := readDecimal?_parts digital (.inl rfl) exponential
  simpa [written] using parts

/-- Each number without a sign has a numeral: a power of ten that is too large for infinity, and all
of its places for a finite one. -/
theorem exists_numeral (unsigned : value.IsUnsigned) :
    ∃ lexeme, Numeral lexeme ∧ ofNumeral lexeme = value := by
  have exponential {digits : List Char} (digital : Digits digits) (sign : List Char)
      (signs : sign = [] ∨ sign = ['-']) : Exponent ('e' :: (sign ++ digits)) :=
    .inr ⟨'e', sign, digits, rfl, .inl rfl, signs.imp_right .inr, digital⟩
  cases value with
  | nan => exact unsigned.elim
  | infinite negative =>
      obtain rfl : negative = false := unsigned
      have nines : Digits ['9', '9', '9'] := ⟨List.cons_ne_nil _ _, List.all_eq_true.mp rfl⟩
      have large : Exponent ['e', '9', '9', '9'] := exponential nines [] (.inl rfl)
      obtain ⟨numerical, read⟩ := readDecimal?_toDigits 1 large
      refine ⟨_, numerical, ?_⟩
      rw [ofNumeral, read]
      decide
  | finite negative rank =>
      obtain rfl : negative = false := unsigned
      have places : Digits ['1', '0', '7', '4'] := ⟨List.cons_ne_nil _ _, List.all_eq_true.mp rfl⟩
      have small : Exponent ['e', '-', '1', '0', '7', '4'] := exponential places ['-'] (.inr rfl)
      obtain ⟨numerical, read⟩ := readDecimal?_toDigits (magnitude rank * 5 ^ 1074) small
      have power : readExponent? ['e', '-', '1', '0', '7', '4'] = some (.negSucc 1073) := by decide
      refine ⟨_, numerical, ?_⟩
      rw [ofNumeral, read, power]
      exact ofDecimal_exact false rank

end

end Source

end Bella
