import Bella.Datum.Reader
import Bella.Proofs.Decimal.Shortest
import Bella.Proofs.Grammar.Literal
import Mathlib.Tactic.IntervalCases

/-! Written numbers. Their digits stand around a point or before an exponent, and documents read them
part by part. Main statement: the word that a number is written as in a document is read as the number. -/

namespace Bella

open Number

def Digital (characters : List Char) : Prop :=
  ∀ character ∈ characters, character.isDigit = true

def Leading (digits : List Char) : Prop :=
  digits = ['0'] ∨ ∃ first rest, digits = first :: rest ∧ first ≠ '0'

def pointed : List Char → List Char
  | [] => []
  | digits => '.' :: digits

def exponentText (power : Int) : List Char :=
  'e' :: (if power < 0 then '-' else '+') ::
    (if (Nat.toDigits 10 power.natAbs).length < 2 then '0' :: Nat.toDigits 10 power.natAbs
      else Nat.toDigits 10 power.natAbs)

inductive Powered : List Char → Int → Prop
  | plain : Powered [] 0
  | scaled (power : Int) : Powered (exponentText power) power

section

variable {whole fraction exponent digits rest : List Char} {power : Int}

theorem isAsciiDigit_eq (character : Char) : Datum.isAsciiDigit character = character.isDigit := by
  rw [Datum.isAsciiDigit, Char.isDigit, Bool.decide_and]
  rfl

theorem takeWhile_digits (digital : Digital digits)
    (stops : ∀ character ∈ rest.head?, character.isDigit = false) :
    (digits ++ rest).takeWhile Datum.isAsciiDigit = digits := by
  have each : ∀ character ∈ digits, Datum.isAsciiDigit character = true := fun character inside =>
    (isAsciiDigit_eq character).trans (digital character inside)
  rw [List.takeWhile_append_of_pos each]
  cases rest with
  | nil => simp
  | cons first others =>
      have stop : Datum.isAsciiDigit first = false :=
        (isAsciiDigit_eq first).trans (stops first rfl)
      rw [List.takeWhile_cons, stop]
      simp

theorem digital_toDigits (value : Nat) : Digital (Nat.toDigits 10 value) :=
  fun _ inside => Nat.isDigit_of_mem_toDigits (by decide) (by decide) inside

theorem exponentDigits (power : Int) :
    ∃ sign digits, exponentText power = 'e' :: sign :: digits ∧ digits ≠ [] ∧ Digital digits ∧
      Nat.ofDigitChars 10 digits 0 = power.natAbs ∧
      (power < 0 ∧ sign = '-' ∨ ¬ power < 0 ∧ sign = '+') := by
  have value : Nat.ofDigitChars 10 (Nat.toDigits 10 power.natAbs) 0 = power.natAbs :=
    Nat.ofDigitChars_toDigits (by decide) (by decide)
  have signed : power < 0 ∧ (if power < 0 then '-' else '+') = '-' ∨
      ¬ power < 0 ∧ (if power < 0 then '-' else '+') = '+' := by
    by_cases negative : power < 0
    · exact .inl ⟨negative, if_pos negative⟩
    · exact .inr ⟨negative, if_neg negative⟩
  by_cases short : (Nat.toDigits 10 power.natAbs).length < 2
  · refine ⟨_, '0' :: Nat.toDigits 10 power.natAbs, ?_, List.cons_ne_nil _ _,
      List.forall_mem_cons.mpr ⟨by decide, digital_toDigits _⟩, ?_, signed⟩
    · rw [exponentText, if_pos short]
    · rw [Nat.ofDigitChars_cons]
      exact value
  · refine ⟨_, Nat.toDigits 10 power.natAbs, ?_, Nat.toDigits_ne_nil, digital_toDigits _, value, signed⟩
    rw [exponentText, if_neg short]

theorem Powered.stops (powered : Powered exponent power) :
    ∀ character ∈ exponent.head?, character.isDigit = false := by
  cases powered with
  | plain => simp
  | scaled power =>
      intro character found
      obtain rfl := Option.some.inj found
      decide

theorem Powered.isExponent (powered : Powered exponent power) : Source.Exponent exponent := by
  cases powered with
  | plain => exact .inl rfl
  | scaled power =>
      obtain ⟨sign, digits, written, filled, digital, -, signed⟩ := exponentDigits power
      refine .inr ⟨'e', [sign], digits, written, .inl rfl, ?_, filled, fun character inside =>
        Source.isDigit_of_common (digital character inside)⟩
      rcases signed with ⟨-, rfl⟩ | ⟨-, rfl⟩
      · exact .inr (.inr rfl)
      · exact .inr (.inl rfl)

theorem Powered.read (powered : Powered exponent power) : readExponent? exponent = some power := by
  cases powered with
  | plain => rfl
  | scaled power =>
      obtain ⟨sign, digits, written, filled, digital, value, signed⟩ := exponentDigits power
      have run : Source.Digits digits :=
        ⟨filled, fun character inside => Source.isDigit_of_common (digital character inside)⟩
      obtain ⟨first, others, values⟩ := List.exists_cons_of_ne_nil run.values_ne_nil
      have sum : digitsValue (first :: others) = power.natAbs := by
        rw [← values, digitsValue_ofDigitChars digital, value]
      have whole : digitRun digits = (first :: others, []) := by
        rw [run.run, values]
      rw [written]
      rcases signed with ⟨negative, rfl⟩ | ⟨positive, rfl⟩
      · simp only [readExponent?, true_or, if_true, whole, sum]
        congr 1
        omega
      · simp only [readExponent?, true_or, if_true, whole, sum, Bool.false_eq_true, if_false]
        congr 1
        omega

theorem Powered.part (powered : Powered exponent power) : Datum.exponentPart exponent = exponent := by
  cases powered with
  | plain => rfl
  | scaled power =>
      obtain ⟨sign, digits, written, filled, digital, -, signed⟩ := exponentDigits power
      have all : digits.takeWhile Datum.isAsciiDigit = digits := by
        have stops : ∀ character ∈ ([] : List Char).head?, character.isDigit = false := nofun
        have taken := takeWhile_digits digital stops
        rwa [List.append_nil] at taken
      obtain ⟨first, others, rfl⟩ := List.exists_cons_of_ne_nil filled
      rw [written]
      rcases signed with ⟨-, rfl⟩ | ⟨-, rfl⟩
      · simp only [Datum.exponentPart, true_or, if_true, List.length_singleton, List.drop_one,
          List.tail_cons, all, List.cons_append, List.nil_append]
      · simp only [Datum.exponentPart, true_or, if_true, List.length_singleton, List.drop_one,
          List.tail_cons, all, List.cons_append, List.nil_append]

theorem Leading.part (leading : Leading whole) (digital : Digital whole)
    (stops : ∀ character ∈ rest.head?, character.isDigit = false) :
    Datum.wholePart (whole ++ rest) = whole := by
  rcases leading with rfl | ⟨first, others, rfl, nonzero⟩
  · rfl
  · refine Eq.trans ?_ (takeWhile_digits digital stops)
    rw [List.cons_append, Datum.wholePart]
    rintro tail same
    exact nonzero (List.cons.inj same).1

theorem fractionPart_pointed (digital : Digital fraction) (powered : Powered exponent power) :
    Datum.fractionPart (pointed fraction ++ exponent) = pointed fraction := by
  cases fraction with
  | nil =>
      cases powered with
      | plain => rfl
      | scaled power => rfl
  | cons first others =>
      have taken := takeWhile_digits digital powered.stops
      rw [List.cons_append] at taken
      simp only [pointed, List.cons_append, Datum.fractionPart, taken]

theorem pointed_stops (powered : Powered exponent power) :
    ∀ character ∈ (pointed fraction ++ exponent).head?, character.isDigit = false := by
  cases fraction with
  | nil => exact powered.stops
  | cons first others =>
      intro character found
      obtain rfl := Option.some.inj found
      decide

theorem numeralFront?_parts (leading : Leading whole) (integral : Digital whole)
    (fractional : Digital fraction) (powered : Powered exponent power) :
    Datum.numeralFront? (whole ++ (pointed fraction ++ exponent)) =
      some ⟨whole ++ (pointed fraction ++ exponent), fraction.isEmpty && exponent.isEmpty, []⟩ := by
  have filled : whole ≠ [] := by
    rcases leading with rfl | ⟨first, others, rfl, -⟩ <;> exact List.cons_ne_nil _ _
  obtain ⟨first, others, cons⟩ := List.exists_cons_of_ne_nil filled
  rw [Datum.numeralFront?, leading.part integral (pointed_stops powered), cons]
  dsimp only
  rw [← cons, List.drop_left, fractionPart_pointed fractional powered, List.drop_left, powered.part,
    List.drop_length, List.append_assoc]
  cases fraction <;> rfl

theorem length_values (digital : Digital digits) :
    (digits.filterMap Text.digitValue?).length = digits.length := by
  induction digits with
  | nil => rfl
  | cons first others ih =>
      obtain ⟨here, later⟩ := List.forall_mem_cons.mp digital
      rw [List.filterMap_cons, digitValue?_of_isDigit here, List.length_cons, ih later,
        List.length_cons]

theorem readDecimal?_written (filled : whole ≠ []) (integral : Digital whole)
    (fractional : Digital fraction) (powered : Powered exponent power) :
    readDecimal? (whole ++ (pointed fraction ++ exponent)) =
      some ⟨Nat.ofDigitChars 10 (whole ++ fraction) 0, power - fraction.length⟩ := by
  have common {digits : List Char} (digital : Digital digits) (filled : digits ≠ []) :
      Source.Digits digits :=
    ⟨filled, fun character inside => Source.isDigit_of_common (digital character inside)⟩
  have point : Source.Fraction (pointed fraction) := by
    cases fraction with
    | nil => exact .inl rfl
    | cons first others => exact .inr ⟨_, rfl, common fractional (List.cons_ne_nil _ _)⟩
  have tail : (pointed fraction).tail = fraction := by
    cases fraction <;> rfl
  have all : Digital (whole ++ fraction) := by
    intro character inside
    exact (List.mem_append.mp inside).elim (integral character) (fractional character)
  rw [Source.readDecimal?_parts (common integral filled) point powered.isExponent, powered.read, tail,
    digitsValue_ofDigitChars all, length_values fractional]
  rfl

theorem readNumeral_written (negative : Bool) (leading : Leading whole) (integral : Digital whole)
    (fractional : Digital fraction) (powered : Powered exponent power)
    (real : fraction ≠ [] ∨ exponent ≠ []) :
    Datum.readNumeral negative (whole ++ (pointed fraction ++ exponent)) =
      .ok (.real (ofDecimal negative
        ⟨Nat.ofDigitChars 10 (whole ++ fraction) 0, power - fraction.length⟩)) := by
  have filled : whole ≠ [] := by
    rcases leading with rfl | ⟨first, others, rfl, -⟩ <;> exact List.cons_ne_nil _ _
  have notWhole : (fraction.isEmpty && exponent.isEmpty) = false := by
    rcases real with some | some <;> simp [some]
  rw [Datum.readNumeral, numeralFront?_parts leading integral fractional powered, notWhole]
  simp [readDecimal?_written filled integral fractional powered]

theorem toDigits_leading {value : Nat} (filled : value ≠ 0) :
    ∃ first rest, Nat.toDigits 10 value = first :: rest ∧ first ≠ '0' := by
  induction value using Nat.strongRecOn with
  | ind value ih =>
      by_cases digit : value < 10
      · refine ⟨value.digitChar, [], Nat.toDigits_of_lt_base digit, ?_⟩
        interval_cases value <;> simp_all
      · obtain ⟨first, rest, written, nonzero⟩ := ih (value / 10) (by omega) (by omega)
        refine ⟨first, rest ++ [(value % 10).digitChar], ?_, nonzero⟩
        rw [Nat.toDigits_of_base_le (by decide) (by omega), written, List.cons_append]

theorem digital_zeros (count : Nat) : Digital (zeros count) := by
  intro character inside
  obtain rfl := List.eq_of_mem_replicate inside
  decide

theorem Digital.append {others : List Char} (digital : Digital digits) (more : Digital others) :
    Digital (digits ++ others) := by
  intro character inside
  exact (List.mem_append.mp inside).elim (digital character) (more character)

theorem units_zeros (significand count : Nat) (power : Int) :
    Decimal.units ⟨10 ^ count * significand, power - count⟩ = Decimal.units ⟨significand, power⟩ := by
  have ten : (10 : ℚ) ^ count ≠ 0 := pow_ne_zero _ (by norm_num)
  have shifted : (10 ^ count * significand : ℚ) * (10 ^ power / 10 ^ count) = significand * 10 ^ power := by
    field_simp
  rw [Decimal.units, Decimal.units, Nat.cast_mul, Nat.cast_pow, zpow_sub₀ (by norm_num), zpow_natCast,
    Nat.cast_ofNat, shifted]

end

def fixedWords : List String := ["null", "true", "false", "NaN", "Infinity", "-Infinity"]

def IsWritten (characters : List Char) (decimal : Decimal) : Prop :=
  ∃ whole fraction exponent power, characters = whole ++ (pointed fraction ++ exponent) ∧
    Leading whole ∧ Digital whole ∧ Digital fraction ∧ Powered exponent power ∧
    (fraction ≠ [] ∨ exponent ≠ []) ∧
    Decimal.units ⟨Nat.ofDigitChars 10 (whole ++ fraction) 0, power - fraction.length⟩ = decimal.units

section

variable {significand : Nat} {digits : List Char}

theorem pointed_of_ne_nil (filled : digits ≠ []) : pointed digits = '.' :: digits := by
  cases digits with
  | nil => exact absurd rfl filled
  | cons first others => rfl

theorem ofDigitChars_zeros (count : Nat) (digits : List Char) :
    Nat.ofDigitChars 10 (zeros count ++ digits) 0 = Nat.ofDigitChars 10 digits 0 := by
  rw [Nat.ofDigitChars_append, zeros, Nat.ofDigitChars_replicate_zero, Nat.mul_zero]

structure Spells (digits : List Char) (significand : Nat) : Prop where
  digital : Digital digits
  leading : ∃ first rest, digits = first :: rest ∧ first ≠ '0'
  value : Nat.ofDigitChars 10 digits 0 = significand

theorem toDigits_spells (filled : significand ≠ 0) : Spells (Nat.toDigits 10 significand) significand :=
  ⟨digital_toDigits significand, toDigits_leading filled,
    Nat.ofDigitChars_toDigits (by decide) (by decide)⟩

theorem Spells.below (spells : Spells digits significand) (count : Nat) :
    IsWritten ('0' :: '.' :: (zeros count ++ digits)) ⟨significand, -(count + digits.length : Nat)⟩ := by
  obtain ⟨first, rest, written, -⟩ := spells.leading
  have later : zeros count ++ digits ≠ [] := by simp [written]
  refine ⟨['0'], zeros count ++ digits, [], 0, ?_, .inl rfl, List.forall_mem_singleton.mpr rfl,
    (digital_zeros count).append spells.digital, .plain, .inl later, ?_⟩
  · simp [pointed_of_ne_nil later]
  · have power : (0 : Int) - (zeros count ++ digits).length = -(count + digits.length : Nat) := by
      rw [List.length_append, zeros, List.length_replicate]
      omega
    rw [power, List.singleton_append]
    exact congrArg (fun value => Decimal.units ⟨value, _⟩)
      ((ofDigitChars_zeros (count + 1) digits).trans spells.value)

theorem Spells.above (spells : Spells digits significand) (count : Nat) :
    IsWritten (digits ++ zeros count ++ ['.', '0']) ⟨significand, count⟩ := by
  obtain ⟨first, rest, written, nonzero⟩ := spells.leading
  refine ⟨digits ++ zeros count, ['0'], [], 0, rfl, .inr ⟨first, rest ++ zeros count, ?_, nonzero⟩,
    spells.digital.append (digital_zeros count), List.forall_mem_singleton.mpr rfl, .plain,
    .inl (List.cons_ne_nil _ _), ?_⟩
  · rw [written, List.cons_append]
  · have more : zeros count ++ ['0'] = zeros (count + 1) := List.replicate_succ'.symm
    have power : (0 : Int) - (['0'] : List Char).length = count - (count + 1 : Nat) := by
      simp only [List.length_singleton]
      omega
    rw [List.append_assoc, more, Nat.ofDigitChars_append, spells.value, zeros,
      Nat.ofDigitChars_replicate_zero, power, units_zeros]

theorem Spells.across (spells : Spells digits significand) {places : Nat} (some : 0 < places)
    (less : places < digits.length) :
    IsWritten (digits.take places ++ '.' :: digits.drop places)
      ⟨significand, -(digits.length - places : Nat)⟩ := by
  obtain ⟨first, rest, written, nonzero⟩ := spells.leading
  have later : digits.drop places ≠ [] := by
    rw [ne_eq, List.drop_eq_nil_iff]
    omega
  refine ⟨digits.take places, digits.drop places, [], 0, ?_,
    .inr ⟨first, rest.take (places - 1), ?_, nonzero⟩,
    fun _ found => spells.digital _ (List.mem_of_mem_take found),
    fun _ found => spells.digital _ (List.mem_of_mem_drop found), .plain, .inl later, ?_⟩
  · rw [pointed_of_ne_nil later, List.append_nil]
  · rw [written]
    exact List.take_cons some
  · rw [List.take_append_drop, spells.value, List.length_drop, zero_sub]

theorem Spells.positional (spells : Spells digits significand) (exponent : Int) :
    IsWritten (positional digits (digits.length + exponent)) ⟨significand, exponent⟩ := by
  generalize point : (digits.length + exponent : Int) = place
  cases place with
  | ofNat places =>
      rw [Int.ofNat_eq_natCast] at point
      rw [Number.positional]
      split
      · obtain rfl : exponent = -(0 + digits.length : Nat) := by omega
        exact spells.below 0
      split
      · obtain rfl : exponent = (places - digits.length : Nat) := by omega
        exact spells.above _
      · obtain rfl : exponent = -(digits.length - places : Nat) := by omega
        exact spells.across (by omega) (by omega)
  | negSucc places =>
      obtain rfl : exponent = -(places + 1 + digits.length : Nat) := by omega
      exact spells.below (places + 1)

theorem Spells.scientific (spells : Spells digits significand) (exponent : Int) :
    IsWritten (scientific digits (digits.length + exponent - 1)) ⟨significand, exponent⟩ := by
  obtain ⟨first, rest, rfl, nonzero⟩ := spells.leading
  obtain ⟨here, later⟩ := List.forall_mem_cons.mp spells.digital
  have power : (((first :: rest).length + exponent - 1 : Int) - rest.length) = exponent := by
    rw [List.length_cons]
    omega
  refine ⟨[first], rest, _, _, ?_, .inr ⟨first, [], rfl, nonzero⟩, List.forall_mem_singleton.mpr here,
    later, .scaled ((first :: rest).length + exponent - 1), .inr (List.cons_ne_nil _ _), ?_⟩
  · cases rest <;> rfl
  · rw [power, List.singleton_append, spells.value]

theorem IsWritten.first {decimal : Decimal} (written : IsWritten digits decimal) :
    ∃ first rest, digits = first :: rest ∧ first.isDigit = true := by
  obtain ⟨whole, fraction, exponent, power, rfl, leading, integral, -⟩ := written
  rcases leading with rfl | ⟨first, rest, rfl, -⟩
  · exact ⟨'0', _, rfl, rfl⟩
  · exact ⟨first, _, rfl, integral first List.mem_cons_self⟩

theorem toNat_of_isAlphanum {character : Char} (plain : character.isAlphanum = true) :
    0x30 ≤ character.toNat ∧ character.toNat ≤ 0x7a := by
  have code : character.toNat = character.val.toNat := rfl
  unfold Char.isAlphanum Char.isAlpha Char.isUpper Char.isLower Char.isDigit at plain
  simp only [Bool.or_eq_true, Bool.and_eq_true, decide_eq_true_eq, UInt32.le_iff_toNat_le,
    ge_iff_le] at plain
  have bounds : 'A'.val.toNat = 65 ∧ 'Z'.val.toNat = 90 ∧ 'a'.val.toNat = 97 ∧
    'z'.val.toNat = 122 ∧ '0'.val.toNat = 48 ∧ '9'.val.toNat = 57 := by decide
  omega

theorem Digital.isWordCharacter (digital : Digital digits) :
    ∀ character ∈ digits, Datum.isWordCharacter character = true := by
  intro character inside
  simp [Datum.isWordCharacter, Char.isAlphanum, digital character inside]

theorem IsWritten.isWordCharacter {decimal : Decimal} (written : IsWritten digits decimal) :
    ∀ character ∈ digits, Datum.isWordCharacter character = true := by
  obtain ⟨whole, fraction, exponent, power, rfl, -, integral, fractional, powered, -⟩ := written
  have point : ∀ character ∈ pointed fraction, Datum.isWordCharacter character = true := by
    cases fraction with
    | nil => exact nofun
    | cons first others => exact List.forall_mem_cons.mpr ⟨by decide, fractional.isWordCharacter⟩
  have end_ : ∀ character ∈ exponent, Datum.isWordCharacter character = true := by
    cases powered with
    | plain => exact nofun
    | scaled power =>
        obtain ⟨sign, digits, same, -, digital, -, signed⟩ := exponentDigits power
        rw [same]
        refine List.forall_mem_cons.mpr ⟨by decide, List.forall_mem_cons.mpr
          ⟨?_, digital.isWordCharacter⟩⟩
        rcases signed with ⟨-, rfl⟩ | ⟨-, rfl⟩ <;> decide
  intro character inside
  rcases List.mem_append.mp inside with inside | inside
  · exact integral.isWordCharacter character inside
  · exact (List.mem_append.mp inside).elim (point character) (end_ character)

theorem ofWord_unsigned {word : List Char} (other : ∀ fixed ∈ fixedWords, word ≠ fixed.toList)
    (unsigned : ∀ rest, word ≠ '-' :: rest) : Datum.ofWord word = Datum.readNumeral false word := by
  unfold Datum.ofWord
  simp only [fixedWords, List.forall_mem_cons] at other
  obtain ⟨notNull, notTrue, notFalse, notNan, notInfinity, notNegative, -⟩ := other
  rw [if_neg notNull, if_neg notTrue, if_neg notFalse, if_neg notNan, if_neg notInfinity,
    if_neg notNegative]
  split
  · exact absurd rfl (unsigned _)
  · rfl

theorem ofWord_signed {rest : List Char} (other : '-' :: rest ≠ "-Infinity".toList) :
    Datum.ofWord ('-' :: rest) = Datum.readNumeral true rest := by
  unfold Datum.ofWord
  rw [if_neg (by simp), if_neg (by simp), if_neg (by simp), if_neg (by simp), if_neg (by simp),
    if_neg other]
  rfl

/-- A digit begins no word with a meaning of its own. -/
theorem ofWord_numeral {first : Char} {rest : List Char} (negative : Bool)
    (digit : first.isDigit = true) :
    Datum.ofWord (if negative then '-' :: first :: rest else first :: rest) =
      Datum.readNumeral negative (first :: rest) := by
  have other (letter : Char) (nondigit : letter.isDigit = false) : first ≠ letter := by
    intro same
    rw [same, nondigit] at digit
    exact Bool.false_ne_true digit
  cases negative
  · refine ofWord_unsigned ?_ fun rest same => other '-' rfl (List.cons.inj same).1
    simp [fixedWords, other 'n' rfl, other 't' rfl, other 'f' rfl, other 'N' rfl, other 'I' rfl,
      other '-' rfl]
  · exact ofWord_signed (by simp [other 'I' rfl])

theorem IsWritten.ofWord {decimal : Decimal} (written : IsWritten digits decimal) (negative : Bool) :
    ∃ same : Decimal, same.units = decimal.units ∧
      Datum.ofWord (if negative then '-' :: digits else digits) =
        .ok (.real (ofDecimal negative same)) := by
  obtain ⟨first, rest, cons, digit⟩ := written.first
  rw [cons, ofWord_numeral negative digit, ← cons]
  obtain ⟨whole, fraction, exponent, power, rfl, leading, integral, fractional, powered, real, units⟩ :=
    written
  exact ⟨_, units, readNumeral_written negative leading integral fractional powered real⟩

theorem isWritten_of_filled {decimal : Decimal} (filled : decimal.significand ≠ 0) :
    IsWritten
      (if -4 < ((Nat.toDigits 10 decimal.significand).length + decimal.exponent : Int) ∧
          ((Nat.toDigits 10 decimal.significand).length + decimal.exponent : Int) ≤ 16 then
        positional (Nat.toDigits 10 decimal.significand)
          ((Nat.toDigits 10 decimal.significand).length + decimal.exponent)
      else scientific (Nat.toDigits 10 decimal.significand)
        ((Nat.toDigits 10 decimal.significand).length + decimal.exponent - 1))
      decimal := by
  split
  · exact (toDigits_spells filled).positional decimal.exponent
  · exact (toDigits_spells filled).scientific decimal.exponent

theorem finiteText_written (negative : Bool) {rank : Nat} (bound : rank < rankCount) :
    ∃ body decimal, finiteText negative rank = (if negative then '-' :: body else body) ∧
      IsWritten body decimal ∧
      ∀ same : Decimal, same.units = decimal.units →
        ofDecimal negative same = .finite negative ⟨rank, bound⟩ := by
  rcases Nat.eq_zero_or_pos rank with rfl | filled
  · refine ⟨['0', '.', '0'], ⟨0, -1⟩, ?_, ⟨['0'], ['0'], [], 0, rfl, .inl rfl, ?_, ?_, .plain,
      .inl (List.cons_ne_nil _ _), ?_⟩, fun same units => ?_⟩
    · rw [finiteText, if_pos rfl]
    · exact List.forall_mem_singleton.mpr rfl
    · exact List.forall_mem_singleton.mpr rfl
    · have none : Nat.ofDigitChars 10 (['0'] ++ ['0']) 0 = 0 := by decide
      simp only [Decimal.units, none, Nat.cast_zero, zero_mul]
    · have product : (same.significand : ℚ) * 10 ^ same.exponent * unitsPerOne = 0 := by
        simpa only [Decimal.units, Nat.cast_zero, zero_mul] using units
      have one : (unitsPerOne : ℚ) ≠ 0 := Nat.cast_ne_zero.mpr unitsPerOne_pos.ne'
      have scale : (10 : ℚ) ^ same.exponent ≠ 0 := zpow_ne_zero _ (by norm_num)
      have empty : same.significand = 0 := Nat.cast_eq_zero.mp
        ((mul_eq_zero.mp ((mul_eq_zero.mp product).resolve_right one)).resolve_right scale)
      rw [ofDecimal, if_pos (.inl empty)]
      rfl
  · have some : (shortestDecimal rank).significand ≠ 0 :=
      Decimal.filled_of_roundsTo filled (shortestDecimal_roundsTo filled)
    have nearest (same : Decimal) (units : same.units = (shortestDecimal rank).units) :
        ofDecimal negative same = .finite negative ⟨rank, bound⟩ :=
      ofDecimal_of_shortest negative filled bound units
    simp only [finiteText, if_neg (Nat.ne_of_gt filled)]
    exact ⟨_, shortestDecimal rank, rfl, isWritten_of_filled some, nearest⟩

theorem documentText_isWordCharacter (number : Number) :
    ∀ character ∈ number.documentText.toList, Datum.isWordCharacter character = true := by
  cases number with
  | nan => exact List.all_eq_true.mp rfl
  | infinite negative => cases negative <;> exact List.all_eq_true.mp rfl
  | finite negative rank =>
      obtain ⟨body, decimal, text, written, -⟩ := finiteText_written negative rank.isLt
      rw [documentText, String.toList_ofList, text]
      cases negative
      · exact written.isWordCharacter
      · exact List.forall_mem_cons.mpr ⟨by decide, written.isWordCharacter⟩

theorem ofWord_documentText (number : Number) :
    Datum.ofWord number.documentText.toList = .ok (.real number) := by
  cases number with
  | nan => rfl
  | infinite negative => cases negative <;> rfl
  | finite negative rank =>
      obtain ⟨body, decimal, text, written, nearest⟩ := finiteText_written negative rank.isLt
      obtain ⟨same, units, read⟩ := written.ofWord negative
      rw [documentText, String.toList_ofList, text, read, nearest same units]

end

end Bella
