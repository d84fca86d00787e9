import Bella.Source.Terminal

/-! The numerals of source text, and that a scan finds the longest one. Digits, fraction and exponent
are each taken as far as they go; no other choice reads further, since a part that is given up early
is followed by a character that starts no later part. -/

namespace Bella.Source

def Digits (characters : List Char) : Prop :=
  characters ≠ [] ∧ ∀ character ∈ characters, Text.isDigit character = true

def Fraction (characters : List Char) : Prop :=
  characters = [] ∨ ∃ digits, characters = '.' :: digits ∧ Digits digits

def Exponent (characters : List Char) : Prop :=
  characters = [] ∨ ∃ mark sign digits, characters = mark :: (sign ++ digits) ∧
    (mark = 'e' ∨ mark = 'E') ∧ (sign = [] ∨ sign = ['+'] ∨ sign = ['-']) ∧ Digits digits

def Numeral (characters : List Char) : Prop :=
  ∃ whole fraction exponent, characters = whole ++ (fraction ++ exponent) ∧
    Digits whole ∧ Fraction fraction ∧ Exponent exponent

section

variable {rest digits : List Char} {character : Char}

theorem digitsExtent_append (digit : ∀ character ∈ digits, Text.isDigit character = true)
    (rest : List Char) : digitsExtent (digits ++ rest) = digits.length + digitsExtent rest := by
  rw [digitsExtent, List.takeWhile_append_of_pos digit, List.length_append, digitsExtent]

theorem digitsExtent_eq_zero (other : Text.isDigit character = false) :
    digitsExtent (character :: rest) = 0 := by
  simp [digitsExtent, other]

theorem take_digitsExtent (rest : List Char) :
    rest.take (digitsExtent rest) = rest.takeWhile Text.isDigit :=
  (List.prefix_iff_eq_take.mp (List.takeWhile_prefix _)).symm

theorem digitsExtent_le (rest : List Char) : digitsExtent rest ≤ rest.length :=
  (List.takeWhile_prefix _).length_le

theorem isDigit_of_mem_take (found : character ∈ rest.take (digitsExtent rest)) :
    Text.isDigit character = true := by
  rw [take_digitsExtent] at found
  exact List.all_eq_true.mp List.all_takeWhile character found

theorem take_digits (some : digitsExtent rest ≠ 0) : Digits (rest.take (digitsExtent rest)) := by
  refine ⟨?_, fun character => isDigit_of_mem_take⟩
  intro none
  have length := List.length_take_of_le (digitsExtent_le rest)
  rw [none] at length
  exact some length.symm

theorem take_fractionExtent (rest : List Char) :
    Fraction (rest.take (fractionExtent rest)) ∧ fractionExtent rest ≤ rest.length := by
  unfold fractionExtent
  split
  · rename_i digits
    split
    · exact ⟨.inl rfl, Nat.zero_le _⟩
    · rename_i filled
      refine ⟨.inr ⟨_, rfl, take_digits filled⟩, ?_⟩
      exact Nat.succ_le_succ (digitsExtent_le digits)
  · exact ⟨.inl rfl, Nat.zero_le _⟩

def signExtent : List Char → Nat
  | '+' :: _ | '-' :: _ => 1
  | _ => 0

theorem exponentExtent_cons (mark : Char) (rest : List Char) :
    exponentExtent (mark :: rest) =
      if (mark = 'e' ∨ mark = 'E') ∧ digitsExtent (rest.drop (signExtent rest)) ≠ 0 then
        1 + signExtent rest + digitsExtent (rest.drop (signExtent rest))
      else 0 := by
  by_cases marked : mark = 'e' ∨ mark = 'E'
  · refine (if_pos marked).trans ?_
    split
    · rename_i none
      exact (if_neg fun both => both.2 none).symm
    · rename_i some
      exact (if_pos ⟨marked, some⟩).symm
  · exact (if_neg marked).trans (if_neg fun both => marked both.1).symm

theorem take_signExtent (rest : List Char) :
    (rest.take (signExtent rest) = [] ∨ rest.take (signExtent rest) = ['+'] ∨
      rest.take (signExtent rest) = ['-']) ∧ signExtent rest ≤ rest.length := by
  unfold signExtent
  split
  · exact ⟨.inr (.inl rfl), Nat.succ_le_succ (Nat.zero_le _)⟩
  · exact ⟨.inr (.inr rfl), Nat.succ_le_succ (Nat.zero_le _)⟩
  · exact ⟨.inl rfl, Nat.zero_le _⟩

theorem take_exponentExtent (rest : List Char) :
    Exponent (rest.take (exponentExtent rest)) ∧ exponentExtent rest ≤ rest.length := by
  cases rest with
  | nil => exact ⟨.inl rfl, Nat.le_refl 0⟩
  | cons mark rest =>
      rw [exponentExtent_cons]
      split
      · rename_i exponential
        obtain ⟨signs, signed⟩ := take_signExtent rest
        have digits := digitsExtent_le (rest.drop (signExtent rest))
        rw [List.length_drop] at digits
        refine ⟨.inr ⟨mark, rest.take (signExtent rest), _, ?_, exponential.1, signs,
          take_digits exponential.2⟩, ?_⟩
        · rw [Nat.add_assoc, Nat.add_comm 1, List.take_succ_cons, List.take_add]
        · simp only [List.length_cons]
          omega
      · exact ⟨.inl rfl, Nat.zero_le _⟩

theorem signExtent_eq_zero (digit : Text.isDigit character = true) :
    signExtent (character :: rest) = 0 := by
  unfold signExtent
  split
  · rename_i same
    obtain ⟨rfl, -⟩ := List.cons.inj same
    exact absurd digit (by decide)
  · rename_i same
    obtain ⟨rfl, -⟩ := List.cons.inj same
    exact absurd digit (by decide)
  · rfl

theorem signExtent_append {sign : List Char} (signs : sign = [] ∨ sign = ['+'] ∨ sign = ['-'])
    (digital : Digits digits) (rest : List Char) :
    signExtent (sign ++ (digits ++ rest)) = sign.length := by
  obtain ⟨first, others, rfl⟩ := List.exists_cons_of_ne_nil digital.1
  rcases signs with rfl | rfl | rfl
  · exact signExtent_eq_zero (digital.2 first (List.mem_cons_self ..))
  · rfl
  · rfl

theorem exponent_le {exponent : List Char} (exponential : Exponent exponent) (rest : List Char) :
    exponent.length ≤ exponentExtent (exponent ++ rest) := by
  rcases exponential with rfl | ⟨mark, sign, digits, rfl, marked, signs, digital⟩
  · exact Nat.zero_le _
  · have some : 0 < digits.length := List.length_pos_iff.mpr digital.1
    rw [List.cons_append, List.append_assoc, exponentExtent_cons, signExtent_append signs digital,
      List.drop_left, digitsExtent_append digital.2, if_pos ⟨marked, by omega⟩]
    simp only [List.length_cons, List.length_append]
    omega

theorem digitsExtent_exponent {exponent : List Char} (exponential : Exponent exponent)
    (some : digitsExtent (exponent ++ rest) ≠ 0) : exponent = [] := by
  rcases exponential with rfl | ⟨mark, sign, digits, rfl, marked, -, -⟩
  · rfl
  · refine absurd (digitsExtent_eq_zero ?_) some
    rcases marked with rfl | rfl <;> decide

theorem digitsExtent_fraction {fraction exponent : List Char} (fractional : Fraction fraction)
    (exponential : Exponent exponent)
    (some : digitsExtent (fraction ++ (exponent ++ rest)) ≠ 0) :
    fraction = [] ∧ exponent = [] := by
  rcases fractional with rfl | ⟨digits, rfl, -⟩
  · exact ⟨rfl, digitsExtent_exponent exponential some⟩
  · exact absurd (digitsExtent_eq_zero (by decide)) some

theorem fractionExtent_point (rest : List Char) :
    fractionExtent ('.' :: rest) = if digitsExtent rest = 0 then 0 else digitsExtent rest + 1 := by
  unfold fractionExtent
  split
  · rename_i digits same
    obtain rfl := (List.cons.inj same).2
    split
    · rename_i none
      rw [if_pos none]
    · rename_i some
      rw [if_neg some]
  · rename_i other
    exact absurd rfl (other rest)

theorem fractionExtent_exponent {exponent : List Char} (exponential : Exponent exponent)
    (filled : exponent ≠ []) : fractionExtent (exponent ++ rest) = 0 := by
  rcases exponential with rfl | ⟨mark, sign, digits, rfl, marked, -, -⟩
  · exact absurd rfl filled
  · rcases marked with rfl | rfl <;> rfl

theorem fraction_le {fraction exponent : List Char} (fractional : Fraction fraction)
    (exponential : Exponent exponent) (rest : List Char) :
    fraction.length + exponent.length ≤ fractionExtent (fraction ++ (exponent ++ rest)) +
      exponentExtent ((fraction ++ (exponent ++ rest)).drop
        (fractionExtent (fraction ++ (exponent ++ rest)))) := by
  rcases fractional with rfl | ⟨digits, rfl, digital⟩
  · by_cases filled : exponent = []
    · subst filled
      exact Nat.zero_le _
    · rw [List.nil_append, fractionExtent_exponent exponential filled, List.drop_zero,
        List.length_nil]
      exact Nat.add_le_add_left (exponent_le exponential rest) 0
  · have some : 0 < digits.length := List.length_pos_iff.mpr digital.1
    rw [List.cons_append, fractionExtent_point, digitsExtent_append digital.2, if_neg (by omega),
      List.drop_succ_cons, List.length_cons]
    by_cases none : digitsExtent (exponent ++ rest) = 0
    · simp only [none, Nat.add_zero, List.drop_left]
      exact Nat.add_le_add_left (exponent_le exponential rest) _
    · obtain rfl := digitsExtent_exponent exponential none
      rw [List.length_nil]
      omega

theorem take_numeralExtent (digit : Text.isDigit character = true) (rest : List Char) :
    Numeral (character :: rest.take (numeralExtent rest)) ∧ numeralExtent rest ≤ rest.length := by
  have whole := digitsExtent_le rest
  obtain ⟨fractional, fraction⟩ := take_fractionExtent (rest.drop (digitsExtent rest))
  obtain ⟨exponential, exponent⟩ := take_exponentExtent
    (rest.drop (digitsExtent rest + fractionExtent (rest.drop (digitsExtent rest))))
  rw [List.length_drop] at fraction exponent
  refine ⟨⟨character :: rest.take (digitsExtent rest), _, _, ?_, ⟨List.cons_ne_nil _ _, ?_⟩,
    fractional, exponential⟩, ?_⟩
  · simp only [numeralExtent, List.take_add, List.cons_append, List.append_assoc]
  · intro other found
    rcases List.mem_cons.mp found with rfl | found
    · exact digit
    · exact isDigit_of_mem_take found
  · rw [numeralExtent]
    omega

theorem numeral_le {numeral : List Char} (numerical : Numeral (character :: numeral))
    (rest : List Char) :
    Text.isDigit character = true ∧ numeral.length ≤ numeralExtent (numeral ++ rest) := by
  obtain ⟨whole, fraction, exponent, split, ⟨filled, digital⟩, fractional, exponential⟩ := numerical
  obtain ⟨first, others, rfl⟩ := List.exists_cons_of_ne_nil filled
  have parts : character = first ∧ numeral = others ++ (fraction ++ exponent) :=
    List.cons.inj split
  obtain ⟨rfl, rfl⟩ := parts
  refine ⟨digital _ (List.mem_cons_self ..), ?_⟩
  have later : ∀ character ∈ others, Text.isDigit character = true :=
    fun character found => digital character (List.mem_cons_of_mem _ found)
  simp only [numeralExtent, List.append_assoc, List.length_append]
  rw [digitsExtent_append later]
  by_cases none : digitsExtent (fraction ++ (exponent ++ rest)) = 0
  · simp only [none, Nat.add_zero, List.drop_left, List.drop_length_add_append]
    have bound := fraction_le fractional exponential rest
    omega
  · obtain ⟨rfl, rfl⟩ := digitsExtent_fraction fractional exponential none
    simp only [List.length_nil]
    omega

end

end Bella.Source
