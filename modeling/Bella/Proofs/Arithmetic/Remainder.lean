import Bella.Proofs.Arithmetic.Rational
import Bella.Proofs.Rules.Primitive

/-! Remainders. What is left of one magnitude by another is a whole number of the steps between the
magnitudes at the smaller one, and so a magnitude again. Main statement: the remainder of two finite
numbers is the rational that is left when the divisor is taken away as often as it goes, not rounded. -/

namespace Bella

namespace Number

def wholePart (value : ℚ) : ℤ :=
  if 0 ≤ value then ⌊value⌋ else ⌈value⌉

theorem wholePart_neg (value : ℚ) : wholePart (-value) = -wholePart value := by
  rcases lt_trichotomy value 0 with negative | rfl | positive
  · rw [wholePart, wholePart, if_pos (by linarith), if_neg (not_le.mpr negative), Int.floor_neg]
  · simp [wholePart]
  · rw [wholePart, wholePart, if_neg (by linarith), if_pos positive.le, Int.ceil_neg]

theorem wholePart_div (dividend divisor : Nat) :
    wholePart ((dividend : ℚ) / divisor) = (dividend / divisor : Nat) := by
  rw [wholePart, if_pos (by positivity), Rat.floor_natCast_div_natCast, Int.natCast_div]

theorem wholePart_signed (negative : Bool) (value : ℚ) :
    (wholePart (signed negative value) : ℚ) = signed negative (wholePart value) := by
  cases negative with
  | false => rfl
  | true => rw [signed, if_pos rfl, wholePart_neg, Int.cast_neg, signed, if_pos rfl]

theorem signed_div (one other : Bool) (first second : ℚ) :
    signed one first / signed other second = signed (one != other) (first / second) := by
  cases one <;> cases other <;> simp [signed, div_neg, neg_div]

theorem signed_mul (one other : Bool) (first second : ℚ) :
    signed one first * signed other second = signed (one != other) (first * second) := by
  cases one <;> cases other <;> simp [signed]

theorem signed_sub (negative : Bool) (first second : ℚ) :
    signed negative first - signed negative second = signed negative (first - second) := by
  cases negative with
  | false => rfl
  | true => simp only [signed, if_true]; ring

/-- Every magnitude is a whole number of steps of its binade, and so is every larger one. -/
theorem two_pow_dvd_magnitude {doublings rank : Nat} (below : doublings ≤ rank / binadeSize - 1) :
    2 ^ doublings ∣ magnitude rank :=
  Dvd.dvd.mul_left (pow_dvd_pow 2 below) _

theorem exists_magnitude {leading : Nat} (below : leading < 2 * binadeSize) (doublings : Nat) :
    ∃ rank, magnitude rank = leading * 2 ^ doublings := by
  induction doublings generalizing leading with
  | zero =>
      have least := magnitude_binade below (.inl rfl)
      exact ⟨_, least⟩
  | succ doublings ih =>
      by_cases normal : binadeSize ≤ leading
      · exact ⟨_, magnitude_binade below (.inr normal)⟩
      · obtain ⟨rank, same⟩ := @ih (2 * leading) (by omega)
        refine ⟨rank, same.trans ?_⟩
        rw [Nat.pow_succ']
        ring

/-- What is left of a magnitude by a smaller one is a magnitude that is smaller still. -/
theorem exists_magnitude_mod (rank : Nat) {divisor : Nat} (filled : divisor ≠ 0) :
    ∃ rest < divisor, magnitude rest = magnitude rank % magnitude divisor := by
  have positive := magnitude_pos filled
  have less := Nat.mod_lt (magnitude rank) positive
  have found : ∃ rest, magnitude rest = magnitude rank % magnitude divisor := by
    by_cases smaller : rank < divisor
    · exact ⟨rank, (Nat.mod_eq_of_lt (magnitude_strictMono smaller)).symm⟩
    · have size := binadeSize_pos
      have step : 2 ^ (divisor / binadeSize - 1) ∣ magnitude rank := by
        have quotient := Nat.div_le_div_right (c := binadeSize) (Nat.not_lt.mp smaller)
        exact two_pow_dvd_magnitude (by omega)
      have own : 2 ^ (divisor / binadeSize - 1) ∣ magnitude divisor :=
        two_pow_dvd_magnitude (Nat.le_refl _)
      obtain ⟨leading, split⟩ := (Nat.dvd_mod_iff own).mpr step
      rw [split, Nat.mul_comm]
      refine exists_magnitude ?_ _
      have steps : divisor - (divisor / binadeSize - 1) * binadeSize < 2 * binadeSize := by
        have whole := Nat.div_add_mod divisor binadeSize
        have part := Nat.mod_lt divisor size
        rw [Nat.sub_mul, Nat.mul_comm (divisor / binadeSize)]
        omega
      refine Nat.lt_trans ?_ steps
      rw [split, Nat.mul_comm] at less
      exact Nat.lt_of_mul_lt_mul_right less
  obtain ⟨rest, same⟩ := found
  exact ⟨rest, magnitude_strictMono.lt_iff_lt.mp (same ▸ less), same⟩

theorem ofUnits_magnitude (negative : Bool) (rank : Fin rankCount) :
    ofUnits negative (magnitude rank) = .finite negative rank := by
  have same := ofQuotient_magnitude negative rank Nat.one_pos
  rwa [Nat.mul_one] at same

theorem remainder_finite (negative other : Bool) (rank : Fin rankCount) {divisor : Fin rankCount}
    (filled : divisor.val ≠ 0) :
    ∃ rest : Fin rankCount, rest < divisor ∧ magnitude rest = magnitude rank % magnitude divisor ∧
      remainder (.finite negative rank) (.finite other divisor) = .finite negative rest := by
  obtain ⟨rest, less, same⟩ := exists_magnitude_mod rank filled
  have bound : rest < rankCount := less.trans divisor.isLt
  refine ⟨⟨rest, bound⟩, less, same, ?_⟩
  rw [remainder, if_neg filled, ← same]
  exact ofUnits_magnitude negative ⟨rest, bound⟩

/-- What is left is less than the divisor, so it is left by it again. -/
theorem remainder_rest (negative other : Bool) {rest divisor : Fin rankCount} (less : rest < divisor) :
    remainder (.finite negative rest) (.finite other divisor) = .finite negative rest := by
  have filled : divisor.val ≠ 0 := Nat.ne_of_gt (Nat.zero_lt_of_lt less)
  obtain ⟨again, -, same, ended⟩ := remainder_finite negative other rest filled
  rw [Nat.mod_eq_of_lt (magnitude_strictMono less)] at same
  obtain rfl : again = rest := Fin.ext (magnitude_strictMono.injective same)
  exact ended

theorem remainder_eq_nan {dividend divisor : Number} :
    dividend.remainder divisor = .nan ↔ dividend = .nan ∨ divisor = .nan ∨
      Host.isInfinite dividend = true ∨ divisor.rational? = some 0 := by
  rw [rational?_eq_zero]
  cases dividend with
  | nan => cases divisor <;> simp [remainder]
  | infinite negative => cases divisor <;> simp [remainder, Host.isInfinite]
  | finite negative rank =>
      cases divisor with
      | nan => simp [remainder]
      | infinite other => simp [remainder, Host.isInfinite, isZero]
      | finite other divisorRank =>
          by_cases least : divisorRank.val = 0
          · simp [remainder, least, isZero]
          · obtain ⟨rest, -, -, same⟩ := remainder_finite negative other rank least
            simp [same, Host.isInfinite, isZero, least]

theorem signed_rest (negative other : Bool) (rank : Nat) {divisor : Nat} (filled : divisor ≠ 0) :
    signed negative ((magnitude rank % magnitude divisor : Nat) / unitsPerOne) =
      signed negative (magnitude rank / unitsPerOne) -
        signed other (magnitude divisor / unitsPerOne) *
          wholePart (signed negative (magnitude rank / unitsPerOne) /
            signed other (magnitude divisor / unitsPerOne)) := by
  have one := unitsPerOne_pos_rat.ne'
  have positive : (magnitude divisor : ℚ) ≠ 0 := Nat.cast_ne_zero.mpr (magnitude_pos filled).ne'
  have quotient : (magnitude rank / unitsPerOne : ℚ) / (magnitude divisor / unitsPerOne) =
      magnitude rank / magnitude divisor := by
    field_simp
  have split : (magnitude rank : ℚ) = magnitude divisor * (magnitude rank / magnitude divisor : Nat) +
      (magnitude rank % magnitude divisor : Nat) := by
    exact_mod_cast (Nat.div_add_mod (magnitude rank) (magnitude divisor)).symm
  have sign : (other != (negative != other)) = negative := by
    cases negative <;> cases other <;> rfl
  rw [signed_div, quotient, wholePart_signed, wholePart_div, signed_mul, sign, signed_sub]
  congr 1
  rw [Int.cast_natCast]
  field_simp
  linarith

end Number

open Number
open Host (isInfinite signBit)

/-- The remainder is a number for every two numbers. It is undefined just if one of them is, the dividend
is infinite or the divisor is zero; it is the dividend if only the divisor is infinite; and otherwise it
is exactly what is left of the dividend, less than the divisor, not more than the dividend and with its
sign, also when it is zero. What is left has itself as its remainder. -/
theorem remainder_truncated (dividend divisor : Number) :
    ∃ result, binaryResult (.text "%") (.number dividend) (.number divisor) = .ok (.number result) ∧
      (result = .nan ↔ dividend = .nan ∨ divisor = .nan ∨ isInfinite dividend = true ∨
        divisor.rational? = some 0) ∧
      (∀ whole negative, dividend.rational? = some whole → divisor = .infinite negative →
        result = dividend) ∧
      ∀ whole part, dividend.rational? = some whole → divisor.rational? = some part → part ≠ 0 →
        ∃ rest, result.rational? = some rest ∧ rest = whole - part * wholePart (whole / part) ∧
          |rest| < |part| ∧ |rest| ≤ |whole| ∧ signBit result = signBit dividend ∧
          binaryResult (.text "%") (.number result) (.number divisor) = .ok (.number result) := by
  have remained (first second : Number) :
      binaryResult (.text "%") (.number first) (.number second) =
        .ok (.number (first.remainder second)) :=
    binaryResult_of_rule (.numbers (.remainder first second))
  refine ⟨_, remained dividend divisor, remainder_eq_nan, ?_, ?_⟩
  · rintro whole negative known rfl
    obtain ⟨sign, rank, rfl, -⟩ := exists_of_rational? known
    rfl
  · intro whole part known divides nonzero
    obtain ⟨negative, rank, rfl, rfl⟩ := exists_of_rational? known
    obtain ⟨other, divisorRank, rfl, rfl⟩ := exists_of_rational? divides
    have filled := mt signed_magnitude_eq_zero.mpr nonzero
    obtain ⟨rest, less, left, same⟩ := remainder_finite negative other rank filled
    have one := unitsPerOne_pos_rat
    rw [remained, same]
    refine ⟨_, rational?_finite negative rest, ?_, ?_, ?_, rfl, ?_⟩
    · rw [left]
      exact signed_rest negative other rank filled
    · rw [abs_signed_magnitude, abs_signed_magnitude]
      exact div_lt_div_of_pos_right (Nat.cast_lt.mpr (magnitude_strictMono less)) one
    · rw [abs_signed_magnitude, abs_signed_magnitude]
      refine div_le_div_of_nonneg_right (Nat.cast_le.mpr ?_) one.le
      exact left ▸ Nat.mod_le _ _
    · rw [remainder_rest negative other less]

theorem remainder_of_largest :
    ∃ result rest, binaryResult (.text "%")
        (.number (.finite true ⟨rankCount - 1, by decide⟩)) (.number (.finite false ⟨3, by decide⟩)) =
          .ok (.number result) ∧
      result.rational? = some rest ∧ |rest| < magnitude 3 / unitsPerOne ∧
      signBit result = true := by
  have nonzero : signed false (magnitude 3 / unitsPerOne) ≠ 0 :=
    mt signed_magnitude_eq_zero.mp (by decide)
  obtain ⟨result, same, -, -, exactly⟩ := remainder_truncated
    (.finite true ⟨rankCount - 1, by decide⟩) (.finite false ⟨3, by decide⟩)
  obtain ⟨rest, known, -, less, -, sign, -⟩ :=
    exactly _ _ (rational?_finite _ _) (rational?_finite _ _) nonzero
  rw [abs_signed_magnitude] at less
  exact ⟨result, rest, same, known, less, sign⟩

end Bella
