import Bella.Number.Decimal
import Mathlib.Algebra.Group.Nat.Defs
import Mathlib.Order.Monotone.Basic

/-! Numbers that are exact. The count of magnitudes is undone by looking for the last one at or below
a number of units, so a quotient that is a magnitude is rounded to itself. Every finite number is a
decimal with enough places. -/

namespace Bella.Number

theorem binadeSize_eq : binadeSize = 2 ^ 52 :=
  rfl

theorem binadeSize_pos : 0 < binadeSize := by
  decide

theorem magnitude_binade {doublings leading : Nat} (below : leading < 2 * binadeSize)
    (normal : doublings = 0 ∨ binadeSize ≤ leading) :
    magnitude (doublings * binadeSize + leading) = leading * 2 ^ doublings := by
  have positive := binadeSize_pos
  have found : (doublings * binadeSize + leading) / binadeSize - 1 = doublings := by
    rw [Nat.mul_comm, Nat.mul_add_div positive]
    have quotient : leading / binadeSize < 2 := Nat.div_lt_of_lt_mul (by omega)
    rcases normal with rfl | above
    · omega
    · have atLeast : 1 ≤ leading / binadeSize := (Nat.one_le_div_iff positive).mpr above
      omega
  simp only [magnitude, found]
  rw [Nat.add_sub_cancel_left]
  rfl

theorem exists_binade (rank : Nat) :
    ∃ doublings leading, rank = doublings * binadeSize + leading ∧ leading < 2 * binadeSize ∧
      (doublings = 0 ∨ binadeSize ≤ leading) := by
  have positive := binadeSize_pos
  by_cases least : rank < binadeSize
  · exact ⟨0, rank, by omega, by omega, .inl rfl⟩
  · have split := Nat.div_add_mod rank binadeSize
    have remainder := Nat.mod_lt rank positive
    have filled : 1 ≤ rank / binadeSize := (Nat.one_le_div_iff positive).mpr (by omega)
    refine ⟨rank / binadeSize - 1, binadeSize + rank % binadeSize, ?_, by omega, .inr (by omega)⟩
    rw [Nat.sub_mul, Nat.one_mul, Nat.mul_comm]
    have once := Nat.le_mul_of_pos_right binadeSize filled
    omega

theorem rankBelow_binade {doublings leading : Nat} (below : leading < 2 * binadeSize)
    (normal : doublings = 0 ∨ binadeSize ≤ leading) :
    rankBelow (leading * 2 ^ doublings) = doublings * binadeSize + leading := by
  have found : Nat.log2 (leading * 2 ^ doublings) - 52 = doublings := by
    rw [binadeSize_eq] at below normal
    rcases normal with rfl | above
    · have small : Nat.log2 leading ≤ 52 := by
        by_cases zero : leading = 0
        · subst zero
          decide
        · exact Nat.le_of_lt_succ ((Nat.log2_lt zero).mpr (by omega))
      rw [Nat.pow_zero, Nat.mul_one]
      omega
    · have filled : leading * 2 ^ doublings ≠ 0 :=
        Nat.mul_ne_zero (by omega) (Nat.pos_iff_ne_zero.mp (Nat.two_pow_pos doublings))
      have lower : 52 + doublings ≤ Nat.log2 (leading * 2 ^ doublings) := by
        rw [Nat.le_log2 filled, Nat.pow_add]
        exact Nat.mul_le_mul_right _ above
      have upper : Nat.log2 (leading * 2 ^ doublings) < 53 + doublings := by
        rw [Nat.log2_lt filled, Nat.pow_add]
        exact Nat.mul_lt_mul_of_pos_right (by omega) (Nat.two_pow_pos doublings)
      omega
  simp only [rankBelow, found]
  exact congrArg _ (Nat.mul_div_cancel leading (Nat.two_pow_pos doublings))

theorem rankBelow_magnitude (rank : Nat) : rankBelow (magnitude rank) = rank := by
  obtain ⟨doublings, leading, rfl, below, normal⟩ := exists_binade rank
  rw [magnitude_binade below normal, rankBelow_binade below normal]

/-- The magnitude after one of a binade is a unit of the binade further, also where the next binade
starts. -/
theorem magnitude_succ_binade {doublings leading : Nat} (below : leading < 2 * binadeSize)
    (normal : doublings = 0 ∨ binadeSize ≤ leading) :
    magnitude (doublings * binadeSize + leading + 1) = (leading + 1) * 2 ^ doublings := by
  by_cases last : leading + 1 < 2 * binadeSize
  · rw [Nat.add_assoc, magnitude_binade last (normal.imp_right fun above => by omega)]
  · have next : doublings * binadeSize + leading + 1 =
        (doublings + 1) * binadeSize + binadeSize := by
      rw [Nat.add_mul]
      omega
    have doubled : leading + 1 = binadeSize * 2 := by omega
    rw [next, magnitude_binade (by have := binadeSize_pos; omega) (.inr (Nat.le_refl _)),
      Nat.pow_succ, Nat.mul_comm (2 ^ doublings), ← Nat.mul_assoc, doubled]

theorem magnitude_lt_succ (rank : Nat) : magnitude rank < magnitude (rank + 1) := by
  obtain ⟨doublings, leading, rfl, below, normal⟩ := exists_binade rank
  rw [magnitude_binade below normal, magnitude_succ_binade below normal]
  exact Nat.mul_lt_mul_of_pos_right (Nat.lt_succ_self leading) (Nat.two_pow_pos doublings)

theorem magnitude_zero : magnitude 0 = 0 := by
  simp only [magnitude, Nat.zero_sub, Nat.zero_mul]

theorem magnitude_strictMono : StrictMono magnitude :=
  strictMono_nat_of_lt_succ magnitude_lt_succ

theorem magnitude_lt (rank : Fin rankCount) : magnitude rank < binadeSize * 2 ^ 2046 := by
  have past : rank < 2046 * binadeSize + binadeSize :=
    Nat.lt_of_lt_of_eq rank.isLt (Nat.succ_mul 2046 binadeSize)
  exact Nat.lt_of_lt_of_eq (magnitude_strictMono past)
    (magnitude_binade (by decide) (.inr (Nat.le_refl _)))

theorem nearestRank_magnitude {rank : Nat} {compareTwice : Nat → Ordering}
    (below : compareTwice (magnitude rank + magnitude (rank + 1)) = .lt) :
    nearestRank (magnitude rank) compareTwice = rank := by
  simp only [nearestRank, rankBelow_magnitude, below]

theorem ofQuotient_magnitude (negative : Bool) (rank : Fin rankCount) {denominator : Nat}
    (positive : 0 < denominator) :
    ofQuotient negative (magnitude rank * denominator) denominator = .finite negative rank := by
  have below : compare (2 * (magnitude rank * denominator))
      ((magnitude rank + magnitude (rank + 1)) * denominator) = .lt := by
    rw [Nat.compare_eq_lt, ← Nat.mul_assoc]
    have next := magnitude_lt_succ rank
    exact Nat.mul_lt_mul_of_pos_right (by omega) positive
  rw [ofQuotient, Nat.mul_div_cancel _ positive, nearestRank_magnitude below, ofRank,
    dif_pos rank.isLt]

theorem countDigits_le {value count : Nat} (most : Nat) (below : value < 10 ^ count) :
    countDigits most value ≤ count := by
  induction most generalizing value count with
  | zero => exact Nat.zero_le count
  | succ most ih =>
      rw [countDigits]
      by_cases zero : value = 0
      · rw [if_pos zero]
        exact Nat.zero_le count
      · rw [if_neg zero]
        cases count with
        | zero =>
            rw [Nat.pow_zero] at below
            omega
        | succ count =>
            have tenth : value / 10 < 10 ^ count := by
              rw [Nat.pow_succ] at below
              exact Nat.div_lt_of_lt_mul (by omega)
            exact Nat.succ_le_succ (ih tenth)

theorem lt_countDigits {value count most : Nat} (bound : value < 10 ^ most)
    (above : 10 ^ count ≤ value) : count < countDigits most value := by
  induction most generalizing value count with
  | zero =>
      have positive : 0 < 10 ^ count := Nat.pow_pos (by decide)
      omega
  | succ most ih =>
      have positive : 0 < 10 ^ count := Nat.pow_pos (by decide)
      rw [countDigits, if_neg (by omega)]
      cases count with
      | zero => exact Nat.zero_lt_succ _
      | succ count =>
          rw [Nat.pow_succ] at bound above
          exact Nat.succ_lt_succ (ih (Nat.div_lt_of_lt_mul (by omega)) (by omega))

theorem decimalLength_le {value count : Nat} (below : value < 10 ^ count) :
    decimalLength value ≤ count :=
  countDigits_le _ below

theorem lt_decimalLength {value count : Nat} (above : 10 ^ count ≤ value) :
    count < decimalLength value := by
  refine lt_countDigits ?_ above
  have binary := Nat.lt_log2_self (n := value)
  exact Nat.lt_of_lt_of_le binary (Nat.pow_le_pow_left (by omega) _)

theorem ofDecimal_zero (negative : Bool) {decimal : Decimal} (none : decimal.significand = 0) :
    ofDecimal negative decimal = zero negative := by
  rw [ofDecimal, if_pos (.inl none)]

theorem ofDecimal_places (negative : Bool) {significand places : Nat} (filled : significand ≠ 0)
    (lower : places < decimalLength significand + 323)
    (upper : decimalLength significand ≤ places + 311) :
    ofDecimal negative ⟨significand, .negSucc places⟩ =
      ofQuotient negative (significand * unitsPerOne) (10 ^ (places + 1)) := by
  have order : (decimalLength significand : Int) + .negSucc places =
      decimalLength significand - places - 1 := by
    rw [Int.negSucc_eq]
    omega
  simp only [ofDecimal, order]
  rw [if_neg (by omega), if_neg (by omega)]
  rfl

theorem ofDecimal_exact (negative : Bool) (rank : Fin rankCount) :
    ofDecimal negative ⟨magnitude rank * 5 ^ 1074, .negSucc 1073⟩ = .finite negative rank := by
  by_cases least : rank.val = 0
  · have none (power : Nat) : magnitude rank * power = 0 := by
      rw [least, magnitude_zero, Nat.zero_mul]
    obtain rfl : rank = ⟨0, by decide⟩ := Fin.ext least
    exact ofDecimal_zero negative (none _)
  have positive : 0 < magnitude rank := by
    have above := magnitude_strictMono (Nat.pos_of_ne_zero least)
    rwa [magnitude_zero] at above
  have power : 0 < 5 ^ 1074 := Nat.pow_pos (by decide)
  have filled : magnitude rank * 5 ^ 1074 ≠ 0 := (Nat.mul_pos positive power).ne'
  have lower : 750 < decimalLength (magnitude rank * 5 ^ 1074) := by
    refine lt_decimalLength (Nat.le_trans ?_ (Nat.le_mul_of_pos_left _ positive))
    decide +kernel
  have upper : decimalLength (magnitude rank * 5 ^ 1074) ≤ 1383 := by
    have bound := Nat.mul_lt_mul_of_pos_right (magnitude_lt rank) power
    refine decimalLength_le (Nat.lt_trans bound ?_)
    decide +kernel
  have exact : magnitude rank * 5 ^ 1074 * unitsPerOne = magnitude rank * 10 ^ 1074 := by
    have split : 5 ^ 1074 * unitsPerOne = 10 ^ 1074 := by decide +kernel
    rw [Nat.mul_assoc, split]
  rw [ofDecimal_places negative filled (by omega) (by omega), exact,
    ofQuotient_magnitude negative rank (Nat.pow_pos (by decide))]

end Bella.Number
