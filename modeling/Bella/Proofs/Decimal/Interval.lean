import Bella.Proofs.Exact
import Mathlib.Algebra.Order.Field.Rat
import Mathlib.Tactic.FieldSimp
import Mathlib.Tactic.Linarith
import Mathlib.Tactic.NormNum
import Mathlib.Tactic.Positivity
import Mathlib.Tactic.Ring

/-! The decimals that go to a number. They make up an interval around the number's magnitude, which
ends halfway to the magnitudes beside it. Main statement: a decimal of the interval is rounded to the
number, however it is written. -/

namespace Bella

def Decimal.units (decimal : Decimal) : ℚ :=
  decimal.significand * 10 ^ decimal.exponent * Number.unitsPerOne

namespace Number

/-- A quotient of units is nearest to the magnitude of a positive rank. Halfway between two magnitudes
is nearest to the one of even rank. -/
def Near (numerator denominator rank : Nat) : Prop :=
  if rank % 2 = 0 then
    (magnitude (rank - 1) + magnitude rank) * denominator ≤ 2 * numerator ∧
      2 * numerator ≤ (magnitude rank + magnitude (rank + 1)) * denominator
  else
    (magnitude (rank - 1) + magnitude rank) * denominator < 2 * numerator ∧
      2 * numerator < (magnitude rank + magnitude (rank + 1)) * denominator

section

variable {numerator denominator rank : Nat}

theorem Near.le (near : Near numerator denominator rank) :
    (magnitude (rank - 1) + magnitude rank) * denominator ≤ 2 * numerator ∧
      2 * numerator ≤ (magnitude rank + magnitude (rank + 1)) * denominator := by
  rw [Near] at near
  split at near
  · exact near
  · exact ⟨near.1.le, near.2.le⟩

theorem Near.lt (near : Near numerator denominator rank) (odd : rank % 2 ≠ 0) :
    (magnitude (rank - 1) + magnitude rank) * denominator < 2 * numerator ∧
      2 * numerator < (magnitude rank + magnitude (rank + 1)) * denominator := by
  rwa [Near, if_neg odd] at near

theorem rankBelow_spec (units : Nat) :
    magnitude (rankBelow units) ≤ units ∧ units < magnitude (rankBelow units + 1) := by
  have positive := Nat.two_pow_pos (Nat.log2 units - 52)
  have below : units / 2 ^ (Nat.log2 units - 52) < 2 * binadeSize := by
    rw [Nat.div_lt_iff_lt_mul positive, binadeSize_eq, ← Nat.pow_succ', ← Nat.pow_add]
    refine Nat.lt_of_lt_of_le Nat.lt_log2_self (Nat.pow_le_pow_right (by omega) (by omega))
  have normal : Nat.log2 units - 52 = 0 ∨ binadeSize ≤ units / 2 ^ (Nat.log2 units - 52) := by
    by_cases small : Nat.log2 units ≤ 52
    · exact .inl (by omega)
    · have filled : units ≠ 0 := by
        rintro rfl
        exact small (by decide)
      rw [Nat.le_div_iff_mul_le positive, binadeSize_eq, ← Nat.pow_add]
      exact .inr ((Nat.le_log2 filled).mp (by omega))
  have rank : rankBelow units = (Nat.log2 units - 52) * binadeSize +
      units / 2 ^ (Nat.log2 units - 52) := rfl
  rw [rank, magnitude_binade below normal, magnitude_succ_binade below normal]
  refine ⟨Nat.div_mul_le_self _ _, ?_⟩
  rw [Nat.mul_comm]
  exact Nat.lt_mul_div_succ units positive

/-- The last magnitude at or below a quotient of the interval is the number's own or the one before. -/
theorem Near.rankBelow_cases (near : Near numerator denominator rank) (positive : 0 < denominator)
    (filled : 0 < rank) :
    rankBelow (numerator / denominator) = rank - 1 ∨ rankBelow (numerator / denominator) = rank := by
  obtain ⟨lower, upper⟩ := near.le
  obtain ⟨found, next⟩ := rankBelow_spec (numerator / denominator)
  have before : magnitude (rank - 1) < magnitude rank := magnitude_strictMono (by omega)
  have after : magnitude rank < magnitude (rank + 1) := magnitude_lt_succ rank
  have aboveBefore : magnitude (rank - 1) ≤ numerator / denominator := by
    rw [Nat.le_div_iff_mul_le positive]
    have bound := Nat.mul_le_mul_right denominator before.le
    rw [Nat.add_mul] at lower
    omega
  have belowAfter : numerator / denominator < magnitude (rank + 1) := by
    rw [Nat.div_lt_iff_lt_mul positive]
    have bound := Nat.mul_lt_mul_of_pos_right after positive
    rw [Nat.add_mul] at upper
    omega
  have least : rank - 1 < rankBelow (numerator / denominator) + 1 :=
    magnitude_strictMono.lt_iff_lt.mp (by omega)
  have greatest : rankBelow (numerator / denominator) < rank + 1 :=
    magnitude_strictMono.lt_iff_lt.mp (by omega)
  omega

theorem nearestRank_of_lt {whole : Nat} {compareTwice : Nat → Ordering}
    (found : rankBelow whole = rank)
    (below : compareTwice (magnitude rank + magnitude (rank + 1)) = .lt) :
    nearestRank whole compareTwice = rank := by
  simp only [nearestRank, found, below]

theorem nearestRank_of_gt {whole : Nat} {compareTwice : Nat → Ordering}
    (found : rankBelow whole = rank)
    (above : compareTwice (magnitude rank + magnitude (rank + 1)) = .gt) :
    nearestRank whole compareTwice = rank + 1 := by
  simp only [nearestRank, found, above]

theorem nearestRank_of_eq {whole : Nat} {compareTwice : Nat → Ordering}
    (found : rankBelow whole = rank)
    (halfway : compareTwice (magnitude rank + magnitude (rank + 1)) = .eq) :
    nearestRank whole compareTwice = if rank % 2 = 0 then rank else rank + 1 := by
  simp only [nearestRank, found, halfway]

theorem Near.nearestRank_eq (near : Near numerator denominator rank) (positive : 0 < denominator)
    (filled : 0 < rank) :
    nearestRank (numerator / denominator)
      (fun midpoint => compare (2 * numerator) (midpoint * denominator)) = rank := by
  obtain ⟨lower, upper⟩ := near.le
  rcases near.rankBelow_cases positive filled with found | found
  · obtain ⟨before, rfl⟩ : ∃ before, rank = before + 1 := ⟨rank - 1, by omega⟩
    rw [Nat.add_sub_cancel] at found lower
    rcases lower.lt_or_eq with above | halfway
    · exact nearestRank_of_gt found (Nat.compare_eq_gt.mpr above)
    · -- An odd rank is not nearest halfway.
      have odd : before % 2 ≠ 0 := by
        intro even
        have strict := (near.lt (by omega)).1
        rw [Nat.add_sub_cancel] at strict
        exact strict.ne halfway
      refine (nearestRank_of_eq found ?_).trans (if_neg odd)
      exact Nat.compare_eq_eq.mpr halfway.symm
  · rcases upper.lt_or_eq with below | halfway
    · exact nearestRank_of_lt found (Nat.compare_eq_lt.mpr below)
    · have even : rank % 2 = 0 := by
        by_contra odd
        exact (near.lt odd).2.ne halfway
      refine (nearestRank_of_eq found ?_).trans (if_pos even)
      exact Nat.compare_eq_eq.mpr halfway

theorem Near.ofQuotient (near : Near numerator denominator rank) (positive : 0 < denominator)
    (filled : 0 < rank) (negative : Bool) :
    ofQuotient negative numerator denominator = ofRank negative rank := by
  rw [Number.ofQuotient, near.nearestRank_eq positive filled]

def RoundsTo (units : ℚ) (rank : Nat) : Prop :=
  if rank % 2 = 0 then
    ((magnitude (rank - 1) + magnitude rank : Nat) : ℚ) ≤ 2 * units ∧
      2 * units ≤ ((magnitude rank + magnitude (rank + 1) : Nat) : ℚ)
  else
    ((magnitude (rank - 1) + magnitude rank : Nat) : ℚ) < 2 * units ∧
      2 * units < ((magnitude rank + magnitude (rank + 1) : Nat) : ℚ)

theorem RoundsTo.le {units : ℚ} (rounds : RoundsTo units rank) :
    ((magnitude (rank - 1) + magnitude rank : Nat) : ℚ) ≤ 2 * units ∧
      2 * units ≤ ((magnitude rank + magnitude (rank + 1) : Nat) : ℚ) := by
  rw [RoundsTo] at rounds
  split at rounds
  · exact rounds
  · exact ⟨rounds.1.le, rounds.2.le⟩

theorem near_iff_roundsTo (positive : 0 < denominator) :
    Near numerator denominator rank ↔ RoundsTo (numerator / denominator) rank := by
  have scale : (0 : ℚ) < denominator := Nat.cast_pos.mpr positive
  have le_iff (bound : Nat) : (bound : ℚ) ≤ 2 * (numerator / denominator) ↔
      bound * denominator ≤ 2 * numerator := by
    rw [← mul_div_assoc, le_div_iff₀ scale]
    norm_cast
  have ge_iff (bound : Nat) : 2 * (numerator / denominator) ≤ (bound : ℚ) ↔
      2 * numerator ≤ bound * denominator := by
    rw [← mul_div_assoc, div_le_iff₀ scale]
    norm_cast
  rw [Near, RoundsTo, ← not_le, ← not_le, ← not_le, ← not_le, le_iff, ge_iff, le_iff, ge_iff]

theorem unitsPerOne_pos : 0 < unitsPerOne :=
  Nat.two_pow_pos 1074

theorem lt_pow_decimalLength (value : Nat) : value < 10 ^ decimalLength value := by
  by_contra above
  exact Nat.lt_irrefl _ (lt_decimalLength (Nat.not_lt.mp above))

theorem pow_decimalLength_le {value : Nat} (filled : value ≠ 0) :
    10 ^ (decimalLength value - 1) ≤ value := by
  by_contra below
  have short := decimalLength_le (Nat.not_le.mp below)
  have digit : 0 < decimalLength value := lt_decimalLength (by omega)
  omega

end

end Number

open Number

namespace Decimal

variable {decimal : Decimal} {rank : Nat}

theorem units_ofNat (significand places : Nat) :
    units ⟨significand, .ofNat places⟩ =
      ((significand * Nat.pow 10 places * unitsPerOne : Nat) : ℚ) / (1 : Nat) := by
  have power : ((Nat.pow 10 places : Nat) : ℚ) = 10 ^ places := Nat.cast_pow 10 places
  rw [units, Nat.cast_one, div_one, Nat.cast_mul, Nat.cast_mul, power, Int.ofNat_eq_natCast,
    zpow_natCast]

theorem units_negSucc (significand places : Nat) :
    units ⟨significand, .negSucc places⟩ =
      ((significand * unitsPerOne : Nat) : ℚ) / (Nat.pow 10 (places + 1) : Nat) := by
  have power : ((Nat.pow 10 (places + 1) : Nat) : ℚ) = 10 ^ (places + 1) := Nat.cast_pow 10 _
  rw [units, Nat.cast_mul, power, zpow_negSucc, div_eq_mul_inv, mul_right_comm]

theorem units_lt (decimal : Decimal) :
    decimal.units < 10 ^ (decimalLength decimal.significand + decimal.exponent : ℤ) * unitsPerOne := by
  have scale : (0 : ℚ) < 10 ^ decimal.exponent := zpow_pos (by norm_num) _
  have one : (0 : ℚ) < unitsPerOne := Nat.cast_pos.mpr unitsPerOne_pos
  have digits : (decimal.significand : ℚ) < 10 ^ decimalLength decimal.significand := by
    exact_mod_cast lt_pow_decimalLength decimal.significand
  rw [units, zpow_add₀ (by norm_num), zpow_natCast]
  exact mul_lt_mul_of_pos_right (mul_lt_mul_of_pos_right digits scale) one

theorem le_units (decimal : Decimal) (filled : decimal.significand ≠ 0) :
    10 ^ (decimalLength decimal.significand + decimal.exponent - 1 : ℤ) * unitsPerOne ≤
      decimal.units := by
  have scale : (0 : ℚ) < 10 ^ decimal.exponent := zpow_pos (by norm_num) _
  have one : (0 : ℚ) < unitsPerOne := Nat.cast_pos.mpr unitsPerOne_pos
  have digit : 0 < decimalLength decimal.significand := lt_decimalLength (by omega)
  have digits : (10 : ℚ) ^ (decimalLength decimal.significand - 1) ≤ decimal.significand := by
    exact_mod_cast pow_decimalLength_le filled
  have split : (decimalLength decimal.significand + decimal.exponent - 1 : ℤ) =
      (decimalLength decimal.significand - 1 : Nat) + decimal.exponent := by omega
  rw [units, split, zpow_add₀ (by norm_num), zpow_natCast]
  exact mul_le_mul_of_nonneg_right (mul_le_mul_of_nonneg_right digits scale.le) one.le

theorem filled_of_roundsTo (filled : 0 < rank) (rounds : RoundsTo decimal.units rank) :
    decimal.significand ≠ 0 := by
  intro none
  have lower := rounds.le.1
  have positive : magnitude 0 < magnitude rank := magnitude_strictMono filled
  have something : (0 : ℚ) < ((magnitude (rank - 1) + magnitude rank : Nat) : ℚ) :=
    Nat.cast_pos.mpr (by omega)
  simp only [units, none, Nat.cast_zero, zero_mul, mul_zero] at lower
  exact absurd lower (not_le.mpr something)

theorem twice_le_of_places {value places : Nat} (small : 2 * value ≤ 10 ^ places) :
    2 * ((10 : ℚ) ^ (-(places : ℤ)) * value) ≤ 1 := by
  have scale : (0 : ℚ) < 10 ^ places := pow_pos (by norm_num) _
  have cast : (2 * value : ℚ) ≤ 10 ^ places := by exact_mod_cast small
  rw [zpow_neg, zpow_natCast, mul_left_comm, inv_mul_le_iff₀ scale, mul_one]
  exact cast

/-- Half of the least magnitude is more than `10 ^ -324`. -/
theorem order_ge_of_roundsTo (filled : 0 < rank) (rounds : RoundsTo decimal.units rank) :
    -323 ≤ decimalLength decimal.significand + decimal.exponent := by
  by_contra below
  have lower := rounds.le.1
  have positive : magnitude 0 < magnitude rank := magnitude_strictMono filled
  have something : (1 : ℚ) ≤ ((magnitude (rank - 1) + magnitude rank : Nat) : ℚ) :=
    Nat.one_le_cast.mpr (by omega)
  have power : (10 : ℚ) ^ (decimalLength decimal.significand + decimal.exponent : ℤ) ≤
      10 ^ (-(324 : Nat) : ℤ) := zpow_le_zpow_right₀ (by norm_num) (by omega)
  have one : (0 : ℚ) ≤ unitsPerOne := Nat.cast_nonneg _
  have least := @twice_le_of_places unitsPerOne 324 (by decide +kernel)
  have upper := decimal.units_lt.trans_le (mul_le_mul_of_nonneg_right power one)
  linarith

theorem magnitude_rankCount : magnitude rankCount = binadeSize * 2 ^ 2046 := by
  have past : rankCount = 2046 * binadeSize + binadeSize := Nat.succ_mul 2046 binadeSize
  rw [past, magnitude_binade (by decide) (.inr (Nat.le_refl _))]

theorem cast_lt_of_places {small value places : Nat} (less : small < 10 ^ places * value) :
    (small : ℚ) < (10 : ℚ) ^ (places : ℤ) * value := by
  rw [zpow_natCast]
  exact_mod_cast less

/-- Every finite magnitude is less than `10 ^ 310`. -/
theorem order_le_of_roundsTo (filled : 0 < rank) (bound : rank < rankCount)
    (rounds : RoundsTo decimal.units rank) :
    decimalLength decimal.significand + decimal.exponent ≤ 310 := by
  by_contra above
  have next : magnitude (rank + 1) ≤ magnitude rankCount := magnitude_strictMono.monotone bound
  have here : magnitude rank < magnitude (rank + 1) := magnitude_lt_succ rank
  have upper : 2 * decimal.units ≤ ((2 * magnitude rankCount : Nat) : ℚ) :=
    rounds.le.2.trans (Nat.cast_le.mpr (by omega))
  have power : (10 : ℚ) ^ ((310 : Nat) : ℤ) ≤
      10 ^ (decimalLength decimal.significand + decimal.exponent - 1 : ℤ) :=
    zpow_le_zpow_right₀ (by norm_num) (by omega)
  have one : (0 : ℚ) ≤ unitsPerOne := Nat.cast_nonneg _
  have lower := (mul_le_mul_of_nonneg_right power one).trans
    (decimal.le_units (filled_of_roundsTo filled rounds))
  have large : (magnitude rankCount : ℚ) < (10 : ℚ) ^ ((310 : Nat) : ℤ) * unitsPerOne := by
    rw [magnitude_rankCount]
    exact cast_lt_of_places (by decide +kernel)
  rw [Nat.cast_mul] at upper
  push_cast at upper
  linarith

end Decimal

theorem Number.ofDecimal_of_roundsTo (negative : Bool) {decimal : Decimal} {rank : Nat}
    (filled : 0 < rank) (bound : rank < rankCount) (rounds : RoundsTo decimal.units rank) :
    ofDecimal negative decimal = .finite negative ⟨rank, bound⟩ := by
  have written := Decimal.filled_of_roundsTo filled rounds
  have least := Decimal.order_ge_of_roundsTo filled rounds
  have greatest := Decimal.order_le_of_roundsTo filled bound rounds
  have finite : ofRank negative rank = .finite negative ⟨rank, bound⟩ := dif_pos bound
  obtain ⟨significand, exponent⟩ := decimal
  have notZero : ¬ (significand = 0 ∨ (decimalLength significand : ℤ) + exponent < -323) := by
    rintro (none | small)
    · exact written none
    · exact absurd least (not_le.mpr small)
  simp only [ofDecimal, if_neg notZero, if_neg (not_lt.mpr greatest)]
  rw [← finite]
  cases exponent with
  | ofNat places =>
      rw [Decimal.units_ofNat] at rounds
      exact ((near_iff_roundsTo Nat.one_pos).mpr rounds).ofQuotient Nat.one_pos filled negative
  | negSucc places =>
      have scale : 0 < Nat.pow 10 (places + 1) := Nat.pow_pos (by decide)
      rw [Decimal.units_negSucc] at rounds
      exact ((near_iff_roundsTo scale).mpr rounds).ofQuotient scale filled negative

end Bella
