import Bella.Proofs.Decimal.Interval

/-! The shortest decimal of a number. It is looked for with more and more digits, and one with seventeen
goes to the number at the latest. Main statement: the shortest decimal is rounded to its number. -/

namespace Bella.Number

def gridSteps : Int → Nat × Nat
  | .ofNat places => (Nat.pow 10 places * (2 * unitsPerOne), 1)
  | .negSucc places => (2 * unitsPerOne, Nat.pow 10 (places + 1))

def reaches (rank candidate : Nat) (steps : Nat × Nat) : Bool :=
  if rank % 2 = 0 then
    decide ((magnitude (rank - 1) + magnitude rank) * steps.2 ≤ candidate * steps.1 ∧
      candidate * steps.1 ≤ (magnitude rank + magnitude (rank + 1)) * steps.2)
  else
    decide ((magnitude (rank - 1) + magnitude rank) * steps.2 < candidate * steps.1 ∧
      candidate * steps.1 < (magnitude rank + magnitude (rank + 1)) * steps.2)

def takenOfTwo (holds : Nat → Bool) (below above : Nat) (order : Ordering) (exponent : Int) :
    Option Decimal :=
  match holds below, holds above with
  | false, false => none
  | true, false => some ⟨below, exponent⟩
  | false, true => some ⟨above, exponent⟩
  | true, true =>
      match order with
      | .lt => some ⟨below, exponent⟩
      | .gt => some ⟨above, exponent⟩
      | .eq => some ⟨if below % 2 = 0 then below else above, exponent⟩

theorem takenOfTwo_spec (holds : Nat → Bool) (below above : Nat) (order : Ordering)
    (exponent : Int) :
    match takenOfTwo holds below above order exponent with
    | some decimal => decimal.exponent = exponent ∧ holds decimal.significand = true
    | none => holds below = false ∧ holds above = false := by
  unfold takenOfTwo
  cases first : holds below with
  | false =>
      cases second : holds above with
      | false => exact ⟨rfl, rfl⟩
      | true => exact ⟨rfl, second⟩
  | true =>
      cases second : holds above with
      | false => exact ⟨rfl, first⟩
      | true =>
          cases order with
          | lt => exact ⟨rfl, first⟩
          | gt => exact ⟨rfl, second⟩
          | eq =>
              refine ⟨rfl, ?_⟩
              dsimp only
              split
              · exact first
              · exact second

def multipleBelow (rank : Nat) (steps : Nat × Nat) : Nat :=
  2 * magnitude rank * steps.2 / steps.1

theorem nearestAtExponent?_eq (rank : Nat) (exponent : Int) :
    ∃ order, nearestAtExponent? rank exponent =
      takenOfTwo (reaches rank · (gridSteps exponent)) (multipleBelow rank (gridSteps exponent))
        (multipleBelow rank (gridSteps exponent) + 1) order exponent := by
  refine ⟨compare (2 * (2 * magnitude rank * (gridSteps exponent).2))
    ((multipleBelow rank (gridSteps exponent) + (multipleBelow rank (gridSteps exponent) + 1)) *
      (gridSteps exponent).1), ?_⟩
  unfold nearestAtExponent? reaches multipleBelow takenOfTwo gridSteps
  -- The sizes of magnitudes do not matter here, and are not to be computed.
  generalize magnitude = size
  generalize unitsPerOne = one
  cases exponent <;> rfl

theorem stripZeros_units (fuel : Nat) (decimal : Decimal) :
    (stripZeros fuel decimal).units = decimal.units := by
  induction fuel generalizing decimal with
  | zero => rfl
  | succ fuel ih =>
      rw [stripZeros]
      split
      · rename_i whole
        have tenth : decimal.significand = decimal.significand / 10 * 10 := by omega
        have cast : (decimal.significand : ℚ) = (decimal.significand / 10 : Nat) * 10 := by
          exact_mod_cast tenth
        rw [ih, Decimal.units, Decimal.units, cast, zpow_add_one₀ (by norm_num)]
        ring
      · rfl

theorem gridSteps_pos (exponent : Int) : 0 < (gridSteps exponent).1 ∧ 0 < (gridSteps exponent).2 := by
  have one := unitsPerOne_pos
  cases exponent with
  | ofNat places =>
      exact ⟨Nat.mul_pos (Nat.pow_pos (by decide)) (by omega), Nat.one_pos⟩
  | negSucc places =>
      have twice : 0 < 2 * unitsPerOne := by omega
      exact ⟨twice, Nat.pow_pos (by decide)⟩

theorem units_eq_gridSteps (candidate : Nat) (exponent : Int) :
    2 * Decimal.units ⟨candidate, exponent⟩ * (gridSteps exponent).2 =
      candidate * (gridSteps exponent).1 := by
  cases exponent with
  | ofNat places =>
      rw [Decimal.units_ofNat, gridSteps]
      generalize unitsPerOne = one
      push_cast
      ring
  | negSucc places =>
      have scale : ((Nat.pow 10 (places + 1) : Nat) : ℚ) ≠ 0 :=
        Nat.cast_ne_zero.mpr (Nat.pow_pos (by decide)).ne'
      rw [Decimal.units_negSucc, gridSteps]
      generalize unitsPerOne = one
      dsimp only
      rw [mul_assoc, div_mul_cancel₀ _ scale]
      push_cast
      ring

theorem reaches_iff_roundsTo {rank candidate : Nat} {exponent : Int} :
    reaches rank candidate (gridSteps exponent) = true ↔
      RoundsTo (Decimal.units ⟨candidate, exponent⟩) rank := by
  have scale : (0 : ℚ) < (gridSteps exponent).2 := Nat.cast_pos.mpr (gridSteps_pos exponent).2
  have same := units_eq_gridSteps candidate exponent
  have le_iff (bound : Nat) : (bound : ℚ) ≤ 2 * Decimal.units ⟨candidate, exponent⟩ ↔
      bound * (gridSteps exponent).2 ≤ candidate * (gridSteps exponent).1 := by
    rw [← mul_le_mul_iff_left₀ scale, same]
    norm_cast
  have ge_iff (bound : Nat) : 2 * Decimal.units ⟨candidate, exponent⟩ ≤ (bound : ℚ) ↔
      candidate * (gridSteps exponent).1 ≤ bound * (gridSteps exponent).2 := by
    rw [← mul_le_mul_iff_left₀ scale, same]
    norm_cast
  rw [RoundsTo, ← not_le, ← not_le, le_iff, ge_iff, ge_iff, le_iff, not_le, not_le, reaches]
  split <;> exact decide_eq_true_iff

theorem reaches_of_lt {rank candidate : Nat} {steps : Nat × Nat}
    (lower : (magnitude (rank - 1) + magnitude rank) * steps.2 < candidate * steps.1)
    (upper : candidate * steps.1 < (magnitude rank + magnitude (rank + 1)) * steps.2) :
    reaches rank candidate steps = true := by
  rw [reaches]
  split
  · exact decide_eq_true ⟨lower.le, upper.le⟩
  · exact decide_eq_true ⟨lower, upper⟩

theorem reaches_of_close {rank : Nat} {steps : Nat × Nat} (positive : 0 < steps.1)
    (scale : 0 < steps.2) (filled : 0 < rank)
    (close : magnitude (rank - 1) * steps.2 + steps.1 < magnitude (rank + 1) * steps.2) :
    reaches rank (multipleBelow rank steps) steps = true ∨
      reaches rank (multipleBelow rank steps + 1) steps = true := by
  have below : multipleBelow rank steps * steps.1 ≤ 2 * magnitude rank * steps.2 :=
    Nat.div_mul_le_self _ _
  have above : 2 * magnitude rank * steps.2 < (multipleBelow rank steps + 1) * steps.1 := by
    rw [Nat.mul_comm (multipleBelow rank steps + 1)]
    exact Nat.lt_mul_div_succ _ positive
  have before : magnitude (rank - 1) * steps.2 < magnitude rank * steps.2 :=
    Nat.mul_lt_mul_of_pos_right (magnitude_strictMono (by omega)) scale
  have after : magnitude rank * steps.2 < magnitude (rank + 1) * steps.2 :=
    Nat.mul_lt_mul_of_pos_right (magnitude_lt_succ rank) scale
  have next : (multipleBelow rank steps + 1) * steps.1 = multipleBelow rank steps * steps.1 + steps.1 :=
    Nat.succ_mul _ _
  rw [Nat.mul_assoc] at below above
  by_cases inside : (magnitude (rank - 1) + magnitude rank) * steps.2 <
      multipleBelow rank steps * steps.1
  · refine .inl (reaches_of_lt inside ?_)
    rw [Nat.add_mul]
    omega
  · rw [Nat.add_mul] at inside
    refine .inr (reaches_of_lt ?_ ?_)
    · rw [Nat.add_mul]
      omega
    · rw [next, Nat.add_mul]
      omega

theorem magnitude_spread {rank : Nat} (filled : 0 < rank) :
    2 * magnitude rank + 10 ^ 16 * magnitude (rank - 1) < 10 ^ 16 * magnitude (rank + 1) := by
  obtain ⟨doublings, leading, rfl, below, normal⟩ := exists_binade rank
  have unit := Nat.two_pow_pos doublings
  have small : 2 * binadeSize < 10 ^ 16 := by decide
  have bounded : leading * 2 ^ doublings < 10 ^ 16 * 2 ^ doublings :=
    Nat.mul_lt_mul_of_pos_right (Nat.lt_trans below small) unit
  rw [magnitude_succ_binade below normal, magnitude_binade below normal, Nat.add_mul, Nat.one_mul]
  by_cases least : doublings ≠ 0 ∧ leading = binadeSize
  · -- The magnitudes before a power of two are closer together.
    obtain ⟨-, rfl⟩ := least
    have before : magnitude (doublings * binadeSize + binadeSize - 1) ≤ binadeSize * 2 ^ doublings := by
      rw [← magnitude_binade below normal]
      exact magnitude_strictMono.monotone (Nat.sub_le _ _)
    have half : 2 * binadeSize * 2 ^ doublings < 10 ^ 16 * 2 ^ doublings :=
      Nat.mul_lt_mul_of_pos_right small unit
    rw [Nat.mul_assoc] at half
    omega
  · have positive := binadeSize_pos
    obtain ⟨lower, rfl⟩ : ∃ lower, leading = lower + 1 := ⟨leading - 1, by
      rcases normal with rfl | above <;> omega⟩
    have before : doublings * binadeSize + (lower + 1) - 1 = doublings * binadeSize + lower := by
      omega
    rw [before, magnitude_binade (by omega) (by omega)]
    rw [Nat.add_mul, Nat.one_mul] at bounded ⊢
    omega

theorem pow_sub_mul_le {value scale digits places : Nat} (filled : 0 < digits)
    (le : 10 ^ (digits - 1) * scale ≤ value * 10 ^ places) :
    (10 : ℚ) ^ ((digits : ℤ) - places - 1) * scale ≤ value := by
  have power : (0 : ℚ) < 10 ^ places := pow_pos (by norm_num) _
  have split : (digits : ℤ) - places - 1 = ((digits - 1 : Nat) : ℤ) - (places : ℤ) := by omega
  rw [split, zpow_sub₀ (by norm_num), zpow_natCast, zpow_natCast, div_mul_eq_mul_div,
    div_le_iff₀ power]
  exact_mod_cast le

theorem pow_decimalOrder_le {units : Nat} (filled : 0 < units) :
    (10 : ℚ) ^ (decimalOrder units - 1) * unitsPerOne ≤ units := by
  have one := unitsPerOne_pos
  have large : unitsPerOne ≤ Nat.pow 10 324 := by decide +kernel
  have enlarged : units * Nat.pow 10 324 / unitsPerOne ≠ 0 := by
    have atLeast := Nat.le_mul_of_pos_left (Nat.pow 10 324) filled
    exact (Nat.div_pos (large.trans atLeast) one).ne'
  have digits := Nat.mul_le_mul_right unitsPerOne (pow_decimalLength_le enlarged)
  have whole := digits.trans (Nat.div_mul_le_self _ _)
  have first : 0 < decimalLength (units * Nat.pow 10 324 / unitsPerOne) :=
    lt_decimalLength (Nat.one_le_iff_ne_zero.mpr enlarged)
  exact pow_sub_mul_le first whole

/-- With seventeen digits the decimals are close enough together. -/
theorem close_of_seventeen {rank : Nat} (filled : 0 < rank) :
    magnitude (rank - 1) * (gridSteps (decimalOrder (magnitude rank) - 17)).2 +
        (gridSteps (decimalOrder (magnitude rank) - 17)).1 <
      magnitude (rank + 1) * (gridSteps (decimalOrder (magnitude rank) - 17)).2 := by
  generalize exponential : decimalOrder (magnitude rank) - 17 = exponent
  have positive : 0 < magnitude rank := by
    have above := magnitude_strictMono filled
    omega
  have scale : (0 : ℚ) < (gridSteps exponent).2 := Nat.cast_pos.mpr (gridSteps_pos exponent).2
  have order : decimalOrder (magnitude rank) - 1 = exponent + (16 : Nat) := by omega
  have first := pow_decimalOrder_le positive
  rw [order, zpow_add₀ (by norm_num), zpow_natCast] at first
  have step : ((gridSteps exponent).1 : ℚ) = 2 * (10 ^ exponent * unitsPerOne) * (gridSteps exponent).2 := by
    have one := units_eq_gridSteps 1 exponent
    rw [Decimal.units, Nat.cast_one, one_mul, one_mul] at one
    exact one.symm
  have small : (10 ^ 16 : ℚ) * (gridSteps exponent).1 ≤ 2 * magnitude rank * (gridSteps exponent).2 := by
    have scaled := mul_le_mul_of_nonneg_right first scale.le
    rw [step]
    linarith
  have whole : 10 ^ 16 * (gridSteps exponent).1 ≤ 2 * magnitude rank * (gridSteps exponent).2 := by
    exact_mod_cast small
  have spread := Nat.mul_lt_mul_of_pos_right (magnitude_spread filled) (gridSteps_pos exponent).2
  rw [Nat.add_mul, Nat.mul_assoc (10 ^ 16), Nat.mul_assoc (10 ^ 16)] at spread
  omega

theorem nearestAtExponent?_seventeen {rank : Nat} (filled : 0 < rank) :
    nearestAtExponent? rank (decimalOrder (magnitude rank) - 17) ≠ none := by
  intro none
  have positive := gridSteps_pos (decimalOrder (magnitude rank) - 17)
  obtain ⟨order, same⟩ := nearestAtExponent?_eq rank (decimalOrder (magnitude rank) - 17)
  have spec := takenOfTwo_spec
    (reaches rank · (gridSteps (decimalOrder (magnitude rank) - 17)))
    (multipleBelow rank (gridSteps (decimalOrder (magnitude rank) - 17)))
    (multipleBelow rank (gridSteps (decimalOrder (magnitude rank) - 17)) + 1) order
    (decimalOrder (magnitude rank) - 17)
  rw [← same, none] at spec
  rcases reaches_of_close positive.1 positive.2 filled (close_of_seventeen filled) with first | second
  · exact Bool.false_ne_true (spec.1.symm.trans first)
  · exact Bool.false_ne_true (spec.2.symm.trans second)

theorem nearestAtExponent?_roundsTo {rank : Nat} {exponent : Int} {decimal : Decimal}
    (found : nearestAtExponent? rank exponent = some decimal) : RoundsTo decimal.units rank := by
  obtain ⟨order, same⟩ := nearestAtExponent?_eq rank exponent
  have spec := takenOfTwo_spec (reaches rank · (gridSteps exponent))
    (multipleBelow rank (gridSteps exponent)) (multipleBelow rank (gridSteps exponent) + 1) order
    exponent
  rw [← same, found] at spec
  obtain ⟨rfl, reached⟩ := spec
  exact reaches_iff_roundsTo.mp reached

/-- The search ends with a decimal of the interval if there is one at any of its exponents. -/
theorem shortestFrom_roundsTo {rank : Nat} {order : Int} {attempts length : Nat} (last : Nat)
    (since : length ≤ last) (upTo : last < length + attempts)
    (found : nearestAtExponent? rank (order - last) ≠ none) :
    RoundsTo (shortestFrom rank order attempts length).units rank := by
  induction attempts generalizing length with
  | zero => omega
  | succ attempts ih =>
      rw [shortestFrom]
      cases here : nearestAtExponent? rank (order - length) with
      | some decimal =>
          dsimp only
          rw [stripZeros_units]
          exact nearestAtExponent?_roundsTo here
      | none =>
          have later : length ≠ last := by
            rintro rfl
            exact found here
          exact ih (by omega) (by omega)

theorem shortestDecimal_roundsTo {rank : Nat} (filled : 0 < rank) :
    RoundsTo (shortestDecimal rank).units rank :=
  shortestFrom_roundsTo 17 (by omega) (by omega) (nearestAtExponent?_seventeen filled)

theorem ofDecimal_of_shortest (negative : Bool) {decimal : Decimal} {rank : Nat} (filled : 0 < rank)
    (bound : rank < rankCount) (same : decimal.units = (shortestDecimal rank).units) :
    ofDecimal negative decimal = .finite negative ⟨rank, bound⟩ :=
  ofDecimal_of_roundsTo negative filled bound (same ▸ shortestDecimal_roundsTo filled)

end Bella.Number
