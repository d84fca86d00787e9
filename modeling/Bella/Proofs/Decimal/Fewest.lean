import Bella.Proofs.Decimal.Written

/-! The fewest digits. The interval of a number has no gaps, so a decimal of it with few digits has
beside it, or between it and the number, one that the search for the shortest decimal comes across. Main
statement: no decimal that goes to a number has fewer digits than the shortest one. -/

namespace Bella.Number

section

variable {numerator denominator rank : Nat}

theorem Near.of_lt (above : (magnitude (rank - 1) + magnitude rank) * denominator < 2 * numerator)
    (below : 2 * numerator < (magnitude rank + magnitude (rank + 1)) * denominator) :
    Near numerator denominator rank := by
  rw [Near]
  split
  · exact ⟨above.le, below.le⟩
  · exact ⟨above, below⟩

theorem near_of_nearestRank (positive : 0 < denominator) (filled : 0 < rank)
    (found : nearestRank (numerator / denominator)
      (fun midpoint => compare (2 * numerator) (midpoint * denominator)) = rank) :
    Near numerator denominator rank := by
  obtain ⟨lower, upper⟩ := rankBelow_spec (numerator / denominator)
  rw [Nat.le_div_iff_mul_le positive] at lower
  rw [Nat.div_lt_iff_lt_mul positive] at upper
  have before (filled : 0 < rankBelow (numerator / denominator)) :
      magnitude (rankBelow (numerator / denominator) - 1) * denominator <
        magnitude (rankBelow (numerator / denominator)) * denominator :=
    Nat.mul_lt_mul_of_pos_right (magnitude_strictMono (by omega)) positive
  have after : magnitude (rankBelow (numerator / denominator) + 1) * denominator <
      magnitude (rankBelow (numerator / denominator) + 1 + 1) * denominator :=
    Nat.mul_lt_mul_of_pos_right (magnitude_lt_succ _) positive
  generalize place : rankBelow (numerator / denominator) = last at lower upper before after
  cases side : compare (2 * numerator) ((magnitude last + magnitude (last + 1)) * denominator) with
  | lt =>
      obtain rfl := (nearestRank_of_lt place side).symm.trans found
      have below := Nat.compare_eq_lt.mp side
      have less := before filled
      refine .of_lt ?_ below
      rw [Nat.add_mul]
      omega
  | gt =>
      obtain rfl := (nearestRank_of_gt place side).symm.trans found
      have above := Nat.compare_eq_gt.mp side
      refine .of_lt ?_ ?_
      · rwa [Nat.add_sub_cancel]
      · rw [Nat.add_mul]
        omega
  | eq =>
      have halfway := Nat.compare_eq_eq.mp side
      have rounded := (nearestRank_of_eq place side).symm.trans found
      by_cases even : last % 2 = 0
      · rw [if_pos even] at rounded
        subst rounded
        have less := before filled
        rw [Near, if_pos even, halfway, Nat.add_mul, Nat.add_mul]
        rw [Nat.add_mul] at halfway
        omega
      · rw [if_neg even] at rounded
        subst rounded
        have next : (last + 1) % 2 = 0 := by omega
        rw [Near, if_pos next, Nat.add_sub_cancel, halfway, Nat.add_mul, Nat.add_mul]
        rw [Nat.add_mul] at halfway
        omega

theorem near_of_ofQuotient {negative : Bool} (positive : 0 < denominator) (filled : 0 < rank)
    (bound : rank < rankCount)
    (read : ofQuotient negative numerator denominator = .finite negative ⟨rank, bound⟩) :
    Near numerator denominator rank := by
  refine near_of_nearestRank positive filled ?_
  rw [ofQuotient, ofRank] at read
  split at read
  · exact congrArg Fin.val (Number.finite.inj read).2
  · cases read

theorem roundsTo_of_ofDecimal {negative : Bool} {decimal : Decimal} (filled : 0 < rank)
    (bound : rank < rankCount) (read : ofDecimal negative decimal = .finite negative ⟨rank, bound⟩) :
    RoundsTo decimal.units rank := by
  obtain ⟨significand, exponent⟩ := decimal
  simp only [ofDecimal] at read
  split at read
  · exact absurd (congrArg Fin.val (Number.finite.inj read).2).symm filled.ne'
  split at read
  · cases read
  cases exponent with
  | ofNat places =>
      rw [Decimal.units_ofNat, ← near_iff_roundsTo Nat.one_pos]
      exact near_of_ofQuotient Nat.one_pos filled bound read
  | negSucc places =>
      have scale : 0 < Nat.pow 10 (places + 1) := Nat.pow_pos (by decide)
      rw [Decimal.units_negSucc, ← near_iff_roundsTo scale]
      exact near_of_ofQuotient scale filled bound read

theorem RoundsTo.between {first last middle : ℚ} (one : RoundsTo first rank)
    (other : RoundsTo last rank) (above : first ≤ middle) (below : middle ≤ last) :
    RoundsTo middle rank := by
  unfold RoundsTo at *
  split at one
  · rename_i even
    rw [if_pos even] at other ⊢
    constructor <;> linarith
  · rename_i odd
    rw [if_neg odd] at other ⊢
    constructor <;> linarith

theorem roundsTo_magnitude (filled : 0 < rank) : RoundsTo (magnitude rank) rank := by
  have before : (magnitude (rank - 1) : ℚ) < magnitude rank :=
    Nat.cast_lt.mpr (magnitude_strictMono (by omega))
  have after : (magnitude rank : ℚ) < magnitude (rank + 1) := Nat.cast_lt.mpr (magnitude_lt_succ rank)
  rw [RoundsTo]
  push_cast
  split <;> constructor <;> linarith

theorem units_le_units {candidate other : Nat} {exponent : Int} (le : candidate ≤ other) :
    Decimal.units ⟨candidate, exponent⟩ ≤ Decimal.units ⟨other, exponent⟩ := by
  have scale : (0 : ℚ) ≤ 10 ^ exponent * unitsPerOne :=
    mul_nonneg (zpow_nonneg (by norm_num) _) (Nat.cast_nonneg _)
  rw [Decimal.units, Decimal.units, mul_assoc, mul_assoc]
  exact mul_le_mul_of_nonneg_right (Nat.cast_le.mpr le) scale

/-- The magnitude of a number lies between two neighbours among the decimals with an exponent. -/
theorem multipleBelow_spec (rank : Nat) (exponent : Int) :
    Decimal.units ⟨multipleBelow rank (gridSteps exponent), exponent⟩ ≤ magnitude rank ∧
      magnitude rank ≤ Decimal.units ⟨multipleBelow rank (gridSteps exponent) + 1, exponent⟩ := by
  obtain ⟨positive, scale⟩ := gridSteps_pos exponent
  have scale : (0 : ℚ) < (gridSteps exponent).2 := Nat.cast_pos.mpr scale
  have below : multipleBelow rank (gridSteps exponent) * (gridSteps exponent).1 ≤
      2 * magnitude rank * (gridSteps exponent).2 :=
    Nat.div_mul_le_self _ _
  have above : 2 * magnitude rank * (gridSteps exponent).2 ≤
      (multipleBelow rank (gridSteps exponent) + 1) * (gridSteps exponent).1 := by
    rw [Nat.mul_comm (multipleBelow rank (gridSteps exponent) + 1)]
    exact (Nat.lt_mul_div_succ _ positive).le
  have first := units_eq_gridSteps (multipleBelow rank (gridSteps exponent)) exponent
  have second := units_eq_gridSteps (multipleBelow rank (gridSteps exponent) + 1) exponent
  constructor
  · have twice : 2 * Decimal.units ⟨multipleBelow rank (gridSteps exponent), exponent⟩ *
        (gridSteps exponent).2 ≤ 2 * magnitude rank * (gridSteps exponent).2 := by
      rw [first]
      exact_mod_cast below
    linarith [le_of_mul_le_mul_right twice scale]
  · have twice : 2 * (magnitude rank : ℚ) * (gridSteps exponent).2 ≤
        2 * Decimal.units ⟨multipleBelow rank (gridSteps exponent) + 1, exponent⟩ *
          (gridSteps exponent).2 := by
      rw [second]
      exact_mod_cast above
    linarith [le_of_mul_le_mul_right twice scale]

theorem nearestAtExponent?_ne_none {candidate : Nat} {exponent : Int} (filled : 0 < rank)
    (rounds : RoundsTo (Decimal.units ⟨candidate, exponent⟩) rank) :
    nearestAtExponent? rank exponent ≠ none := by
  intro none
  obtain ⟨order, same⟩ := nearestAtExponent?_eq rank exponent
  have spec := takenOfTwo_spec (reaches rank · (gridSteps exponent))
    (multipleBelow rank (gridSteps exponent)) (multipleBelow rank (gridSteps exponent) + 1) order
    exponent
  rw [← same, none] at spec
  obtain ⟨below, above⟩ := multipleBelow_spec rank exponent
  have own := roundsTo_magnitude filled
  rcases Nat.lt_or_ge (multipleBelow rank (gridSteps exponent)) candidate with after | before
  · have reached := reaches_iff_roundsTo.mpr (own.between rounds above (units_le_units after))
    exact Bool.false_ne_true (spec.2.symm.trans reached)
  · have reached := reaches_iff_roundsTo.mpr (rounds.between own (units_le_units before) below)
    exact Bool.false_ne_true (spec.1.symm.trans reached)

theorem lt_pow_sub_mul {value scale digits places : Nat}
    (less : value * 10 ^ places < 10 ^ digits * scale) :
    (value : ℚ) < 10 ^ ((digits : ℤ) - places) * scale := by
  have power : (0 : ℚ) < 10 ^ places := pow_pos (by norm_num) _
  rw [zpow_sub₀ (by norm_num), zpow_natCast, zpow_natCast, div_mul_eq_mul_div, lt_div_iff₀ power]
  exact_mod_cast less

theorem lt_pow_decimalOrder (units : Nat) : (units : ℚ) < 10 ^ decimalOrder units * unitsPerOne := by
  have digits := lt_pow_decimalLength (units * Nat.pow 10 324 / unitsPerOne)
  rw [Nat.div_lt_iff_lt_mul unitsPerOne_pos] at digits
  exact lt_pow_sub_mul digits

theorem decimalLength_pos_of_roundsTo {decimal : Decimal} (filled : 0 < rank)
    (rounds : RoundsTo decimal.units rank) : 0 < decimalLength decimal.significand :=
  lt_decimalLength (Nat.one_le_iff_ne_zero.mpr (Decimal.filled_of_roundsTo filled rounds))

/-- With as many digits as some decimal of the interval has, the search meets the interval. -/
theorem exists_of_length {decimal : Decimal} (filled : 0 < rank)
    (rounds : RoundsTo decimal.units rank) :
    ∃ candidate, RoundsTo (Decimal.units
      ⟨candidate, decimalOrder (magnitude rank) - decimalLength decimal.significand⟩) rank := by
  have digit := decimalLength_pos_of_roundsTo filled rounds
  by_cases large : decimalOrder (magnitude rank) ≤
      decimalLength decimal.significand + decimal.exponent
  · obtain ⟨count, power⟩ := Int.le.dest large
    refine ⟨10 ^ count * decimal.significand, ?_⟩
    have exponent : decimalOrder (magnitude rank) - decimalLength decimal.significand =
        decimal.exponent - count := by omega
    rwa [exponent, units_zeros]
  · -- A power of ten lies between a decimal of smaller order and the number.
    refine ⟨10 ^ (decimalLength decimal.significand - 1) * 1, ?_⟩
    have exponent : decimalOrder (magnitude rank) - decimalLength decimal.significand =
        decimalOrder (magnitude rank) - 1 - (decimalLength decimal.significand - 1 : Nat) := by omega
    have one : (0 : ℚ) ≤ unitsPerOne := Nat.cast_nonneg _
    have power : (10 : ℚ) ^ (decimalLength decimal.significand + decimal.exponent : ℤ) ≤
        10 ^ (decimalOrder (magnitude rank) - 1) := zpow_le_zpow_right₀ (by norm_num) (by omega)
    have positive : 0 < magnitude rank := Nat.zero_lt_of_lt (magnitude_strictMono filled)
    have between := rounds.between (roundsTo_magnitude filled)
      (decimal.units_lt.le.trans (mul_le_mul_of_nonneg_right power one)) (pow_decimalOrder_le positive)
    have units : Decimal.units ⟨1, decimalOrder (magnitude rank) - 1⟩ =
        10 ^ (decimalOrder (magnitude rank) - 1) * unitsPerOne := by
      rw [Decimal.units, Nat.cast_one, one_mul]
    rwa [exponent, units_zeros, units]

theorem takenOfTwo_cases {holds : Nat → Bool} {below above : Nat} {order : Ordering} {exponent : Int}
    {decimal : Decimal} (taken : takenOfTwo holds below above order exponent = some decimal) :
    decimal.significand = below ∨ decimal.significand = above := by
  unfold takenOfTwo at taken
  split at taken
  · cases taken
  · exact .inl (Option.some.inj taken ▸ rfl)
  · exact .inr (Option.some.inj taken ▸ rfl)
  · split at taken
    · exact .inl (Option.some.inj taken ▸ rfl)
    · exact .inr (Option.some.inj taken ▸ rfl)
    · obtain rfl := Option.some.inj taken
      dsimp only
      split
      · exact .inl rfl
      · exact .inr rfl

theorem multipleBelow_lt (rank length : Nat) :
    multipleBelow rank (gridSteps (decimalOrder (magnitude rank) - length)) < 10 ^ length := by
  have one : (0 : ℚ) < unitsPerOne := Nat.cast_pos.mpr unitsPerOne_pos
  have below := (multipleBelow_spec rank (decimalOrder (magnitude rank) - length)).1.trans_lt
    (lt_pow_decimalOrder (magnitude rank))
  have scale : (0 : ℚ) < 10 ^ (decimalOrder (magnitude rank) - length) := zpow_pos (by norm_num) _
  have split : (10 : ℚ) ^ decimalOrder (magnitude rank) =
      10 ^ length * 10 ^ (decimalOrder (magnitude rank) - length) := by
    rw [← zpow_natCast, ← zpow_add₀ (by norm_num), add_sub_cancel]
  rw [Decimal.units, split] at below
  have less := lt_of_mul_lt_mul_right (lt_of_mul_lt_mul_right below one.le) scale.le
  exact_mod_cast less

theorem stripZeros_le (fuel : Nat) (decimal : Decimal) :
    (stripZeros fuel decimal).significand ≤ decimal.significand := by
  induction fuel generalizing decimal with
  | zero => exact Nat.le_refl _
  | succ fuel ih =>
      rw [stripZeros]
      split
      · exact (ih _).trans (Nat.div_le_self _ _)
      · exact Nat.le_refl _

theorem stripZeros_pow {count fuel : Nat} (exponent : Int) (enough : count ≤ fuel) :
    (stripZeros fuel ⟨10 ^ count, exponent⟩).significand = 1 := by
  induction count generalizing fuel exponent with
  | zero =>
      cases fuel <;> rfl
  | succ count ih =>
      obtain ⟨fuel, rfl⟩ : ∃ less, fuel = less + 1 := ⟨fuel - 1, by omega⟩
      have tenth : 10 ^ (count + 1) / 10 = 10 ^ count := by omega
      have whole : 10 ^ (count + 1) % 10 = 0 := by omega
      rw [stripZeros, if_pos whole, tenth]
      exact ih _ (by omega)

theorem decimalLength_found {length : Nat} {decimal : Decimal} (digit : 0 < length)
    (few : length ≤ 17)
    (found : nearestAtExponent? rank (decimalOrder (magnitude rank) - length) = some decimal) :
    decimalLength (stripZeros 17 decimal).significand ≤ length := by
  obtain ⟨order, same⟩ := nearestAtExponent?_eq rank (decimalOrder (magnitude rank) - length)
  have below := multipleBelow_lt rank length
  have bounded : decimal.significand ≤ 10 ^ length := by
    rcases takenOfTwo_cases (same.symm.trans found) with taken | taken
    · exact taken ▸ below.le
    · exact taken ▸ below
  rcases Nat.lt_or_eq_of_le bounded with less | equal
  · exact decimalLength_le ((stripZeros_le 17 decimal).trans_lt less)
  · obtain ⟨significand, exponent⟩ := decimal
    obtain rfl := equal
    rw [stripZeros_pow exponent few]
    exact digit

theorem shortestFrom_length {attempts length : Nat} (last : Nat) (digit : 0 < length)
    (since : length ≤ last) (upTo : last < length + attempts) (few : last ≤ 17)
    (found : nearestAtExponent? rank (decimalOrder (magnitude rank) - last) ≠ none) :
    decimalLength (shortestFrom rank (decimalOrder (magnitude rank)) attempts length).significand ≤
      last := by
  induction attempts generalizing length with
  | zero => omega
  | succ attempts ih =>
      rw [shortestFrom]
      cases here : nearestAtExponent? rank (decimalOrder (magnitude rank) - length) with
      | some decimal => exact (decimalLength_found digit (since.trans few) here).trans since
      | none =>
          have later : length ≠ last := by
            rintro rfl
            exact found here
          exact ih (by omega) (by omega) (by omega)

theorem shortestDecimal_fewest {negative : Bool} {decimal : Decimal} (filled : 0 < rank)
    (bound : rank < rankCount) (read : ofDecimal negative decimal = .finite negative ⟨rank, bound⟩) :
    decimalLength (shortestDecimal rank).significand ≤ decimalLength decimal.significand := by
  have rounds := roundsTo_of_ofDecimal filled bound read
  have digit := decimalLength_pos_of_roundsTo filled rounds
  by_cases few : decimalLength decimal.significand ≤ 17
  · obtain ⟨candidate, reached⟩ := exists_of_length filled rounds
    exact shortestFrom_length _ (by omega) digit (by omega) few
      (nearestAtExponent?_ne_none filled reached)
  · have all : decimalLength (shortestDecimal rank).significand ≤ 17 :=
      shortestFrom_length 17 (by omega) (by omega) (by omega) (by omega)
        (nearestAtExponent?_seventeen filled)
    exact all.trans (Nat.not_le.mp few).le

end

end Bella.Number
