import Bella.Operator

/-! No operation of the host refuses what programs give it. Each function on numbers looks for the
arguments that are refused before it asks, or takes the refusal for a result. -/

namespace Bella

open Host

theorem isNegative_infinite (negative : Bool) : isNegative (.infinite negative) = negative := by
  cases negative <;> decide

theorem isNegative_finite (negative : Bool) (rank : Fin Number.rankCount) :
    isNegative (.finite negative rank) = (negative && rank.val != 0) := by
  cases negative with
  | false => simp [isNegative, Number.less, Number.position?, Number.zero]
  | true =>
      by_cases least : rank.val = 0
      · simp [isNegative, Number.less, Number.position?, Number.zero, least]
      · simp [isNegative, Number.less, Number.position?, Number.zero, least,
          Nat.pos_of_ne_zero least]

theorem squareRoot_guarded (number : Number) :
    RealMath.squareRoot number = .ok number.squareRoot := by
  cases number with
  | nan => rfl
  | infinite negative =>
      cases negative <;>
        simp [RealMath.squareRoot, Host.squareRoot, isNan, isNegative_infinite, Number.squareRoot]
  | finite negative rank =>
      by_cases below : (negative && rank.val != 0) = true
      · obtain ⟨rfl, filled⟩ : negative = true ∧ rank.val ≠ 0 := by simpa using below
        simp [RealMath.squareRoot, isNegative_finite, Number.squareRoot, filled]
      · simp [RealMath.squareRoot, Host.squareRoot, isNan, isNegative_finite, below]

theorem sine_guarded (number : Number) : RealMath.sine number = .ok number.sine := by
  cases number <;> rfl

theorem cosine_guarded (number : Number) : RealMath.cosine number = .ok number.cosine := by
  cases number <;> rfl

theorem naturalLogarithm_guarded (number : Number) :
    RealMath.naturalLogarithm number = .ok number.naturalLogarithm := by
  cases number with
  | nan => rfl
  | infinite negative =>
      cases negative <;>
        simp [RealMath.naturalLogarithm, Host.naturalLogarithm, isNan, isNegative_infinite,
          Number.naturalLogarithm, Number.isZero]
  | finite negative rank =>
      by_cases least : rank.val = 0
      · simp [RealMath.naturalLogarithm, isNan, isNegative_finite, Number.naturalLogarithm,
          Number.isZero, least]
      · cases negative <;>
          simp [RealMath.naturalLogarithm, Host.naturalLogarithm, isNan, isNegative_finite,
            Number.naturalLogarithm, Number.isZero, least]

theorem remainder_guarded (dividend divisor : Number) :
    RealMath.remainder dividend divisor = .ok (dividend.remainder divisor) := by
  cases dividend with
  | nan => rfl
  | infinite negative => cases divisor <;> rfl
  | finite negative rank =>
      cases divisor with
      | nan => rfl
      | infinite => rfl
      | finite divisorNegative divisorRank =>
          by_cases least : divisorRank.val = 0
          · simp [RealMath.remainder, isNan, isInfinite, Number.isZero, Number.remainder, least]
          · simp [RealMath.remainder, Host.remainder, isNan, isInfinite, Number.isZero, least]

theorem one_eq : Number.ofNat 1 = .finite false ⟨1023 * Number.binadeSize, by decide⟩ := by
  decide +kernel

theorem magnitude_one : Number.magnitude (1023 * Number.binadeSize) = Number.unitsPerOne := by
  decide +kernel

/-- An overflow is taken for an infinite result, as the exponential of an infinite number is. -/
theorem exponential_guarded (number : Number) :
    RealMath.exponential number =
      .ok (if isInfinite number.exponential then .infinite false else number.exponential) := by
  unfold RealMath.exponential Host.exponential
  cases number with
  | nan => rfl
  | infinite negative => cases negative <;> rfl
  | finite negative rank =>
      cases size : isInfinite (Number.finite negative rank).exponential with
      | false => simp
      | true => simp [isInfinite]

theorem whole_parts_iff (parts unit : Nat) :
    (parts : Int) = ((parts / unit : Nat) : Int) * unit ↔ parts % unit = 0 := by
  have split := Nat.div_add_mod' parts unit
  rw [← Int.natCast_mul, Int.natCast_inj]
  omega

theorem whole_of_parts (negative : Bool) (parts unit : Nat) :
    let units : Int := if negative then -(parts : Int) else parts
    let whole : Int := if negative then -((parts / unit : Nat) : Int) else (parts / unit : Nat)
    (if units.natAbs % unit = 0 then
        some (if units < 0 then -((units.natAbs / unit : Nat) : Int)
          else ((units.natAbs / unit : Nat) : Int))
      else none) =
      if some units == some (whole * unit) then some whole else none := by
  have exact_iff := whole_parts_iff parts unit
  cases negative with
  | false =>
      have nonnegative : ¬(parts : Int) < 0 := by omega
      simp only [Bool.false_eq_true, if_false, Int.natAbs_natCast, Option.some_beq_some, beq_iff_eq,
        exact_iff, nonnegative]
  | true =>
      have signed : -(parts : Int) = -((parts / unit : Nat) : Int) * unit ↔ parts % unit = 0 := by
        rw [Int.neg_mul, Int.neg_inj]
        exact exact_iff
      simp only [if_true, Int.natAbs_neg, Int.natAbs_natCast, Option.some_beq_some, beq_iff_eq,
        signed]
      by_cases below : -(parts : Int) < 0
      · simp only [below, if_true]
      · obtain rfl : parts = 0 := by omega
        simp

theorem integer?_truncate (negative : Bool) (rank : Fin Number.rankCount) :
    ∃ whole, truncate (.finite negative rank) = .ok whole ∧
      Number.integer? (.finite negative rank) =
        if equalsWhole (.finite negative rank) whole then some whole else none := by
  refine ⟨_, rfl, ?_⟩
  simp only [Number.integer?, Number.units?, equalsWhole]
  exact whole_of_parts negative _ _

theorem isOddExponent_guarded (exponent : Number) :
    RealMath.isOddExponent exponent = .ok exponent.isOddInteger := by
  cases exponent with
  | nan => rfl
  | infinite => rfl
  | finite negative rank =>
      obtain ⟨whole, truncated, same⟩ := integer?_truncate negative rank
      have odd : (whole % 2 == 1) = (whole.natAbs % 2 == 1) := by
        rw [Bool.eq_iff_iff]
        simp only [beq_iff_eq]
        omega
      simp only [RealMath.isOddExponent, isInfinite, isNan, truncated, Number.isOddInteger, same,
        Bool.or_self, Bool.false_eq_true, if_false, bind, Except.bind, pure, Except.pure]
      by_cases equal : equalsWhole (.finite negative rank) whole = true
      · simp only [equal, if_true, Bool.true_and, odd]
      · simp only [equal, Bool.false_eq_true, if_false, Bool.false_and]

theorem eq_one_of_equal {base : Number} (same : base.equal (Number.ofNat 1) = true) :
    base = Number.ofNat 1 := by
  rw [one_eq] at same ⊢
  cases base with
  | nan => exact nomatch same
  | infinite negative => cases negative <;> exact absurd same (by decide +kernel)
  | finite negative rank =>
      have position : (if negative then -(rank.val : Int) else rank.val) =
          ((1023 * Number.binadeSize : Nat) : Int) := by
        simpa [Number.equal, Number.position?] using same
      cases negative with
      | false =>
          have value : rank.val = 1023 * Number.binadeSize := Int.ofNat_inj.mp (by simpa using position)
          exact congrArg (Number.finite false) (Fin.ext value)
      | true =>
          have filled : 0 < Number.binadeSize := by decide
          simp only [if_true] at position
          omega

theorem equal_one_infinite (negative : Bool) :
    (Number.infinite negative).equal (Number.ofNat 1) = false := by
  cases negative <;> decide +kernel

theorem isInfinite_withSign (negative : Bool) (number : Number) :
    isInfinite (Number.withSign negative number) = isInfinite number := by
  cases number <;> rfl

theorem withSign_infinite {negative : Bool} {number : Number}
    (infinite : isInfinite number = true) :
    Number.withSign negative number = .infinite negative := by
  cases number with
  | infinite => rfl
  | _ => exact nomatch infinite

theorem power_usual {base exponent : Number}
    (usual : (isNan exponent || (isInfinite exponent && hasUnitMagnitude base)) = false) :
    RealMath.power base exponent =
      match Host.power base exponent with
      | .error .overflow => .ok (.infinite (isNegative base && exponent.isOddInteger))
      | .error .domain =>
          if base.isZero then .ok (.infinite (exponent.isOddInteger && signBit base)) else .ok .nan
      | result => result := by
  rw [RealMath.power, if_neg (Bool.eq_false_iff.mp usual), isOddExponent_guarded]
  rfl

theorem power_of_host {base exponent : Number}
    (usual : (isNan exponent || (isInfinite exponent && hasUnitMagnitude base)) = false)
    (host : Host.power base exponent = .ok (base.power exponent)) :
    RealMath.power base exponent = .ok (base.power exponent) := by
  rw [power_usual usual, host]

theorem power_infinite (base : Number) (negative : Bool) :
    RealMath.power base (.infinite negative) = .ok (base.power (.infinite negative)) := by
  cases base with
  | nan => rfl
  | infinite baseNegative =>
      refine power_of_host rfl ?_
      simp [Host.power, equal_one_infinite, Number.isZero, hasUnitMagnitude, isNan, isInfinite]
  | finite baseNegative baseRank =>
      by_cases unit : Number.magnitude baseRank = Number.unitsPerOne
      · have special : hasUnitMagnitude (.finite baseNegative baseRank) = true := by
          simpa [hasUnitMagnitude] using unit
        simp [RealMath.power, isInfinite, special, Number.power, unit]
      · have usual : hasUnitMagnitude (.finite baseNegative baseRank) = false := by
          simpa [hasUnitMagnitude] using unit
        have other : (Number.finite baseNegative baseRank).equal (Number.ofNat 1) = false := by
          rw [Bool.eq_false_iff]
          intro same
          rw [eq_one_of_equal same, one_eq] at usual
          exact absurd usual (by decide +kernel)
        refine power_of_host (by simp [isNan, usual]) ?_
        simp [Host.power, other, Number.isZero, usual, isNan, isInfinite]

section

variable {negative baseNegative : Bool} {rank baseRank : Fin Number.rankCount}

theorem isZero_filled (filled : rank.val ≠ 0) : (Number.finite negative rank).isZero = false := by
  simpa [Number.isZero] using filled

theorem isNegative_filled (filled : rank.val ≠ 0) :
    isNegative (.finite negative rank) = negative := by
  simp [isNegative_finite, filled]

theorem power_one (filled : rank.val ≠ 0)
    (one : (Number.finite baseNegative baseRank).equal (Number.ofNat 1) = true) :
    RealMath.power (.finite baseNegative baseRank) (.finite negative rank) =
      .ok ((Number.finite baseNegative baseRank).power (.finite negative rank)) := by
  refine power_of_host rfl ?_
  have same := eq_one_of_equal one
  rw [one_eq] at same
  obtain ⟨rfl, rank_eq⟩ := Number.finite.inj same
  have unit : Number.magnitude baseRank = Number.unitsPerOne := by
    rw [rank_eq]
    exact magnitude_one
  have filledBase : baseRank.val ≠ 0 := by
    rw [rank_eq]
    decide
  have value : (Number.finite false baseRank).power (.finite negative rank) = Number.ofNat 1 := by
    simp only [Number.power, filled, filledBase, if_false, Bool.false_and, unit,
      Number.powerMagnitude, if_true, Bool.false_eq_true]
    rw [one_eq]
    rfl
  simp [Host.power, one, value]

variable (other : (Number.finite baseNegative baseRank).equal (Number.ofNat 1) ≠ true)

include other

theorem power_zero (filled : rank.val ≠ 0) (least : baseRank.val = 0) :
    RealMath.power (.finite baseNegative baseRank) (.finite negative rank) =
      .ok ((Number.finite baseNegative baseRank).power (.finite negative rank)) := by
  have exponential : (Number.finite negative rank).isZero = false := isZero_filled filled
  have sign : isNegative (.finite negative rank) = negative := isNegative_filled filled
  have null : (Number.finite baseNegative baseRank).isZero = true := by
    simpa [Number.isZero] using least
  have positive : isNegative (.finite baseNegative baseRank) = false := by
    simp [isNegative_finite, least]
  rw [power_usual rfl]
  cases negative with
  | true =>
      simp [Host.power, other, exponential, hasUnitMagnitude, isNan, isInfinite, null, sign,
        Number.power, filled, least, Number.withSign, signBit, Bool.and_comm]
  | false =>
      simp [Host.power, other, exponential, hasUnitMagnitude, isNan, isInfinite, null, sign,
        Number.power, filled, least, Number.withSign, positive, Number.zero]

theorem power_filled (filled : rank.val ≠ 0) (filledBase : baseRank.val ≠ 0) :
    RealMath.power (.finite baseNegative baseRank) (.finite negative rank) =
      .ok ((Number.finite baseNegative baseRank).power (.finite negative rank)) := by
  have exponential : (Number.finite negative rank).isZero = false := isZero_filled filled
  have nonzero : (Number.finite baseNegative baseRank).isZero = false := isZero_filled filledBase
  have sign : isNegative (.finite baseNegative baseRank) = baseNegative :=
    isNegative_filled filledBase
  have value : (Number.finite baseNegative baseRank).power (.finite negative rank) =
      if baseNegative && (Number.finite negative rank).integer?.isNone then .nan
      else .withSign (baseNegative && (Number.finite negative rank).isOddInteger)
        (.powerMagnitude (Number.magnitude baseRank) (Number.magnitude rank) negative) := by
    simp only [Number.power, filled, filledBase, if_false]
  have host : Host.power (.finite baseNegative baseRank) (.finite negative rank) =
      if baseNegative && (Number.finite negative rank).integer?.isNone then .error .domain
      else if isInfinite ((Number.finite baseNegative baseRank).power (.finite negative rank))
        then .error .overflow
      else .ok ((Number.finite baseNegative baseRank).power (.finite negative rank)) := by
    simp [Host.power, other, exponential, hasUnitMagnitude, isNan, isInfinite, nonzero, sign]
  rw [power_usual rfl, host]
  by_cases fraction : (baseNegative && (Number.finite negative rank).integer?.isNone) = true
  · simp only [value, fraction, if_true, nonzero, Bool.false_eq_true, if_false]
  rw [if_neg fraction]
  by_cases overflow : isInfinite
      ((Number.finite baseNegative baseRank).power (.finite negative rank)) = true
  · rw [if_pos overflow]
    rw [value, if_neg fraction] at overflow ⊢
    rw [isInfinite_withSign] at overflow
    rw [withSign_infinite overflow, sign]
  · rw [if_neg overflow]

end

theorem power_finite (base : Number) (negative : Bool) (rank : Fin Number.rankCount)
    (filled : rank.val ≠ 0) :
    RealMath.power base (.finite negative rank) = .ok (base.power (.finite negative rank)) := by
  have exponential : (Number.finite negative rank).isZero = false := isZero_filled filled
  cases base with
  | nan =>
      refine power_of_host rfl ?_
      simp [Host.power, Number.equal, Number.position?, exponential, hasUnitMagnitude, isNan,
        Number.power, filled]
  | infinite baseNegative =>
      refine power_of_host rfl ?_
      simp [Host.power, equal_one_infinite, exponential, hasUnitMagnitude, isNan, isInfinite]
  | finite baseNegative baseRank =>
      by_cases one : (Number.finite baseNegative baseRank).equal (Number.ofNat 1) = true
      · exact power_one filled one
      by_cases least : baseRank.val = 0
      · exact power_zero one filled least
      · exact power_filled one filled least

theorem power_guarded (base exponent : Number) :
    RealMath.power base exponent = .ok (base.power exponent) := by
  cases exponent with
  | nan => rfl
  | infinite negative => exact power_infinite base negative
  | finite negative rank =>
      by_cases filled : rank.val = 0
      · have exponential : (Number.finite negative rank).isZero = true := by
          simpa [Number.isZero] using filled
        refine power_of_host rfl ?_
        simp [Host.power, exponential, Number.power, filled]
      · exact power_finite base negative rank filled

theorem magnitude_pos {rank : Nat} (filled : rank ≠ 0) : 0 < Number.magnitude rank := by
  have size : 0 < Number.binadeSize := by decide
  have below : rank / Number.binadeSize * Number.binadeSize ≤ rank := Nat.div_mul_le_self _ _
  have rest : (rank / Number.binadeSize - 1) * Number.binadeSize < rank := by
    rw [Nat.sub_mul]
    omega
  exact Nat.mul_pos (Nat.sub_pos_of_lt rest) (Nat.pow_pos (by decide))

def signedUnits (negative : Bool) (rank : Fin Number.rankCount) : Int :=
  if negative then -(Number.magnitude rank : Int) else Number.magnitude rank

theorem zero_lessOrEqual_iff (negative : Bool) (rank : Fin Number.rankCount) :
    (Number.zero false).lessOrEqual (.finite negative rank) = true ↔
      0 ≤ signedUnits negative rank := by
  cases negative with
  | false =>
      simp only [Number.lessOrEqual, Number.less, Number.equal, Number.position?, Number.zero,
        signedUnits]
      simp
      omega
  | true =>
      simp only [Number.lessOrEqual, Number.less, Number.equal, Number.position?, Number.zero,
        signedUnits]
      by_cases least : rank.val = 0
      · simp [least, Number.magnitude]
      · have positive := magnitude_pos least
        simp
        omega

theorem bounds_iff {negative : Bool} {rank : Fin Number.rankCount} {whole : Int} (length : Nat)
    (exactly : equalsWhole (.finite negative rank) whole = true) :
    ((Number.zero false).lessOrEqual (.finite negative rank) &&
        lessThanWhole (.finite negative rank) length) = true ↔ 0 ≤ whole ∧ whole < length := by
  have unit : (0 : Int) < (Number.unitsPerOne : Nat) := by decide +kernel
  have units : signedUnits negative rank = whole * (Number.unitsPerOne : Nat) :=
    Option.some.inj (beq_iff_eq.mp exactly)
  have below : lessThanWhole (.finite negative rank) length = true ↔
      signedUnits negative rank < length * (Number.unitsPerOne : Nat) :=
    decide_eq_true_iff
  rw [Bool.and_eq_true, zero_lessOrEqual_iff, below, units]
  refine and_congr ?_ ?_
  · exact ⟨fun low => Int.nonneg_of_mul_nonneg_left low unit,
      fun low => Int.mul_nonneg low (Int.le_of_lt unit)⟩
  · exact ⟨fun high => Int.lt_of_mul_lt_mul_right high (Int.le_of_lt unit),
      fun high => Int.mul_lt_mul_of_pos_right high unit⟩

theorem item_of_lt {items : List Value} {index : Nat} (inside : index < items.length) :
    item items (index : Int) = .ok items[index] := by
  have nonnegative : ¬(index : Int) < 0 := by omega
  simp only [item, if_neg nonnegative]
  simp [inside]

/-- A subscript is never asked for its whole part unless it has one, nor for an item past the
end. -/
theorem itemAt_guarded (items : List Value) (subscript : Number) :
    itemAt items subscript = .ok (match subscript.integer? with
      | some (.ofNat index) => items[index]?
      | _ => none) := by
  cases subscript with
  | nan => rfl
  | infinite negative => cases negative <;> rfl
  | finite negative rank =>
      obtain ⟨whole, truncated, same⟩ := integer?_truncate negative rank
      rw [same]
      simp only [itemAt, truncated, bind, Except.bind, pure, Except.pure]
      by_cases exactly : equalsWhole (.finite negative rank) whole = true
      · rw [if_pos exactly, if_pos exactly]
        have bounds := bounds_iff items.length exactly
        by_cases within : 0 ≤ whole ∧ whole < items.length
        · rw [if_pos (bounds.mpr within)]
          obtain ⟨index, rfl⟩ := Int.eq_ofNat_of_zero_le within.1
          have inside : index < items.length := Int.ofNat_lt.mp within.2
          simp [item_of_lt inside, inside]
        · rw [if_neg fun holds => within (bounds.mp holds)]
          cases whole with
          | negSucc below => rfl
          | ofNat index =>
              have outside : items.length ≤ index := by
                have : ¬(0 ≤ (index : Int) ∧ (index : Int) < items.length) := within
                omega
              simp [outside]
      · rw [if_neg exactly, if_neg exactly]
        split <;> rfl

end Bella
