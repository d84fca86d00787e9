import Bella.Proofs.Arithmetic.Rational
import Bella.Proofs.Rules.Primitive

/-! Powers by classes of bases and exponents. Main statement: every two numbers have a power, and
`IsPower` says for each class which one it is, down to the sign of a zero. -/

namespace Bella

open Host (isInfinite)

namespace Number

def ExceedsOne (number : Number) : Prop :=
  isInfinite number = true ∨ ∃ value, number.rational? = some value ∧ 1 < |value|

def HasMagnitudeOne (number : Number) : Prop :=
  ∃ value, number.rational? = some value ∧ |value| = 1

def IsSignOf (negative : Bool) (baseNegative : Prop) (exponent : ℚ) : Prop :=
  negative = true ↔ baseNegative ∧ ∃ half : ℤ, exponent = (2 * half + 1 : ℤ)

/-- What a power is, by classes of the base and the exponent. Where no class has a result of its own,
the host computes it. -/
structure IsPower (base exponent result : Number) : Prop where
  undefined_exponent : exponent = .nan → result = .nan
  zero_exponent : exponent.rational? = some 0 → result = ofNat 1
  undefined_base : base = .nan → exponent.rational? ≠ some 0 → result = .nan
  unit_base : ∀ sign, exponent = .infinite sign → base.HasMagnitudeOne → result = .nan
  infinite_exponent : ∀ sign, exponent = .infinite sign → base ≠ .nan → ¬base.HasMagnitudeOne →
    (base.ExceedsOne ↔ sign = false) → result = .infinite false
  vanishing_exponent : ∀ sign, exponent = .infinite sign → base ≠ .nan → ¬base.HasMagnitudeOne →
    ¬(base.ExceedsOne ↔ sign = false) → result = zero false
  infinite_base : ∀ sign value, base = .infinite sign → exponent.rational? = some value → value ≠ 0 →
    ∃ negative, IsSignOf negative (sign = true) value ∧
      result = if 0 < value then .infinite negative else zero negative
  zero_base : ∀ sign value, base = zero sign → exponent.rational? = some value → value ≠ 0 →
    ∃ negative, IsSignOf negative (sign = true) value ∧
      result = if 0 < value then zero negative else .infinite negative
  fraction : ∀ root value, base.rational? = some root → exponent.rational? = some value → root < 0 →
    (∀ whole : ℤ, value ≠ whole) → result = .nan
  overflow : ∀ root value, base.rational? = some root → exponent.rational? = some value →
    Host.power base exponent = .error .overflow →
    ∃ negative, IsSignOf negative (root < 0) value ∧ result = .infinite negative
  computed : ∀ root value, base.rational? = some root → exponent.rational? = some value →
    root ≠ 0 → value ≠ 0 → (root < 0 → ∃ whole : ℤ, value = whole) →
    Host.power base exponent ≠ .error .overflow → Host.power base exponent = .ok result

section

variable {number base exponent : Number} {value root : ℚ} {negative : Bool}

theorem isOddInteger_of_rational? (known : number.rational? = some value) :
    number.isOddInteger = true ↔ ∃ half : ℤ, value = (2 * half + 1 : ℤ) := by
  rw [isOddInteger_iff, known]
  simp only [Option.some.injEq]

theorem integer?_isNone (known : number.rational? = some value) :
    number.integer?.isNone = true ↔ ∀ whole : ℤ, value ≠ whole := by
  rw [Option.isNone_iff_eq_none, integer?_eq_none, known]
  simp only [ne_eq, Option.some.injEq]

theorem isSignOf_isOddInteger (sign : Bool) (known : exponent.rational? = some value) :
    IsSignOf (sign && exponent.isOddInteger) (sign = true) value := by
  rw [IsSignOf, Bool.and_eq_true, isOddInteger_of_rational? known]

theorem hasMagnitudeOne_finite (rank : Fin rankCount) :
    HasMagnitudeOne (.finite negative rank) ↔ magnitude rank = unitsPerOne := by
  have one := unitsPerOne_pos_rat
  simp only [HasMagnitudeOne, rational?_finite, Option.some.injEq, exists_eq_left',
    abs_signed_magnitude]
  rw [div_eq_one_iff_eq one.ne', Nat.cast_inj]

theorem exceedsOne_finite (rank : Fin rankCount) :
    ExceedsOne (.finite negative rank) ↔ unitsPerOne < magnitude rank := by
  have one := unitsPerOne_pos_rat
  simp only [ExceedsOne, isInfinite, Bool.false_eq_true, false_or, rational?_finite,
    Option.some.injEq, exists_eq_left', abs_signed_magnitude]
  rw [one_lt_div one, Nat.cast_lt]

theorem power_at_infinite {sign : Bool} (defined : base ≠ .nan) (other : ¬base.HasMagnitudeOne) :
    ((base.ExceedsOne ↔ sign = false) → base.power (.infinite sign) = .infinite false) ∧
      (¬(base.ExceedsOne ↔ sign = false) → base.power (.infinite sign) = zero false) := by
  cases base with
  | nan => exact absurd rfl defined
  | infinite negative => cases sign <;> simp [ExceedsOne, isInfinite, power]
  | finite negative rank =>
      rw [hasMagnitudeOne_finite] at other
      rw [exceedsOne_finite]
      rcases Nat.lt_or_gt_of_ne other with less | more
      · cases sign <;> simp [power, other, Nat.not_lt.mpr less.le]
      · cases sign <;> simp [power, other, more]

/-- The host refuses a finite power that overflows, a negative power of zero, and a negative base at a
fraction. -/
theorem host_power_refusal {refusal : Refusal} (refused : Host.power base exponent = .error refusal) :
    refusal = .overflow ∨ refusal = .domain ∧
      (base.isZero = true ∨ Host.isNegative base = true ∧ exponent.integer?.isNone = true) := by
  unfold Host.power at refused
  split at refused; · cases refused
  split at refused; · cases refused
  split at refused; · cases refused
  split at refused; · cases refused
  split at refused
  · rename_i none
    exact .inr ⟨(Except.error.inj refused).symm, .inl (Bool.and_eq_true_iff.mp none).1⟩
  split at refused
  · rename_i fraction
    exact .inr ⟨(Except.error.inj refused).symm, .inr (Bool.and_eq_true_iff.mp fraction)⟩
  split at refused
  · exact .inl (Except.error.inj refused).symm
  · cases refused

theorem power_of_overflow (known : exponent.rational? = some value)
    (refused : Host.power base exponent = .error .overflow) :
    base.power exponent = .infinite (Host.isNegative base && exponent.isOddInteger) := by
  obtain ⟨sign, rank, rfl, -⟩ := exists_of_rational? known
  have guarded := power_guarded base (.finite sign rank)
  rw [power_usual rfl, refused] at guarded
  exact (Except.ok.inj guarded).symm

theorem power_of_host_usual (root_known : base.rational? = some root)
    (known : exponent.rational? = some value) (filled : root ≠ 0)
    (whole : root < 0 → ∃ whole : ℤ, value = whole)
    (bounded : Host.power base exponent ≠ .error .overflow) :
    Host.power base exponent = .ok (base.power exponent) := by
  have guarded := power_guarded base exponent
  cases host : Host.power base exponent with
  | ok result =>
      obtain ⟨sign, rank, rfl, -⟩ := exists_of_rational? known
      rw [power_usual rfl, host] at guarded
      exact guarded
  | error refusal =>
      rcases host_power_refusal host with rfl | ⟨-, none | ⟨below, fraction⟩⟩
      · exact absurd host bounded
      · rw [← rational?_eq_zero, root_known, Option.some.injEq] at none
        exact absurd none filled
      · obtain ⟨part, same⟩ := whole ((isNegative_iff root_known).mp below)
        exact absurd same ((integer?_isNone known).mp fraction part)

/-- An exponent that is finite and not zero matters by its sign, by whether it is whole and by whether
it is odd, unless the base is finite and not zero, too. -/
theorem power_at_finite (known : exponent.rational? = some value) (filled : value ≠ 0) :
    Number.power .nan exponent = .nan ∧
      (∀ sign, Number.power (.infinite sign) exponent =
        if 0 < value then .infinite (sign && exponent.isOddInteger)
        else zero (sign && exponent.isOddInteger)) ∧
      (∀ sign, Number.power (zero sign) exponent =
        if 0 < value then zero (sign && exponent.isOddInteger)
        else .infinite (sign && exponent.isOddInteger)) := by
  have sign_iff := isNegative_iff known
  obtain ⟨negative, rank, rfl, -⟩ := exists_of_rational? known
  have least : rank.val ≠ 0 := by
    intro none
    exact filled (Option.some.inj (known.symm.trans (rational?_least none)))
  have positive : 0 < value ↔ negative = false := by
    rw [isNegative_finite, Bool.and_eq_true, bne_iff_ne] at sign_iff
    rw [← not_le, filled.le_iff_lt, ← sign_iff]
    simp [least]
  refine ⟨?_, fun sign => ?_, fun sign => ?_⟩
  · simp [power, least]
  · cases negative <;> simp [power, least, positive, withSign, zero]
  · cases negative <;> simp [power, least, positive, withSign, zero]

theorem power_of_fraction (root_known : base.rational? = some root)
    (known : exponent.rational? = some value) (below : root < 0) (fraction : ∀ whole : ℤ, value ≠ whole) :
    base.power exponent = .nan := by
  have negative := (isNegative_iff root_known).mpr below
  have part := (integer?_isNone known).mpr fraction
  obtain ⟨sign, rank, rfl, -⟩ := exists_of_rational? root_known
  obtain ⟨other, place, rfl, -⟩ := exists_of_rational? known
  obtain ⟨rfl, filled⟩ : sign = true ∧ rank.val ≠ 0 := by simpa [isNegative_finite] using negative
  have least : place.val ≠ 0 := by
    intro none
    have zero := Option.some.inj (known.symm.trans (rational?_least none))
    exact fraction 0 (zero.trans Int.cast_zero.symm)
  simp only [power, least, filled, if_false, part, Bool.true_and, if_true]

theorem isPower_power (base exponent : Number) : IsPower base exponent (base.power exponent) where
  undefined_exponent := by
    rintro rfl
    rfl
  zero_exponent known := by
    obtain ⟨sign, rank, rfl, -⟩ := exists_of_rational? known
    have null := isZero_finite.mp (rational?_eq_zero.mp known)
    rw [power, if_pos null]
  undefined_base := by
    rintro rfl other
    cases exponent with
    | finite sign rank =>
        refine (power_at_finite (rational?_finite sign rank) fun null => other ?_).1
        rw [rational?_finite, null]
    | _ => rfl
  unit_base := by
    rintro sign rfl ⟨root, known, one⟩
    obtain ⟨negative, rank, rfl, -⟩ := exists_of_rational? known
    rw [power, if_pos ((hasMagnitudeOne_finite rank).mp ⟨root, known, one⟩)]
  infinite_exponent := by
    rintro sign rfl defined other
    exact (power_at_infinite defined other).1
  vanishing_exponent := by
    rintro sign rfl defined other
    exact (power_at_infinite defined other).2
  infinite_base := by
    rintro sign value rfl known filled
    exact ⟨_, isSignOf_isOddInteger sign known, (power_at_finite known filled).2.1 sign⟩
  zero_base := by
    rintro sign value rfl known filled
    exact ⟨_, isSignOf_isOddInteger sign known, (power_at_finite known filled).2.2 sign⟩
  fraction _ _ root_known known := power_of_fraction root_known known
  overflow root value root_known known refused := by
    refine ⟨_, ?_, power_of_overflow known refused⟩
    rw [IsSignOf, Bool.and_eq_true, isNegative_iff root_known, isOddInteger_of_rational? known]
  computed root value root_known known filled _ whole :=
    power_of_host_usual root_known known filled whole

theorem IsSignOf.unique {other : Bool} {baseNegative : Prop}
    (one : IsSignOf negative baseNegative value) (two : IsSignOf other baseNegative value) :
    negative = other :=
  Bool.eq_iff_iff.mpr (one.trans two.symm)

/-- The classes leave no gap: they determine the power. -/
theorem IsPower.unique {result other : Number} (one : IsPower base exponent result)
    (two : IsPower base exponent other) : result = other := by
  cases exponent with
  | nan => rw [one.undefined_exponent rfl, two.undefined_exponent rfl]
  | infinite sign =>
      by_cases defined : base = .nan
      · have filled : rational? (.infinite sign) ≠ some 0 := nofun
        rw [one.undefined_base defined filled, two.undefined_base defined filled]
      by_cases unit : base.HasMagnitudeOne
      · rw [one.unit_base sign rfl unit, two.unit_base sign rfl unit]
      by_cases grows : base.ExceedsOne ↔ sign = false
      · rw [one.infinite_exponent sign rfl defined unit grows,
          two.infinite_exponent sign rfl defined unit grows]
      · rw [one.vanishing_exponent sign rfl defined unit grows,
          two.vanishing_exponent sign rfl defined unit grows]
  | finite sign rank =>
      have known := rational?_finite sign rank
      by_cases filled : signed sign (magnitude rank / unitsPerOne) = 0
      · have null := known.trans (congrArg some filled)
        rw [one.zero_exponent null, two.zero_exponent null]
      cases base with
      | nan =>
          have other := known.trans_ne fun null => filled (Option.some.inj null)
          rw [one.undefined_base rfl other, two.undefined_base rfl other]
      | infinite negative =>
          obtain ⟨own, own_sign, rfl⟩ := one.infinite_base negative _ rfl known filled
          obtain ⟨next, next_sign, rfl⟩ := two.infinite_base negative _ rfl known filled
          rw [own_sign.unique next_sign]
      | finite negative place =>
          have root_known := rational?_finite negative place
          by_cases least : place.val = 0
          · have same : Number.finite negative place = zero negative :=
              congrArg (Number.finite negative) (Fin.ext least)
            obtain ⟨own, own_sign, rfl⟩ := one.zero_base negative _ same known filled
            obtain ⟨next, next_sign, rfl⟩ := two.zero_base negative _ same known filled
            rw [own_sign.unique next_sign]
          by_cases refused :
              Host.power (.finite negative place) (.finite sign rank) = .error .overflow
          · obtain ⟨own, own_sign, rfl⟩ := one.overflow _ _ root_known known refused
            obtain ⟨next, next_sign, rfl⟩ := two.overflow _ _ root_known known refused
            rw [own_sign.unique next_sign]
          by_cases fraction : signed negative (magnitude place / unitsPerOne) < 0 ∧
              ∀ whole : ℤ, signed sign (magnitude rank / unitsPerOne) ≠ whole
          · rw [one.fraction _ _ root_known known fraction.1 fraction.2,
              two.fraction _ _ root_known known fraction.1 fraction.2]
          · have root_filled := mt (@signed_magnitude_eq_zero negative place).mp least
            have whole (below : signed negative (magnitude place / unitsPerOne) < 0) :
                ∃ whole : ℤ, signed sign (magnitude rank / unitsPerOne) = whole := by
              by_contra none
              exact fraction ⟨below, not_exists.mp none⟩
            exact Except.ok.inj
              ((one.computed _ _ root_known known root_filled filled whole refused).symm.trans
                (two.computed _ _ root_known known root_filled filled whole refused))

end

end Number

/-- Every two numbers have a power, whatever the host refuses, and it is the only one that is right by
their classes. -/
theorem power_by_classes (base exponent : Number) :
    ∃ result, RealMath.power base exponent = .ok result ∧
      binaryResult (.text "**") (.number base) (.number exponent) = .ok (.number result) ∧
      Number.IsPower base exponent result ∧
      ∀ other, Number.IsPower base exponent other → other = result :=
  ⟨base.power exponent, power_guarded base exponent,
    binaryResult_of_rule (.numbers (.power base exponent)), Number.isPower_power base exponent,
    fun _ right => right.unique (Number.isPower_power base exponent)⟩

theorem power_of_large_negative :
    binaryResult (.text "**") (.number (.finite true ⟨2000 * Number.binadeSize, by decide⟩))
      (.number (.ofNat 3)) = .ok (.number (.infinite true)) := by
  have root := Number.rational?_finite true ⟨2000 * Number.binadeSize, by decide⟩
  have three : (Number.ofNat 3).rational? = some ((3 : ℤ) : ℚ) :=
    Number.integer?_eq_some.mp (by decide +kernel)
  obtain ⟨result, -, same, right, -⟩ := power_by_classes
    (.finite true ⟨2000 * Number.binadeSize, by decide⟩) (.ofNat 3)
  obtain ⟨negative, sign, rfl⟩ := right.overflow _ _ root three (by decide +kernel)
  obtain rfl : negative = true :=
    sign.mpr ⟨(Number.isNegative_iff root).mp (by decide), 1, by norm_num⟩
  exact same

end Bella
