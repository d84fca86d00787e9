import Bella.Proofs.Decimal.Interval
import Bella.Proofs.Guards
import Mathlib.Data.Rat.Floor

/-! The rationals that finite numbers are, and what operations on numbers see of them: zeros, signs,
whole numbers and odd ones. -/

namespace Bella.Number

def rational? (number : Number) : Option ℚ :=
  number.units?.map fun units : Int => (units : ℚ) / unitsPerOne

def signed (negative : Bool) (magnitude : ℚ) : ℚ :=
  if negative then -magnitude else magnitude

section

variable {number : Number} {negative : Bool} {value : ℚ}

theorem unitsPerOne_pos_rat : (0 : ℚ) < unitsPerOne :=
  Nat.cast_pos.mpr unitsPerOne_pos

theorem rational?_finite (negative : Bool) (rank : Fin rankCount) :
    rational? (.finite negative rank) = some (signed negative (magnitude rank / unitsPerOne)) := by
  cases negative with
  | false => rfl
  | true =>
      refine congrArg some ?_
      simp only [if_true, Int.cast_neg, Int.cast_natCast, neg_div, signed]

@[simp] theorem rational?_nan : rational? .nan = none :=
  rfl

@[simp] theorem rational?_infinite (negative : Bool) : rational? (.infinite negative) = none :=
  rfl

theorem exists_of_rational? (known : number.rational? = some value) :
    ∃ negative rank, number = .finite negative rank ∧
      value = signed negative (magnitude rank / unitsPerOne) := by
  cases number with
  | finite negative rank =>
      rw [rational?_finite] at known
      exact ⟨negative, rank, rfl, (Option.some.inj known).symm⟩
  | _ => cases known

theorem signed_eq_zero : signed negative value = 0 ↔ value = 0 := by
  cases negative <;> simp [signed]

theorem magnitude_div_nonneg (rank : Nat) : (0 : ℚ) ≤ magnitude rank / unitsPerOne :=
  div_nonneg (Nat.cast_nonneg _) unitsPerOne_pos_rat.le

theorem abs_signed_magnitude (negative : Bool) (rank : Nat) :
    |signed negative (magnitude rank / unitsPerOne)| = magnitude rank / unitsPerOne := by
  have nonnegative := magnitude_div_nonneg rank
  cases negative with
  | false => exact abs_of_nonneg nonnegative
  | true => exact (abs_neg _).trans (abs_of_nonneg nonnegative)

theorem magnitude_eq_zero {rank : Nat} : magnitude rank = 0 ↔ rank = 0 := by
  constructor
  · intro none
    by_contra filled
    exact (magnitude_pos filled).ne' none
  · rintro rfl
    exact magnitude_zero

theorem isZero_finite {rank : Fin rankCount} :
    isZero (.finite negative rank) = true ↔ rank.val = 0 :=
  beq_iff_eq

theorem signed_magnitude_eq_zero {rank : Nat} :
    signed negative (magnitude rank / unitsPerOne) = 0 ↔ rank = 0 := by
  rw [signed_eq_zero, div_eq_zero_iff, or_iff_left unitsPerOne_pos_rat.ne', Nat.cast_eq_zero,
    magnitude_eq_zero]

theorem rational?_eq_zero : number.rational? = some 0 ↔ number.isZero = true := by
  cases number with
  | finite negative rank =>
      rw [rational?_finite, Option.some.injEq, signed_magnitude_eq_zero, isZero_finite]
  | _ => exact ⟨nofun, nofun⟩

theorem rational?_least {rank : Fin rankCount} (least : rank.val = 0) :
    rational? (.finite negative rank) = some 0 :=
  rational?_eq_zero.mpr (isZero_finite.mpr least)

theorem isNegative_iff (known : number.rational? = some value) :
    Host.isNegative number = true ↔ value < 0 := by
  obtain ⟨sign, rank, rfl, rfl⟩ := exists_of_rational? known
  have filled : rank.val ≠ 0 ↔ magnitude rank ≠ 0 := not_congr magnitude_eq_zero.symm
  rw [isNegative_finite, Bool.and_eq_true, bne_iff_ne, filled]
  cases sign with
  | false =>
      exact ⟨fun both => absurd both.1 Bool.false_ne_true,
        fun below => absurd (magnitude_div_nonneg rank) (not_le.mpr below)⟩
  | true =>
      rw [signed, if_pos rfl, neg_lt_zero, div_pos_iff_of_pos_right unitsPerOne_pos_rat, Nat.cast_pos,
        Nat.pos_iff_ne_zero]
      simp

theorem integer?_eq_some {whole : Int} :
    number.integer? = some whole ↔ number.rational? = some (whole : ℚ) := by
  have scaled : number.rational? = some (whole : ℚ) ↔ number.units? = some (whole * unitsPerOne) := by
    rw [rational?]
    cases number.units? with
    | none => exact ⟨nofun, nofun⟩
    | some units =>
        rw [Option.map_some, Option.some.injEq, div_eq_iff unitsPerOne_pos_rat.ne', Option.some.injEq]
        norm_cast
  rw [scaled]
  constructor
  · intro found
    cases number with
    | finite negative rank =>
        obtain ⟨other, -, same⟩ := integer?_truncate negative rank
        rw [same] at found
        split at found
        · rename_i equal
          obtain rfl := Option.some.inj found
          exact beq_iff_eq.mp equal
        · cases found
    | _ => cases found
  · intro units
    have size : (whole * (unitsPerOne : Int)).natAbs = whole.natAbs * unitsPerOne := by
      rw [Int.natAbs_mul, Int.natAbs_natCast]
    have one : 0 < (unitsPerOne : Int) := Int.natCast_pos.mpr unitsPerOne_pos
    have sign : whole * (unitsPerOne : Int) < 0 ↔ whole < 0 := by
      rw [mul_neg_iff]
      omega
    simp only [integer?, units, size, Nat.mul_mod_left, if_true, sign,
      Nat.mul_div_cancel _ unitsPerOne_pos, Option.some.injEq]
    split <;> omega

theorem integer?_eq_none :
    number.integer? = none ↔ ∀ whole : Int, number.rational? ≠ some (whole : ℚ) := by
  rw [Option.eq_none_iff_forall_ne_some]
  exact forall_congr' fun whole => not_congr integer?_eq_some

theorem isOddInteger_iff :
    number.isOddInteger = true ↔ ∃ half : Int, number.rational? = some ((2 * half + 1 : Int) : ℚ) := by
  rw [isOddInteger]
  constructor
  · intro odd
    cases found : number.integer? with
    | none => simp [found] at odd
    | some whole =>
        rw [found, beq_iff_eq] at odd
        have split : whole = 2 * (whole / 2) + 1 := by omega
        exact ⟨whole / 2, integer?_eq_some.mp (split ▸ found)⟩
  · rintro ⟨half, known⟩
    rw [integer?_eq_some.mpr known, beq_iff_eq]
    omega

end

end Bella.Number
