import Bella.Proofs.Arithmetic.Rational
import Bella.Proofs.Decimal.Fewest
import Bella.Proofs.Grammar.Literal

/-! Rounding to the nearest number. What lies halfway between two numbers goes to the one whose
significand is even, and what lies far enough past the largest number to infinity. Main statement: a
quotient of units is rounded to the nearest number, and there is only one. -/

namespace Bella.Number

def overflowBound : Nat :=
  2 ^ 1024 - 2 ^ 970

def HasEvenSignificand (number : Number) : Prop :=
  ∃ half doublings : Nat,
    number.rational? = some (((2 * half * 2 ^ doublings : Nat) : ℚ) / unitsPerOne) ∧
    2 * half < 2 ^ 53 ∧ (doublings = 0 ∨ 2 ^ 52 ≤ 2 * half)

/-- The number that a rational, not a negative one, is rounded to. From the bound on that is infinity.
Otherwise no finite number is nearer, and if another one is as near the significand is even. -/
structure IsNearest (value : ℚ) (number : Number) : Prop where
  unsigned : number.IsUnsigned
  overflow : number = .infinite false ↔ (overflowBound : ℚ) ≤ value
  nearest : ∀ (other : Number) (here there : ℚ), number.rational? = some here →
    other.rational? = some there → |value - here| ≤ |value - there|
  even : ∀ (other : Number) (here there : ℚ), number.rational? = some here →
    other.rational? = some there → there ≠ here → |value - there| = |value - here| →
    number.HasEvenSignificand

section

variable {point low high units value : ℚ} {numerator denominator rank other limit : Nat}

theorem nearer_iff (point low high : ℚ) :
    |point - low| ≤ |point - high| ↔ 0 ≤ (high - low) * (low + high - 2 * point) := by
  have difference :
      (point - high) ^ 2 - (point - low) ^ 2 = (high - low) * (low + high - 2 * point) := by
    ring
  rw [← sq_le_sq, ← sub_nonneg, difference]

theorem low_nearer_iff (less : low < high) :
    |point - low| ≤ |point - high| ↔ 2 * point ≤ low + high := by
  rw [nearer_iff, mul_nonneg_iff_of_pos_left (sub_pos.mpr less), sub_nonneg]

theorem high_nearer_iff (less : low < high) :
    |point - high| ≤ |point - low| ↔ low + high ≤ 2 * point := by
  rw [nearer_iff, ← neg_mul_neg, mul_nonneg_iff_of_pos_left (neg_pos.mpr (sub_neg.mpr less)), neg_sub,
    sub_nonneg, add_comm]

theorem magnitude_cast_lt (less : rank < other) : (magnitude rank : ℚ) < magnitude other :=
  Nat.cast_lt.mpr (magnitude_strictMono less)

theorem magnitude_cast_le (le : rank ≤ other) : (magnitude rank : ℚ) ≤ magnitude other :=
  Nat.cast_le.mpr (magnitude_strictMono.monotone le)

theorem nearestRank_eq_zero {whole : Nat} {compareTwice : Nat → Ordering}
    (found : nearestRank whole compareTwice = 0) :
    compareTwice (magnitude 0 + magnitude (0 + 1)) ≠ .gt := by
  have least : rankBelow whole = 0 := by
    simp only [nearestRank] at found
    split at found
    · exact found
    · omega
    · split at found <;> omega
  intro above
  have next := (nearestRank_of_gt least above).symm.trans found
  omega

theorem near_nearestRank (positive : 0 < denominator) :
    Near numerator denominator (nearestRank (numerator / denominator)
      fun midpoint => compare (2 * numerator) (midpoint * denominator)) := by
  generalize found : nearestRank _ _ = rank
  rcases Nat.eq_zero_or_pos rank with rfl | filled
  · have upper := nearestRank_eq_zero found
    rw [Ne, Nat.compare_eq_gt, not_lt] at upper
    rw [Near, if_pos rfl, Nat.zero_sub, magnitude_zero]
    rw [magnitude_zero] at upper
    exact ⟨by omega, upper⟩
  · exact near_of_nearestRank positive filled found

theorem RoundsTo.nearest (rounds : RoundsTo units rank) (other : Nat) :
    |units - magnitude rank| ≤ |units - magnitude other| := by
  obtain ⟨lower, upper⟩ := rounds.le
  rw [Nat.cast_add] at lower upper
  rcases lt_trichotomy other rank with below | rfl | above
  · have before : (magnitude other : ℚ) ≤ magnitude (rank - 1) := magnitude_cast_le (by omega)
    exact (high_nearer_iff (magnitude_cast_lt below)).mpr (by linarith)
  · exact le_rfl
  · have after : (magnitude (rank + 1) : ℚ) ≤ magnitude other := magnitude_cast_le above
    exact (low_nearer_iff (magnitude_cast_lt above)).mpr (by linarith)

theorem RoundsTo.lt (rounds : RoundsTo units rank) (odd : rank % 2 ≠ 0) :
    ((magnitude (rank - 1) + magnitude rank : Nat) : ℚ) < 2 * units ∧
      2 * units < ((magnitude rank + magnitude (rank + 1) : Nat) : ℚ) := by
  rwa [RoundsTo, if_neg odd] at rounds

/-- Where another magnitude is as near, the rank is even. -/
theorem RoundsTo.even (rounds : RoundsTo units rank) (different : other ≠ rank)
    (equal : |units - magnitude other| ≤ |units - magnitude rank|) : rank % 2 = 0 := by
  by_contra odd
  obtain ⟨lower, upper⟩ := rounds.lt odd
  rw [Nat.cast_add] at lower upper
  rcases Nat.lt_or_gt_of_ne different with below | above
  · have before : (magnitude other : ℚ) ≤ magnitude (rank - 1) := magnitude_cast_le (by omega)
    have halfway := (low_nearer_iff (magnitude_cast_lt below)).mp equal
    linarith
  · have after : (magnitude (rank + 1) : ℚ) ≤ magnitude other := magnitude_cast_le above
    have halfway := (high_nearer_iff (magnitude_cast_lt above)).mp equal
    linarith

theorem RoundsTo.le_iff (rounds : RoundsTo units rank) (even : limit % 2 = 0) (filled : 0 < limit) :
    limit ≤ rank ↔ ((magnitude (limit - 1) + magnitude limit : Nat) : ℚ) ≤ 2 * units := by
  constructor
  · intro le
    refine (Nat.cast_le.mpr ?_).trans rounds.le.1
    exact Nat.add_le_add (magnitude_strictMono.monotone (by omega)) (magnitude_strictMono.monotone le)
  · intro halfway
    by_contra below
    have upper := halfway.trans rounds.le.2
    rw [Nat.cast_le] at upper
    have here : magnitude rank ≤ magnitude (limit - 1) := magnitude_strictMono.monotone (by omega)
    have next : magnitude (rank + 1) ≤ magnitude limit := magnitude_strictMono.monotone (by omega)
    have last : rank = limit - 1 := magnitude_strictMono.injective (by omega)
    have strict := halfway.trans_lt (rounds.lt (by omega)).2
    rw [Nat.cast_lt] at strict
    omega

theorem magnitude_overflow :
    magnitude (rankCount - 1) + magnitude rankCount = 2 * (overflowBound * unitsPerOne) := by
  decide +kernel

theorem hasEvenSignificand_iff (rank : Fin rankCount) :
    HasEvenSignificand (.finite false rank) ↔ rank.val % 2 = 0 := by
  have size : binadeSize = 2 ^ 52 := binadeSize_eq
  have one : (unitsPerOne : ℚ) ≠ 0 := unitsPerOne_pos_rat.ne'
  constructor
  · rintro ⟨half, doublings, known, small, normal⟩
    rw [rational?_finite, Option.some.injEq, signed, if_neg Bool.false_ne_true, div_left_inj' one,
      Nat.cast_inj, ← magnitude_binade (by omega) (by omega)] at known
    rw [magnitude_strictMono.injective known, size]
    omega
  · intro even
    obtain ⟨doublings, leading, split, below, normal⟩ := exists_binade rank
    have halves : 2 * (leading / 2) = leading := by
      rw [split, size] at even
      omega
    refine ⟨leading / 2, doublings, ?_, by omega, by omega⟩
    rw [rational?_finite, split, magnitude_binade below normal, halves]
    rfl

end

section

variable {units value : ℚ} {numerator denominator rank : Nat} {negative : Bool} {number other : Number}

theorem abs_sub_le_signed (negative : Bool) {point magnitude : ℚ} (positive : 0 ≤ point)
    (nonnegative : 0 ≤ magnitude) :
    |point - magnitude| ≤ |point - signed negative magnitude| := by
  cases negative with
  | false => exact le_rfl
  | true =>
      rw [signed, if_pos rfl, sub_neg_eq_add, abs_of_nonneg (add_nonneg positive nonnegative), abs_le]
      constructor <;> linarith

theorem abs_sub_lt_signed {point magnitude : ℚ} (positive : 0 < point) (filled : 0 < magnitude)
    (different : signed negative magnitude ≠ magnitude) :
    |point - magnitude| < |point - signed negative magnitude| := by
  cases negative with
  | false => exact absurd rfl different
  | true =>
      rw [signed, if_pos rfl, sub_neg_eq_add, abs_of_pos (add_pos positive filled), abs_lt]
      constructor <;> linarith

theorem div_nearer_iff {point one another scale : ℚ} (positive : 0 < scale) :
    |point / scale - one / scale| ≤ |point / scale - another / scale| ↔
      |point - one| ≤ |point - another| := by
  rw [← sub_div, ← sub_div, abs_div, abs_div, abs_of_pos positive, div_le_div_iff_of_pos_right positive]

theorem magnitude_cast_pos (filled : 0 < rank) : (0 : ℚ) < magnitude rank :=
  Nat.cast_pos.mpr (magnitude_pos filled.ne')

theorem RoundsTo.pos (rounds : RoundsTo units rank) (filled : 0 < rank) : 0 < units := by
  have here := magnitude_cast_pos filled
  have before : (0 : ℚ) ≤ magnitude (rank - 1) := Nat.cast_nonneg _
  have lower := rounds.le.1
  rw [Nat.cast_add] at lower
  linarith

theorem ofRank_eq_infinite : ofRank false rank = .infinite false ↔ rankCount ≤ rank := by
  unfold ofRank
  split
  · exact ⟨nofun, fun past => by omega⟩
  · exact ⟨fun _ => by omega, fun _ => rfl⟩

theorem ofRank_of_rational? (known : (ofRank false rank).rational? = some value) :
    value = magnitude rank / unitsPerOne ∧
      ∃ bound, ofRank false rank = .finite false ⟨rank, bound⟩ := by
  unfold ofRank at known ⊢
  split at known
  · rename_i bound
    rw [rational?_finite] at known
    exact ⟨(Option.some.inj known).symm, bound, dif_pos bound⟩
  · cases known

theorem RoundsTo.isNearest (rounds : RoundsTo units rank) (nonnegative : 0 ≤ units) :
    IsNearest (units / unitsPerOne) (ofRank false rank) where
  unsigned := ofRank_isUnsigned rank
  overflow := by
    have even : rankCount % 2 = 0 := by decide
    have filled : 0 < rankCount := by decide
    rw [ofRank_eq_infinite, rounds.le_iff even filled, magnitude_overflow,
      le_div_iff₀ unitsPerOne_pos_rat]
    push_cast
    rw [mul_le_mul_iff_right₀ (by norm_num)]
  nearest other here there known also := by
    obtain ⟨rfl, -⟩ := ofRank_of_rational? known
    obtain ⟨negative, candidate, -, rfl⟩ := exists_of_rational? also
    have nearer := (div_nearer_iff unitsPerOne_pos_rat).mpr (rounds.nearest candidate)
    refine nearer.trans (abs_sub_le_signed negative ?_ (magnitude_div_nonneg _))
    exact div_nonneg nonnegative unitsPerOne_pos_rat.le
  even other here there known also different equal := by
    obtain ⟨rfl, bound, finite⟩ := ofRank_of_rational? known
    obtain ⟨negative, candidate, -, rfl⟩ := exists_of_rational? also
    have even : HasEvenSignificand (.finite false ⟨rank, bound⟩) ↔ rank % 2 = 0 :=
      hasEvenSignificand_iff _
    rw [finite, even]
    by_cases same : candidate.val = rank
    · -- The other number is as large and negative, so it is as near only where both are zero.
      by_contra odd
      have filled : 0 < rank := by omega
      rw [same] at different equal
      refine absurd equal (abs_sub_lt_signed ?_ ?_ different).ne'
      · exact div_pos (rounds.pos filled) unitsPerOne_pos_rat
      · exact div_pos (magnitude_cast_pos filled) unitsPerOne_pos_rat
    · refine rounds.even same ((div_nearer_iff unitsPerOne_pos_rat).mp ?_)
      rw [← equal]
      refine abs_sub_le_signed negative ?_ (magnitude_div_nonneg _)
      exact div_nonneg nonnegative unitsPerOne_pos_rat.le

theorem ofQuotient_isNearest (numerator : Nat) (positive : 0 < denominator) :
    IsNearest ((numerator : ℚ) / denominator / unitsPerOne) (ofQuotient false numerator denominator) := by
  have near : Near numerator denominator _ := near_nearestRank positive
  have rounds := (near_iff_roundsTo positive).mp near
  exact rounds.isNearest (div_nonneg (Nat.cast_nonneg _) (Nat.cast_nonneg _))

theorem ofNat_isNearest (value : Nat) : IsNearest value (ofNat value) := by
  have nearest := ofQuotient_isNearest (value * unitsPerOne) Nat.one_pos
  rwa [Nat.cast_one, div_one, Nat.cast_mul, mul_div_cancel_right₀ _ unitsPerOne_pos_rat.ne'] at nearest

theorem IsNearest.exists_finite (nearest : IsNearest value number) (below : value < overflowBound) :
    ∃ rank, number = .finite false rank := by
  have unsigned := nearest.unsigned
  have bounded : number ≠ .infinite false := fun infinite =>
    absurd (nearest.overflow.mp infinite) (not_le.mpr below)
  cases number with
  | nan => exact unsigned.elim
  | infinite negative =>
      obtain rfl : negative = false := unsigned
      exact absurd rfl bounded
  | finite negative rank =>
      obtain rfl : negative = false := unsigned
      exact ⟨rank, rfl⟩

/-- Of two nearest numbers both would be even, and one right after the other. -/
theorem IsNearest.le {low high : Fin rankCount} (one : IsNearest value (.finite false low))
    (another : IsNearest value (.finite false high)) : high ≤ low := by
  by_contra less
  have known (rank : Fin rankCount) :
      rational? (.finite false rank) = some ((magnitude rank : ℚ) / unitsPerOne) :=
    rational?_finite false rank
  have scale := unitsPerOne_pos_rat
  have apart {first second : Nat} (below : first < second) :
      (magnitude first : ℚ) / unitsPerOne < magnitude second / unitsPerOne :=
    div_lt_div_of_pos_right (magnitude_cast_lt below) scale
  have below : low.val < high.val := not_le.mp less
  have next : low.val + 1 < rankCount := by omega
  have equal := le_antisymm (one.nearest _ _ _ (known low) (known high))
    (another.nearest _ _ _ (known high) (known low))
  have halfway := (high_nearer_iff (apart below)).mp equal.ge
  have upper := (low_nearer_iff (apart (Nat.lt_succ_self low.val))).mp
    (one.nearest _ _ _ (known low) (known ⟨low + 1, next⟩))
  have lowEven := one.even _ _ _ (known low) (known high) (apart below).ne' equal.symm
  have highEven := another.even _ _ _ (known high) (known low) (apart below).ne equal
  rw [hasEvenSignificand_iff] at lowEven highEven
  have gap : low.val + 1 < high.val := by omega
  have beyond := apart gap
  linarith

theorem IsNearest.unique (one : IsNearest value number) (another : IsNearest value other) :
    number = other := by
  by_cases large : (overflowBound : ℚ) ≤ value
  · rw [one.overflow.mpr large, another.overflow.mpr large]
  · obtain ⟨low, rfl⟩ := one.exists_finite (not_le.mp large)
    obtain ⟨high, rfl⟩ := another.exists_finite (not_le.mp large)
    rw [le_antisymm (another.le one) (one.le another)]

end

end Bella.Number
