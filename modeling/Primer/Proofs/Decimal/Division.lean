import Mathlib
import Primer.Decimal.Basic

/-!
# Division is exact up to one rounding

The quotient of two decimals, counted in tenths, is a rational number.  `Decimal.div` gives the
integer nearest to it, and the even one of two that are equally near: nothing is rounded before.
There is only one such integer (`NearestEven.unique`).  So the quotient depends on what the operands
are worth and not on how they are written, and it changes its sign with either of them.
-/

namespace Primer

/-- `t` is an integer nearest to `x`; half way between two integers it is the even one. -/
structure NearestEven (x : ℚ) (t : ℤ) : Prop where
  near : |x - t| ≤ 1 / 2
  even : |x - t| = 1 / 2 → Even t

namespace NearestEven

variable {x : ℚ} {s t : ℤ}

theorem not_lt (first : NearestEven x s) (second : NearestEven x t) : ¬ s < t := by
  intro less
  have apart : (s : ℚ) + 1 ≤ t := by exact_mod_cast less
  have below := (abs_le.mp first.near).2
  have above := (abs_le.mp second.near).1
  -- Both are at the distance of one half, one on each side, so both would be even.
  have half : x - s = 1 / 2 := by linarith
  have half' : x - t = -(1 / 2) := by linarith
  have next : t = s + 1 := by
    have : (t : ℚ) = s + 1 := by linarith
    exact_mod_cast this
  have evenS : Even s := by
    apply first.even
    rw [half, abs_of_pos (by norm_num)]
  have evenT : Even t := by
    apply second.even
    rw [half', abs_neg, abs_of_pos (by norm_num)]
  rw [next, Int.even_add_one] at evenT
  exact evenT evenS

theorem unique (first : NearestEven x s) (second : NearestEven x t) : s = t :=
  le_antisymm (Int.not_lt.mp (second.not_lt first)) (Int.not_lt.mp (first.not_lt second))

theorem neg (nearest : NearestEven x t) : NearestEven (-x) (-t) := by
  have distance : |-x - ((-t : ℤ) : ℚ)| = |x - t| := by
    rw [Int.cast_neg, ← neg_sub', abs_neg]
  constructor
  · rw [distance]
    exact nearest.near
  · intro half
    rw [distance] at half
    exact (nearest.even half).neg

/-- The integer below `x`, when `x` is less than one half above it. -/
theorem of_low {fraction : ℚ} (nonneg : 0 ≤ fraction) (low : fraction < 1 / 2) :
    NearestEven (t + fraction) t := by
  have distance : |(t : ℚ) + fraction - t| = fraction := by
    rw [add_sub_cancel_left, abs_of_nonneg nonneg]
  constructor
  · rw [distance]
    exact low.le
  · intro half
    rw [distance] at half
    exact absurd half low.ne

/-- The integer above `x`, when `x` is more than one half above the integer below. -/
theorem of_high {fraction : ℚ} (high : 1 / 2 < fraction) (less : fraction < 1) :
    NearestEven (t + fraction) (t + 1) := by
  -- Seen from above, `x` is less than one half below.
  have mirrored : NearestEven ((-(t + 1) : ℤ) + (1 - fraction)) (-(t + 1)) :=
    of_low (by linarith) (by linarith)
  have back := mirrored.neg
  rw [neg_neg] at back
  convert back using 1
  push_cast
  ring

/-- Half way between two integers, the even one. -/
theorem of_half (even : Even t) (half : |x - t| = 1 / 2) : NearestEven x t :=
  ⟨half.le, fun _ => even⟩

end NearestEven

namespace Decimal

/-! ## Rounding a fraction -/

theorem nearestEven_neg_neg (n d : ℤ) : nearestEven (-n) (-d) = nearestEven n d := by
  simp only [nearestEven, Int.sign_neg, Int.natAbs_neg, neg_mul_neg]

/-- For a positive denominator, rounding starts from the integer below and the rest above it. -/
theorem nearestEven_of_pos (n : ℤ) {d : ℤ} (positive : 0 < d) :
    nearestEven n d =
      if 2 * (n % d) < d then n / d
      else if d < 2 * (n % d) then n / d + 1
      else if n / d % 2 = 0 then n / d
      else n / d + 1 := by
  simp only [nearestEven, Int.sign_eq_one_of_pos positive, mul_one,
    Int.natAbs_of_nonneg positive.le]

theorem nearest_nearestEven_of_pos (n : ℤ) {d : ℤ} (positive : 0 < d) :
    NearestEven (n / d) (nearestEven n d) := by
  have positive' : (0 : ℚ) < d := by exact_mod_cast positive
  have nonneg : (0 : ℚ) ≤ (n % d : ℤ) := by exact_mod_cast Int.emod_nonneg n positive.ne'
  have less : ((n % d : ℤ) : ℚ) < d := by exact_mod_cast Int.emod_lt_of_pos n positive
  have split : (n : ℚ) / d = (n / d : ℤ) + (n % d : ℤ) / d := by
    have whole : (n : ℚ) = d * (n / d : ℤ) + (n % d : ℤ) := by
      exact_mod_cast (Int.mul_ediv_add_emod n d).symm
    rw [whole, add_div, mul_div_cancel_left₀ _ positive'.ne']
  rw [nearestEven_of_pos n positive, split]
  split_ifs with low high even
  · have low' : 2 * ((n % d : ℤ) : ℚ) < d := by exact_mod_cast low
    apply NearestEven.of_low (div_nonneg nonneg positive'.le)
    rw [div_lt_div_iff₀ positive' two_pos]
    linarith
  · have high' : (d : ℚ) < 2 * (n % d : ℤ) := by exact_mod_cast high
    apply NearestEven.of_high
    · rw [div_lt_div_iff₀ two_pos positive']
      linarith
    · rwa [div_lt_one positive']
  all_goals
    have half : ((n % d : ℤ) : ℚ) / d = 1 / 2 := by
      have tie : 2 * ((n % d : ℤ) : ℚ) = d := by exact_mod_cast (by omega : 2 * (n % d) = d)
      rw [div_eq_div_iff positive'.ne' two_ne_zero]
      linarith
    rw [half]
  · apply NearestEven.of_half (Int.even_iff.mpr even)
    rw [add_sub_cancel_left, abs_of_pos one_half_pos]
  · apply NearestEven.of_half (Int.even_iff.mpr (by omega))
    have below : ((n / d : ℤ) : ℚ) + 1 / 2 - (n / d + 1 : ℤ) = -(1 / 2) := by
      push_cast
      ring
    rw [below, abs_neg, abs_of_pos one_half_pos]

/-- Rounding a fraction gives the nearest integer, whatever the signs. -/
theorem nearest_nearestEven (n : ℤ) {d : ℤ} (nonzero : d ≠ 0) :
    NearestEven (n / d) (nearestEven n d) := by
  obtain negative | positive := lt_or_gt_of_ne nonzero
  · have flipped := nearest_nearestEven_of_pos (-n) (neg_pos.mpr negative)
    rw [nearestEven_neg_neg, Int.cast_neg, Int.cast_neg, neg_div_neg_eq] at flipped
    exact flipped
  · exact nearest_nearestEven_of_pos n positive

/-! ## Decimals as rational numbers -/

/-- The number that a decimal stands for. -/
def value (d : Decimal) : ℚ :=
  d.digits / 10 ^ d.scale

theorem value_eq_zero {d : Decimal} : d.value = 0 ↔ d.digits = 0 := by
  have nonzero : (10 : ℚ) ^ d.scale ≠ 0 := zpow_ne_zero _ (by norm_num)
  rw [value, div_eq_zero_iff, Int.cast_eq_zero, or_iff_left nonzero]

theorem value_neg (d : Decimal) : d.neg.value = -d.value := by
  rw [value, neg, Int.cast_neg, neg_div]
  rfl

/-- Only one of the two powers that shift a quotient is more than one. -/
theorem powerOfTen_div_powerOfTen (n : ℤ) :
    (powerOfTen n.toNat : ℚ) / powerOfTen (-n).toNat = 10 ^ n := by
  have cast : ∀ k : ℕ, (powerOfTen k : ℚ) = 10 ^ k := fun k => Nat.cast_pow 10 k
  rw [cast, cast]
  obtain nonneg | nonpos := le_total 0 n
  · rw [Int.toNat_of_nonpos (neg_nonpos.mpr nonneg), pow_zero, div_one, ← zpow_natCast,
      Int.toNat_of_nonneg nonneg]
  · rw [Int.toNat_of_nonpos nonpos, pow_zero, one_div, ← zpow_natCast,
      Int.toNat_of_nonneg (neg_nonneg.mpr nonpos), zpow_neg, inv_inv]

/-- The fraction that division rounds is the exact quotient in tenths. -/
theorem fraction_eq_tenths (a b : Decimal) :
    ((a.digits * powerOfTen (b.scale - a.scale + 1).toNat : ℤ) : ℚ) /
        (b.digits * powerOfTen (-(b.scale - a.scale + 1)).toNat : ℤ) =
      10 * a.value / b.value := by
  have ten : (10 : ℚ) ≠ 0 := by norm_num
  push_cast
  rw [mul_div_mul_comm, powerOfTen_div_powerOfTen, zpow_add₀ ten, zpow_sub₀ ten, zpow_one, value,
    value]
  field_simp

/-! ## Division -/

section

variable {a b : Decimal}

theorem div_nearest (nonzero : b.digits ≠ 0) :
    NearestEven (10 * a.value / b.value) (a.div b).digits := by
  have power : (powerOfTen (-(b.scale - a.scale + 1)).toNat : ℤ) ≠ 0 := by
    exact_mod_cast (Nat.pow_pos (by norm_num)).ne'
  rw [← fraction_eq_tenths]
  exact nearest_nearestEven _ (mul_ne_zero nonzero power)

/-- A decimal in tenths is the quotient if it is nearest to the exact one. -/
theorem div_eq_of_nearest (nonzero : b.digits ≠ 0) {tenths : Decimal} (scale : tenths.scale = 1)
    (nearest : NearestEven (10 * a.value / b.value) tenths.digits) : a.div b = tenths := by
  have digits := (div_nearest nonzero).unique nearest
  cases tenths
  cases scale
  cases digits
  rfl

end

end Decimal

end Primer
