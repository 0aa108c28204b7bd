import Primer.Proofs.Decimal.Division

/-!
# Decimals compute with what they are worth

A number has many decimals, one for each scale that is large enough.  The order compares what two
decimals are worth.  Sum, difference and product are worth what they should be, whether or not an
operand is handed through.  So none of them tells apart two decimals of one number, and neither does
the quotient.
-/

namespace Primer.Decimal

theorem cast_powerOfTen (n : ℕ) : (powerOfTen n : ℚ) = 10 ^ n :=
  Nat.cast_pow 10 n

/-! ## Order -/

/-- A decimal at a larger scale is worth the same. -/
theorem value_digitsAt (d : Decimal) {scale : ℤ} (le : d.scale ≤ scale) :
    (d.digitsAt scale : ℚ) / 10 ^ scale = d.value := by
  have ten : (10 : ℚ) ≠ 0 := by norm_num
  have shift : (10 : ℚ) ^ (scale - d.scale).toNat = 10 ^ scale / 10 ^ d.scale := by
    rw [← zpow_natCast, Int.toNat_of_nonneg (by omega), zpow_sub₀ ten]
  rw [digitsAt_eq, value, Int.cast_mul, Int.cast_natCast, cast_powerOfTen, shift]
  field_simp

theorem strictMono_units (scale : ℤ) : StrictMono fun digits : ℤ => (digits : ℚ) / 10 ^ scale := by
  intro m n less
  have positive : (0 : ℚ) < 10 ^ scale := zpow_pos (by norm_num) scale
  exact (div_lt_div_iff_of_pos_right positive).mpr (Int.cast_lt.mpr less)

theorem compare_eq_cmp (a b : Decimal) : a.compare b = cmp a.value b.value := by
  rw [compare_eq, ← cmp_eq_compare, ← (strictMono_units (max a.scale b.scale)).cmp_map_eq,
    value_digitsAt a (le_max_left _ _), value_digitsAt b (le_max_right _ _)]

theorem beq_iff_value (a b : Decimal) : (a == b) = true ↔ a.value = b.value := by
  change (a.compare b == .eq) = true ↔ _
  rw [beq_iff_eq, compare_eq_cmp, cmp_eq_eq_iff]

/-! ## Arithmetic -/

theorem isZero_iff_value (d : Decimal) : d.isZero = true ↔ d.value = 0 := by
  rw [isZero, beq_iff_eq, value_eq_zero]

theorem value_add (a b : Decimal) : (a.add b).value = a.value + b.value := by
  rw [← value_digitsAt a (le_max_left a.scale b.scale),
    ← value_digitsAt b (le_max_right a.scale b.scale), ← add_div, ← Int.cast_add]
  rfl

theorem value_sub (a b : Decimal) : (a.sub b).value = a.value - b.value := by
  unfold sub
  split_ifs with zero zero'
  · rw [(isZero_iff_value b).mp zero, sub_zero]
  · rw [(isZero_iff_value a).mp zero', zero_sub, value_neg]
  · rw [← value_digitsAt a (le_max_left a.scale b.scale),
      ← value_digitsAt b (le_max_right a.scale b.scale), ← sub_div, ← Int.cast_sub]
    rfl

theorem value_of_isUnit {d : Decimal} (unit : d.isUnit = true) : d.value = 1 := by
  have same := (beq_iff_value d ⟨1, 0⟩).mp (Bool.and_eq_true_iff.mp unit).2
  rw [same]
  norm_num [value]

theorem value_mul (a b : Decimal) : (a.mul b).value = a.value * b.value := by
  have ten : (10 : ℚ) ≠ 0 := by norm_num
  unfold mul
  split_ifs with unit unit'
  · rw [value_of_isUnit unit, one_mul]
  · rw [value_of_isUnit unit', mul_one]
  · rw [value, value, value, Int.cast_mul, zpow_add₀ ten, mul_div_mul_comm]

/-- Quotients of the same numbers are the same decimal: its scale is fixed. -/
theorem div_eq_of_value {a a' b b' : Decimal} (same : a.value = a'.value)
    (same' : b.value = b'.value) (nonzero : b.isZero = false) : a.div b = a'.div b' := by
  have divisor : b.digits ≠ 0 := by
    intro zero
    rw [isZero, zero] at nonzero
    exact absurd nonzero (by decide)
  have divisor' : b'.digits ≠ 0 := by
    rwa [Ne, ← value_eq_zero, ← same', value_eq_zero]
  apply div_eq_of_nearest divisor rfl
  rw [same, same']
  exact div_nearest divisor'

end Primer.Decimal
