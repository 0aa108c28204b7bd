/-!
# Decimal numbers

A decimal is a whole number of units of `10 ^ -scale`.  The scale is kept, so `1.5` and `1.50` are
different decimals with one value; equality and order look at the value only.  They never write out
a power of ten much longer than the digits at hand, so scales may be as far apart as they like.

Addition, subtraction and multiplication are exact.  Each fixes the scale of its result; the rules
that hand an operand through unchanged do so to keep its scale.  Division is rounded to tenths,
a half going to the even neighbour.
-/

namespace Primer

/-- The number `digits * 10 ^ (-scale)`. -/
structure Decimal where
  digits : Int
  scale : Int
deriving Repr

namespace Decimal

/-! ## Value -/

/-- `10 ^ n`. -/
def powerOfTen (n : Nat) : Nat :=
  Nat.pow 10 n

/-- How many units of `10 ^ -scale` the decimal is worth, for a `scale` not below its own.  Zero is
worth zero units at any scale, however far off. -/
def digitsAt (d : Decimal) (scale : Int) : Int :=
  if d.digits = 0 then 0 else d.digits * powerOfTen (scale - d.scale).toNat

/-- The order of `a` and `b * 10 ^ gap`.  Where `a` has fewer bits than the power, the sign of `b`
decides and the power is never computed: scales may lie too far apart to write it down. -/
def compareScaled (a b : Int) (gap : Nat) : Ordering :=
  if a.natAbs.log2 < 3 * gap then
    if b = 0 then Ord.compare a 0 else Ord.compare 0 b
  else
    Ord.compare a (b * powerOfTen gap)

/-- The order of two decimals by value. -/
def compare (a b : Decimal) : Ordering :=
  if a.scale ≤ b.scale then
    (compareScaled b.digits a.digits (b.scale - a.scale).toNat).swap
  else
    compareScaled a.digits b.digits (a.scale - b.scale).toNat

/-- Equality by value: `1.5` equals `1.50`. -/
def equal (a b : Decimal) : Bool :=
  a.compare b == .eq

instance : BEq Decimal := ⟨equal⟩

def isZero (d : Decimal) : Bool :=
  d.digits == 0

/-- The least magnitude that a double rounds to infinity: half a unit in the last place above the
largest finite double. -/
def doubleLimit : Nat :=
  Nat.pow 2 1024 - Nat.pow 2 970

/-- Whether the double nearest to the decimal is finite. -/
def fitsDouble (d : Decimal) : Bool :=
  d.digits.natAbs * powerOfTen (-d.scale).toNat < doubleLimit * powerOfTen d.scale.toNat

/-! ## The order is the order of the units at a common scale -/

theorem digitsAt_eq (d : Decimal) (scale : Int) :
    d.digitsAt scale = d.digits * powerOfTen (scale - d.scale).toNat := by
  unfold digitsAt
  split
  · rename_i zero
    rw [zero, Int.zero_mul]
  · rfl

/-- A number with at most `3 * gap` bits is below `10 ^ gap`. -/
theorem lt_powerOfTen_of_log2_lt {n gap : Nat} (h : n.log2 < 3 * gap) : n < powerOfTen gap :=
  calc
    n < 2 ^ (n.log2 + 1) := Nat.lt_log2_self
    _ ≤ 2 ^ (3 * gap) := Nat.pow_le_pow_right (by decide) h
    _ = (2 ^ 3) ^ gap := Nat.pow_mul 2 3 gap
    _ ≤ 10 ^ gap := Nat.pow_le_pow_left (by decide) gap

theorem compareScaled_eq (a b : Int) (gap : Nat) :
    compareScaled a b gap = Ord.compare a (b * powerOfTen gap) := by
  unfold compareScaled
  split
  · rename_i few
    have small : (a.natAbs : Int) < powerOfTen gap :=
      Int.ofNat_lt.mpr (lt_powerOfTen_of_log2_lt few)
    split
    · rename_i zero
      rw [zero, Int.zero_mul]
    · rename_i nonzero
      rcases Int.lt_or_gt_of_ne nonzero with negative | positive
      · have below : b * powerOfTen gap ≤ -1 * powerOfTen gap :=
          Int.mul_le_mul_of_nonneg_right (by omega) (by omega)
        rw [Int.compare_eq_gt.mpr negative, Int.compare_eq_gt.mpr (by omega)]
      · have above : 1 * powerOfTen gap ≤ b * powerOfTen gap :=
          Int.mul_le_mul_of_nonneg_right (by omega) (by omega)
        rw [Int.compare_eq_lt.mpr positive, Int.compare_eq_lt.mpr (by omega)]
  · rfl

/-- Decimals are ordered as the units they are worth at the larger of their scales. -/
theorem compare_eq (a b : Decimal) :
    a.compare b =
      Ord.compare (a.digitsAt (max a.scale b.scale)) (b.digitsAt (max a.scale b.scale)) := by
  have one : (powerOfTen 0 : Int) = 1 := rfl
  unfold compare
  rw [digitsAt_eq, digitsAt_eq]
  split
  · rename_i le
    rw [compareScaled_eq, Int.compare_swap, Int.max_eq_right le, Int.sub_self, Int.toNat_zero, one,
      Int.mul_one]
  · rename_i gt
    rw [compareScaled_eq, Int.max_eq_left (by omega), Int.sub_self, Int.toNat_zero, one,
      Int.mul_one]

/-! ## Arithmetic -/

def neg (d : Decimal) : Decimal :=
  ⟨-d.digits, d.scale⟩

/-- The sum, at the larger of the two scales. -/
def add (a b : Decimal) : Decimal :=
  let scale := max a.scale b.scale
  ⟨a.digitsAt scale + b.digitsAt scale, scale⟩

/-- The difference.  A zero on either side leaves the other operand at its own scale. -/
def sub (a b : Decimal) : Decimal :=
  if b.isZero then
    a
  else if a.isZero then
    b.neg
  else
    let scale := max a.scale b.scale
    ⟨a.digitsAt scale - b.digitsAt scale, scale⟩

/-- The largest scale at which `mul` notices that a factor is one. -/
def unitScale : Int := 38

/-- Whether the decimal is one, written with at most `unitScale` fraction digits. -/
def isUnit (d : Decimal) : Bool :=
  d.scale ≤ unitScale && d == ⟨1, 0⟩

/-- The product, at the sum of the scales.  A factor of one leaves the other factor as it is. -/
def mul (a b : Decimal) : Decimal :=
  if a.isUnit then
    b
  else if b.isUnit then
    a
  else
    ⟨a.digits * b.digits, a.scale + b.scale⟩

/-- The integer nearest to `numerator / denominator`; of two that are equally near, the even one. -/
def nearestEven (numerator denominator : Int) : Int :=
  let n := numerator * denominator.sign
  let d := (denominator.natAbs : Int)
  let floor := n / d
  let rest := n % d
  if 2 * rest < d then
    floor
  else if d < 2 * rest then
    floor + 1
  else if floor % 2 = 0 then
    floor
  else
    floor + 1

/-- The quotient rounded to tenths, for a divisor other than zero. -/
def div (a b : Decimal) : Decimal :=
  let shift := b.scale - a.scale + 1
  ⟨nearestEven (a.digits * powerOfTen shift.toNat) (b.digits * powerOfTen (-shift).toNat), 1⟩

end Decimal

end Primer
