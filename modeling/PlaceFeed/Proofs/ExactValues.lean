import PlaceFeed.Proofs.GeoPoints
import Mathlib.Algebra.Order.Field.Power
import Mathlib.Data.Rat.Floor
import Mathlib.Tactic.FieldSimp
import Mathlib.Tactic.Positivity
import Mathlib.Tactic.Ring

/-!
# Exact values

The bits of a finite binary64 number are a sign, an exponent and a fraction, and `Binary64.value` is
the rational number that the format takes them for.  The library never computes it: it counts in
units of `2 ^ -1074`.  Here its tests are shown to be those of the exact values, so that nothing is
lost to rounding.

* `Binary64.value_mul_one` : **the units are the value**, scaled by a power of two;
* `Binary64.within_iff` : a number within a limit is one whose value is;
* `Binary64.sameValue_iff` : finite numbers are numerically equal when their values are equal;
* `Binary64.ceil_value` : rounding up gives the least integer that is not below the value;
* `Binary64.IsNearest` : the finite number that is nearest to a rational number, if it is smaller
  than `Binary64.overflow`.
-/

namespace PlaceFeed

namespace Binary64

variable {x y : Binary64}

/-- The number without its sign.  The exponent zero is that of zero and the subnormal numbers; any
other stands for a power of two, to which the fraction adds. -/
def magnitude (x : Binary64) : ℚ :=
  if x.exponent = 0 then 2 ^ (-1022 : ℤ) * (x.fraction / 2 ^ 52)
  else 2 ^ ((x.exponent : ℤ) - 1023) * (1 + x.fraction / 2 ^ 52)

/-- The **number that the bits stand for**, if they are those of a finite number.  Both zeros stand
for zero. -/
def value (x : Binary64) : ℚ := if x.isNegative then -x.magnitude else x.magnitude

/-! ### Nearest numbers -/

/-- The finite number **nearest to `q`**.  Of two that are equally near, it is the one whose last
bit is zero. -/
structure IsNearest (x : Binary64) (q : ℚ) : Prop where
  isFinite : x.isFinite = true
  le : ∀ y : Binary64, y.isFinite = true → |x.value - q| ≤ |y.value - q|
  even : ∀ y : Binary64, y.isFinite = true → |x.value - q| = |y.value - q| →
    y.value = x.value ∨ x.fraction % 2 = 0

/-- Half a step above the greatest finite number.  From there on numbers are rounded to an
infinity. -/
def overflow : ℚ := 2 ^ 1024 - 2 ^ 970

/-- A number with a sign. -/
def signed (negative : Bool) (q : ℚ) : ℚ := if negative then -q else q

theorem abs_signed {q : ℚ} (hq : 0 ≤ q) (negative : Bool) : |signed negative q| = q := by
  cases negative with
  | false => exact abs_of_nonneg hq
  | true => exact (abs_neg q).trans (abs_of_nonneg hq)

theorem signed_abs (q : ℚ) : signed (decide (q < 0)) |q| = q := by
  rcases lt_or_ge q 0 with hneg | hpos
  · rw [signed, if_pos (decide_eq_true hneg), abs_of_neg hneg, neg_neg]
  · rw [signed, if_neg (by simpa using hpos), abs_of_nonneg hpos]

/-! ### Units -/

theorem exists_one_eq_pow : ∃ n : ℕ, n = 1074 ∧ one = 2 ^ n := ⟨1074, rfl, by decide +kernel⟩

theorem cast_one : (one : ℚ) = 2 ^ (1074 : ℤ) := by
  obtain ⟨n, hn, hone⟩ := exists_one_eq_pow
  rw [hone, Nat.cast_pow, Nat.cast_two, ← zpow_natCast, hn, Nat.cast_ofNat]

theorem cast_one_pos : (0 : ℚ) < one := Nat.cast_pos.2 one_pos

theorem zpow_mul_one (e : ℤ) : (2 : ℚ) ^ (e - 1023) * one = 2 ^ 52 * 2 ^ (e - 1) := by
  rw [cast_one, ← zpow_natCast, ← zpow_add₀ two_ne_zero, ← zpow_add₀ two_ne_zero]
  congr 1
  push_cast
  ring

theorem magnitude_mul_one (x : Binary64) : x.magnitude * one = x.absUnits := by
  rw [magnitude, absUnits]
  split
  · -- the least exponent of a normal number is that of the subnormal ones
    have hpow : (2 : ℚ) ^ (-1022 : ℤ) * one = 2 ^ 52 := by
      rw [show (-1022 : ℤ) = 1 - 1023 from rfl, zpow_mul_one, sub_self, zpow_zero, mul_one]
    rw [mul_right_comm, hpow]
    field_simp
  · next hexponent =>
    have hpred : (x.exponent : ℤ) - 1 = (x.exponent - 1 : ℕ) := by omega
    rw [mul_right_comm, zpow_mul_one, hpred, zpow_natCast, Nat.pow_eq]
    push_cast
    field_simp
    norm_num

/-- **The units are the value**, as integer multiples of the least positive number. -/
theorem value_mul_one (x : Binary64) : x.value * one = x.units := by
  rw [value, units]
  split
  · rw [neg_mul, magnitude_mul_one, Int.cast_neg, Int.cast_natCast]
  · rw [magnitude_mul_one, Int.cast_natCast]

/-! ### Comparisons -/

theorem value_le_iff {n : ℤ} : x.value ≤ n ↔ x.units ≤ n * one := by
  rw [← mul_le_mul_iff_left₀ cast_one_pos, value_mul_one]
  exact_mod_cast Iff.rfl

theorem value_nonpos_iff : x.value ≤ 0 ↔ x.units ≤ 0 := by
  rw [← Int.cast_zero (R := ℚ), value_le_iff, Int.zero_mul]

theorem value_eq_value_iff : x.value = y.value ↔ x.units = y.units := by
  rw [← mul_left_inj' cast_one_pos.ne', value_mul_one, value_mul_one, Int.cast_inj]

theorem magnitude_nonneg (x : Binary64) : 0 ≤ x.magnitude := by
  unfold magnitude
  split <;> positivity

theorem magnitude_zero : zero.magnitude = 0 := by
  have h : zero.exponent = 0 ∧ zero.fraction = 0 := by decide
  rw [magnitude, if_pos h.1, h.2, Nat.cast_zero, zero_div, mul_zero]

theorem abs_value (x : Binary64) : |x.value| = x.magnitude := by
  rw [value]
  split
  · rw [abs_neg, abs_of_nonneg x.magnitude_nonneg]
  · exact abs_of_nonneg x.magnitude_nonneg

theorem value_nonneg (h : x.isNegative = false) : 0 ≤ x.value := by
  rw [value, h]
  exact x.magnitude_nonneg

theorem value_pos_iff (h : x.isNegative = false) : 0 < x.value ↔ 0 < x.absUnits := by
  rw [← not_le, value_nonpos_iff, units_eq_absUnits h]
  omega

theorem abs_value_le_iff {n : ℕ} : |x.value| ≤ n ↔ x.absUnits ≤ n * one := by
  rw [abs_value, ← mul_le_mul_iff_left₀ cast_one_pos, magnitude_mul_one]
  exact_mod_cast Iff.rfl

theorem abs_value_le_abs_value_iff : |x.value| ≤ |y.value| ↔ x.absUnits ≤ y.absUnits := by
  rw [abs_value, abs_value, ← mul_le_mul_iff_left₀ cast_one_pos, magnitude_mul_one,
    magnitude_mul_one, Nat.cast_le]

/-- A number is within a limit when it is finite and its value is. -/
theorem within_iff {limit : ℕ} : x.Within limit ↔ x.isFinite = true ∧ |x.value| ≤ limit := by
  rw [Within, abs_value_le_iff]

theorem isNaN_of_isFinite (h : x.isFinite = true) : x.isNaN = false := by
  rw [isFinite, bne_iff_ne] at h
  rw [isNaN, beq_false_of_ne h, Bool.false_and]

/-- Finite numbers are numerically equal when their values are equal. -/
theorem sameValue_iff (hx : x.isFinite = true) (hy : y.isFinite = true) :
    x.sameValue y = true ↔ x.value = y.value := by
  rw [sameValue, isNaN_of_isFinite hx, isNaN_of_isFinite hy, value_eq_value_iff]
  simp

/-! ### Rounding up -/

/-- Rounding up a number that is not negative gives the ceiling of its value. -/
theorem ceil_value (h : x.isNegative = false) : ⌈x.value⌉ = x.ceilAbs := by
  obtain ⟨hup, hdown⟩ := x.ceilAbs_spec
  have hunits := units_eq_absUnits h
  rw [Int.ceil_eq_iff]
  constructor
  · have hlt : ¬x.value ≤ ((x.ceilAbs - 1 : ℤ) : ℚ) := by
      rw [value_le_iff, hunits, Int.sub_mul, Int.one_mul]
      omega
    exact_mod_cast not_le.1 hlt
  · rw [value_le_iff, hunits]
    exact_mod_cast hup

end Binary64

end PlaceFeed
