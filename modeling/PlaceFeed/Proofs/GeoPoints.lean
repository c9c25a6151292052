import PlaceFeed.Location
import Mathlib.Data.Nat.Basic

/-!
# The radius of a geo point

The accuracy of a point is a number of metres from zero to 1500, and the radius that a message shows
is that number rounded up (`Binary64.ceilAbs_spec`).  `Location.toGeoPoint_point` says which of the
two forms the geo point has: a zero accuracy leaves the radius out, and any other gives at least one
metre and at most 1500, however small it is.
-/

namespace PlaceFeed

namespace Binary64

theorem one_pos : 0 < one := by decide +kernel

/-! ### Rounding up -/

/-- Rounding up adds less than one. -/
theorem ceilAbs_spec (x : Binary64) :
    x.absUnits ≤ x.ceilAbs * one ∧ x.ceilAbs * one < x.absUnits + one := by
  have hpos := one_pos
  have hle := Nat.div_mul_le_self (x.absUnits + (one - 1)) one
  have hlt := Nat.lt_div_mul_add hpos (a := x.absUnits + (one - 1))
  change x.ceilAbs * one ≤ _ at hle
  change _ < x.ceilAbs * one + one at hlt
  omega

theorem ceilAbs_pos {x : Binary64} (h : 0 < x.absUnits) : 0 < x.ceilAbs := by
  have := x.ceilAbs_spec.1
  rcases Nat.eq_zero_or_pos x.ceilAbs with h0 | h0
  · rw [h0, Nat.zero_mul] at this
    omega
  · exact h0

theorem ceilAbs_le {x : Binary64} {n : Nat} (h : x.absUnits ≤ n * one) : x.ceilAbs ≤ n := by
  have := x.ceilAbs_spec.2
  refine Nat.le_of_lt_succ (Nat.lt_of_mul_lt_mul_right (a := one) ?_)
  rw [Nat.succ_mul]
  omega

/-! ### Signs -/

theorem units_eq_absUnits {x : Binary64} (h : x.isNegative = false) : x.units = x.absUnits := by
  rw [units, h]
  rfl

theorem isNegative_of_units_pos {x : Binary64} (h : 0 < x.units) : x.isNegative = false := by
  rw [units] at h
  cases hx : x.isNegative with
  | false => rfl
  | true =>
    rw [hx, if_pos rfl] at h
    omega

end Binary64

/-! ### Points -/

namespace Location

open Binary64

theorem absUnits_maxAccuracy : maxAccuracy.absUnits = 1500 * one := by decide +kernel

/-- An accuracy that is clamped is a finite number from zero to 1500. -/
theorem within_of_clamped {x : Binary64} (h : clampAccuracy x = x) :
    x.Within 1500 ∧ x.isNegative = false := by
  unfold clampAccuracy at h
  split at h
  · subst h
    exact ⟨⟨rfl, Nat.zero_le _⟩, rfl⟩
  · next hx =>
    simp only [Bool.or_eq_true, Bool.not_eq_true', decide_eq_true_eq, not_or, Int.not_le,
      Bool.not_eq_false] at hx
    split at h
    · subst h
      exact ⟨⟨rfl, Nat.le_of_eq absUnits_maxAccuracy⟩, rfl⟩
    · next hmax =>
      refine ⟨⟨hx.1, ?_⟩, isNegative_of_units_pos hx.2⟩
      rw [absUnits_maxAccuracy] at hmax
      omega

/-- The radius of a point is its accuracy rounded up, and left out when that is zero. -/
theorem toGeoPoint_point (p : Point) :
    (p.accuracy.absUnits = 0 ∧ toGeoPoint (.point p) = .point 0 p.latitude p.longitude none) ∨
      (0 < p.accuracy.absUnits ∧ p.accuracy.ceilAbs ≤ 1500 ∧
        toGeoPoint (.point p) =
          .point 1 p.latitude p.longitude (some (Int32.ofNat p.accuracy.ceilAbs))) := by
  obtain ⟨⟨-, hle⟩, hneg⟩ := within_of_clamped p.accuracy_clamped
  have hunits := units_eq_absUnits hneg
  rw [toGeoPoint]
  split
  · exact .inr ⟨by omega, ceilAbs_le hle, rfl⟩
  · exact .inl ⟨by omega, rfl⟩

theorem toInt_radius {n : Nat} (h : n ≤ 1500) : (Int32.ofNat n).toInt = n :=
  Int32.toInt_ofNat_of_lt (by omega)

end Location

end PlaceFeed
