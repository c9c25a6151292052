import PlaceFeed.Number.Decimal
import PlaceFeed.Proofs.ExactValues
import Mathlib.Algebra.Order.Floor.Semifield
import Mathlib.Tactic.Linarith

/-!
# Rounding

The finite numbers lie on a grid: each is an integer of at most 53 bits times a power of two, and
its bits count the points of the grid below it.  Around a fraction the reader takes steps of the
width of that grid (`Binary64.steps`), in which the fraction is between two integers that stand for
neighbours (`Binary64.IsBetween`), and rounds to one of these.

* `Binary64.absUnits_le_or_le` : between neighbours there is no third number;
* `Binary64.isRounding_roundHalfEven` : a quotient is rounded to the nearest integer, and in the
  middle to the even one;
* `Binary64.exists_isBetween` : **the steps that the reader takes are between neighbours**;
* `Binary64.IsBetween.bits_lt_iff` : the bits are those of an infinity from `Binary64.overflow` on.
-/

namespace PlaceFeed

namespace Binary64

variable {x y : Binary64} {s j k a : ℕ} {q t u : ℚ}

/-! ### Significand and scale -/

/-- The digits of the number, as an integer of 53 bits. -/
def significand (x : Binary64) : ℕ :=
  if x.exponent = 0 then x.fraction else 2 ^ 52 + x.fraction

/-- The power of two of the last digit, in units. -/
def scale (x : Binary64) : ℕ := x.exponent - 1

/-- The bits below the sign, as an integer. -/
def magnitudeBits (x : Binary64) : ℕ := x.exponent * 2 ^ 52 + x.fraction

theorem fraction_lt (x : Binary64) : x.fraction < 2 ^ 52 := Nat.mod_lt _ (by decide)

theorem absUnits_eq (x : Binary64) : x.absUnits = x.significand * 2 ^ x.scale := by
  rw [absUnits, significand, scale]
  split
  · next h => rw [h, Nat.zero_sub, Nat.pow_zero, Nat.mul_one]
  · rfl

theorem significand_lt (x : Binary64) : x.significand < 2 ^ 53 := by
  have := x.fraction_lt
  unfold significand
  split <;> omega

theorem le_significand (h : 0 < x.scale) : 2 ^ 52 ≤ x.significand := by
  unfold scale at h
  rw [significand, if_neg (by omega)]
  exact Nat.le_add_right _ _

theorem magnitudeBits_eq (x : Binary64) :
    x.magnitudeBits = x.scale * 2 ^ 52 + x.significand := by
  rw [magnitudeBits, scale, significand]
  split
  · next h => rw [h]
  · omega

theorem isFinite_iff_magnitudeBits : x.isFinite = true ↔ x.magnitudeBits < 2047 * 2 ^ 52 := by
  have hfraction := x.fraction_lt
  have hexponent : x.exponent < 2048 := Nat.mod_lt _ (by decide)
  rw [isFinite, bne_iff_ne, magnitudeBits]
  omega

theorem fraction_mod_two (x : Binary64) : x.fraction % 2 = x.magnitudeBits % 2 := by
  unfold magnitudeBits
  omega

/-- No number is strictly between two neighbours on a grid as wide as theirs. -/
theorem absUnits_le_or_le (ha : s = 0 ∨ 2 ^ 52 ≤ a) (x : Binary64) :
    x.absUnits ≤ a * 2 ^ s ∨ (a + 1) * 2 ^ s ≤ x.absUnits := by
  rw [absUnits_eq]
  rcases Nat.lt_or_ge x.scale s with hlt | hge
  · -- a number with a finer scale is below the first of the two
    left
    have ha : 2 ^ 52 ≤ a := ha.resolve_left (by omega)
    calc
      x.significand * 2 ^ x.scale ≤ 2 ^ 53 * 2 ^ x.scale :=
        Nat.mul_le_mul_right _ x.significand_lt.le
      _ = 2 ^ 52 * 2 ^ (x.scale + 1) := by ring
      _ ≤ a * 2 ^ s := Nat.mul_le_mul ha (Nat.pow_le_pow_right Nat.two_pos hlt)
  · obtain ⟨d, hd⟩ := Nat.exists_eq_add_of_le hge
    rw [hd, Nat.pow_add, Nat.mul_left_comm, ← Nat.mul_comm (x.significand * 2 ^ d)]
    rcases Nat.lt_or_ge a (x.significand * 2 ^ d) with hlt | hge
    · exact .inr (Nat.mul_le_mul_right _ hlt)
    · exact .inl (Nat.mul_le_mul_right _ hge)

/-- The bits of a number on the grid. -/
theorem magnitudeBits_of_absUnits (hj : j ≤ 2 ^ 53) (hs : s = 0 ∨ 2 ^ 52 ≤ j)
    (h : x.absUnits = j * 2 ^ s) : x.magnitudeBits = s * 2 ^ 52 + j := by
  rw [absUnits_eq] at h
  rw [magnitudeBits_eq]
  have hlt := x.significand_lt
  have hpos := Nat.two_pow_pos x.scale
  rcases Nat.lt_trichotomy x.scale s with hscale | hscale | hscale
  · -- two digits more would be needed
    have hj : 2 ^ 52 ≤ j := hs.resolve_left (by omega)
    have hge : 2 ^ 52 * 2 ^ (x.scale + 1) ≤ j * 2 ^ s :=
      Nat.mul_le_mul hj (Nat.pow_le_pow_right Nat.two_pos hscale)
    have hmul := Nat.mul_lt_mul_of_pos_right hlt hpos
    rw [Nat.pow_succ 2 x.scale] at hge
    omega
  · rw [hscale] at h ⊢
    rw [Nat.eq_of_mul_eq_mul_right (Nat.two_pow_pos s) h]
  · obtain ⟨d, hd⟩ := Nat.exists_eq_add_of_lt hscale
    have hge := le_significand (x := x) (by omega)
    have hmul : x.significand * 2 ^ (d + 1) = j := by
      refine Nat.eq_of_mul_eq_mul_right (Nat.two_pow_pos s) ?_
      rw [← h, hd, Nat.mul_assoc, ← Nat.pow_add, Nat.add_comm (d + 1) s, ← Nat.add_assoc]
    -- one digit less, and only for the power of two above all others
    cases d with
    | zero => omega
    | succ d =>
      have hfour : 2 ^ 2 ≤ 2 ^ (d + 1 + 1) := Nat.pow_le_pow_right Nat.two_pos (by omega)
      have := Nat.mul_le_mul hge hfour
      omega

/-- The number that the bits below the sign stand for. -/
theorem absUnits_of_magnitudeBits (hj : j ≤ 2 ^ 53) (hs : s = 0 ∨ 2 ^ 52 ≤ j)
    (h : x.magnitudeBits = s * 2 ^ 52 + j) : x.absUnits = j * 2 ^ s := by
  have hlt := x.fraction_lt
  unfold magnitudeBits at h
  rw [absUnits_eq, significand, scale]
  rcases Nat.lt_or_ge j (2 ^ 52) with hsmall | hlarge
  · obtain rfl := hs.resolve_right (by omega)
    obtain ⟨hexponent, hfraction⟩ : x.exponent = 0 ∧ x.fraction = j := by omega
    rw [if_pos hexponent, hexponent, hfraction]
  rcases Nat.lt_or_ge j (2 ^ 53) with hsmall | htop
  · obtain ⟨hexponent, hfraction⟩ : x.exponent = s + 1 ∧ 2 ^ 52 + x.fraction = j := by omega
    rw [if_neg (by omega), hexponent, hfraction, Nat.add_sub_cancel]
  · obtain ⟨hexponent, hfraction⟩ : x.exponent = s + 2 ∧ x.fraction = 0 := by omega
    obtain rfl : j = 2 ^ 53 := by omega
    rw [if_neg (by omega), hexponent, hfraction, Nat.add_zero, Nat.add_sub_assoc (by decide)]
    ring

theorem bits_eq (x : Binary64) :
    x.bits.toNat = (if x.isNegative then 2 ^ 63 else 0) + x.magnitudeBits := by
  have hlt := x.bits.toNat_lt
  simp only [isNegative, magnitudeBits, exponent, fraction, decide_eq_true_eq]
  split <;> omega

/-- A number is its sign and the bits below it. -/
theorem ext_bits (hsign : x.isNegative = y.isNegative) (hbits : x.magnitudeBits = y.magnitudeBits) :
    x = y := by
  have hnat : x.bits.toNat = y.bits.toNat := by
    rw [bits_eq, bits_eq, hsign, hbits]
  obtain ⟨bits⟩ := x
  exact congrArg mk (UInt64.toNat_inj.1 hnat)

theorem eq_of_value_eq (hsign : x.isNegative = y.isNegative) (h : x.value = y.value) : x = y := by
  have hle : x.absUnits ≤ y.absUnits := abs_value_le_abs_value_iff.1 (by rw [h])
  have hge : y.absUnits ≤ x.absUnits := abs_value_le_abs_value_iff.1 (by rw [h])
  have hscale : y.scale = 0 ∨ 2 ^ 52 ≤ y.significand :=
    y.scale.eq_zero_or_pos.imp_right le_significand
  refine ext_bits hsign ?_
  rw [magnitudeBits_of_absUnits y.significand_lt.le hscale
    ((hle.antisymm hge).trans y.absUnits_eq), magnitudeBits_eq]

/-! ### Rounding to an integer -/

/-- The integer `k` is **nearest to `t`**, and if another is equally near it is even. -/
structure IsRounding (k : ℕ) (t : ℚ) : Prop where
  half : |k - t| ≤ 1 / 2
  even : |k - t| = 1 / 2 → k % 2 = 0

theorem isRounding_roundHalfEven {num den : ℕ} (hden : 0 < den) :
    IsRounding (roundHalfEven num den) (num / den) := by
  have hpos : (0 : ℚ) < den := Nat.cast_pos.2 hden
  have hquot : (num / den : ℚ) = (num / den : ℕ) + (num % den : ℕ) / den := by
    rw [← mul_right_inj' hpos.ne', mul_add, mul_div_cancel₀ _ hpos.ne', mul_div_cancel₀ _ hpos.ne']
    exact_mod_cast (Nat.div_add_mod num den).symm
  have hrest : (0 : ℚ) ≤ (num % den : ℕ) / den := by positivity
  have hone : ((num % den : ℕ) / den : ℚ) < 1 := by
    rw [div_lt_one hpos]
    exact_mod_cast Nat.mod_lt num hden
  -- twice the remainder is compared with the divisor
  have hless : ((num % den : ℕ) / den : ℚ) < 1 / 2 ↔ 2 * (num % den) < den := by
    rw [div_lt_div_iff₀ hpos two_pos, one_mul, mul_comm]
    exact_mod_cast Iff.rfl
  have hmore : 1 / 2 < ((num % den : ℕ) / den : ℚ) ↔ den < 2 * (num % den) := by
    rw [div_lt_div_iff₀ two_pos hpos, one_mul, mul_comm]
    exact_mod_cast Iff.rfl
  rw [hquot, roundHalfEven]
  simp only [← hless, ← hmore]
  generalize num / den = floor
  generalize ((num % den : ℕ) / den : ℚ) = rest at hrest hone ⊢
  have hdown : |(floor : ℚ) - (floor + rest)| = rest := by
    rw [sub_add_cancel_left, abs_neg, abs_of_nonneg hrest]
  have hup : |((floor + 1 : ℕ) : ℚ) - (floor + rest)| = 1 - rest := by
    rw [Nat.cast_succ, add_sub_add_left_eq_sub, abs_of_pos (sub_pos.2 hone)]
  split_ifs with h₁ h₂
  · exact ⟨by rw [hdown]; exact h₁.le, fun h => absurd (hdown ▸ h) h₁.ne⟩
  · refine ⟨by rw [hup]; linarith, fun h => ?_⟩
    rw [hup] at h
    linarith
  · -- in the middle the lower integer is taken if it is even
    obtain rfl : rest = 1 / 2 := le_antisymm (not_lt.1 h₂) (not_lt.1 h₁)
    rcases Nat.mod_two_eq_zero_or_one floor with heven | hodd
    · rw [heven, Nat.add_zero]
      exact ⟨hdown.le, fun _ => heven⟩
    · rw [hodd]
      refine ⟨by rw [hup]; norm_num, fun _ => by omega⟩

/-- A number that is rounded between two neighbours is rounded to one of them. -/
theorem IsRounding.eq_or_eq (h : IsRounding k t) (hlo : a ≤ t) (hhi : t < a + 1) :
    k = a ∨ k = a + 1 := by
  obtain ⟨hdown, hup⟩ := abs_le.1 h.half
  have hge : a < k + 1 := by
    have : (a : ℚ) < k + 1 := by linarith
    exact_mod_cast this
  have hle : k < a + 2 := by
    have : (k : ℚ) < a + 2 := by linarith
    exact_mod_cast this
  omega

theorem IsRounding.abs_le_sub (h : IsRounding k t) (hlo : a ≤ t) (hhi : t < a + 1) :
    |k - t| ≤ t - a ∧ |k - t| ≤ a + 1 - t := by
  have hhalf := h.half
  obtain rfl | rfl := h.eq_or_eq hlo hhi
  · rw [abs_of_nonpos (by linarith)] at hhalf ⊢
    constructor <;> linarith
  · push_cast at hhalf ⊢
    rw [abs_of_pos (by linarith)] at hhalf ⊢
    constructor <;> linarith

/-- Nothing outside of the two neighbours is nearer. -/
theorem IsRounding.abs_sub_le (h : IsRounding k t) (hlo : a ≤ t) (hhi : t < a + 1)
    (hu : u ≤ a ∨ a + 1 ≤ u) : |k - t| ≤ |u - t| := by
  obtain ⟨hdown, hup⟩ := h.abs_le_sub hlo hhi
  obtain hu | hu := hu
  · have := neg_le_abs (u - t)
    linarith
  · have := le_abs_self (u - t)
    linarith

/-- What is equally near is the other neighbour, and that is odd. -/
theorem IsRounding.eq_or_odd (h : IsRounding k t) (hlo : a ≤ t) (hhi : t < a + 1)
    (hu : u ≤ a ∨ a + 1 ≤ u) (heq : |k - t| = |u - t|) :
    u = k ∨ k % 2 = 0 ∧ ∃ j : ℕ, u = j ∧ (j = a ∨ j = a + 1) ∧ j % 2 = 1 := by
  obtain ⟨hdown, hup⟩ := h.abs_le_sub hlo hhi
  have heven := h.even
  obtain hu | hu := hu
  · rw [abs_of_nonpos (by linarith : u - t ≤ 0)] at heq
    obtain rfl : u = a := by linarith
    obtain rfl | rfl := h.eq_or_eq hlo hhi
    · exact .inl rfl
    · have hk : |((a + 1 : ℕ) : ℚ) - t| = 1 / 2 := by
        have hup' := le_abs_self (((a + 1 : ℕ) : ℚ) - t)
        push_cast at *
        linarith
      have := heven hk
      exact .inr ⟨this, a, rfl, .inl rfl, by omega⟩
  · rw [abs_of_nonneg (by linarith : 0 ≤ u - t)] at heq
    obtain rfl : u = a + 1 := by linarith
    obtain rfl | rfl := h.eq_or_eq hlo hhi
    · have hk : |(k : ℚ) - t| = 1 / 2 := by
        have hdown' := neg_le_abs ((k : ℚ) - t)
        linarith
      have := heven hk
      exact .inr ⟨this, k + 1, by push_cast; rfl, .inr rfl, by omega⟩
    · exact .inl (by push_cast; rfl)

/-! ### The grid around a number -/

/-- A number in steps of `2 ^ s` units. -/
def steps (q : ℚ) (s : ℕ) : ℚ := q * one / 2 ^ s

/-- The number stands between two neighbours, `a` and `a + 1` steps of `2 ^ s` units. -/
structure IsBetween (q : ℚ) (s a : ℕ) : Prop where
  lt : a < 2 ^ 53
  le : s = 0 ∨ 2 ^ 52 ≤ a
  floor_le : a ≤ steps q s
  lt_floor : steps q s < a + 1

/-- The first 53 digits of an integer. -/
theorem leading_digits (n : ℕ) :
    n / 2 ^ (n.log2 - 52) < 2 ^ 53 ∧ (n.log2 - 52 = 0 ∨ 2 ^ 52 ≤ n / 2 ^ (n.log2 - 52)) := by
  constructor
  · refine Nat.div_lt_of_lt_mul ?_
    rw [← Nat.pow_add]
    exact Nat.lt_of_lt_of_le Nat.lt_log2_self (Nat.pow_le_pow_right Nat.two_pos (by omega))
  · rcases Nat.lt_or_ge n.log2 53 with hlt | hge
    · exact .inl (by omega)
    · right
      have hne : n ≠ 0 := by
        rintro rfl
        exact absurd hge (by decide)
      rw [Nat.le_div_iff_mul_le (Nat.two_pow_pos _), ← Nat.pow_add, Nat.add_sub_cancel' (by omega)]
      exact Nat.log2_self_le hne

/-- The steps that the reader takes around a fraction are **between neighbours**. -/
theorem exists_isBetween (num : ℕ) {den : ℕ} (hden : 0 < den) :
    ∃ s a k, IsBetween (num / den) s a ∧ IsRounding k (steps (num / den) s) ∧
      magnitudeOfRatio num den = s * 2 ^ 52 + k := by
  set n := num * one / den with hn
  set s := n.log2 - 52 with hs
  have hsteps : steps (num / den) s = (num * one : ℕ) / (den * 2 ^ s : ℕ) := by
    rw [steps]
    push_cast
    rw [div_mul_eq_mul_div, div_div]
  have hfloor : ⌊steps (num / den) s⌋₊ = n / 2 ^ s := by
    rw [hsteps, Nat.floor_div_eq_div, ← Nat.div_div_eq_div_mul]
  have hnonneg : 0 ≤ steps (num / den) s := by
    rw [hsteps]
    exact div_nonneg (Nat.cast_nonneg _) (Nat.cast_nonneg _)
  obtain ⟨hlt, hle⟩ := leading_digits n
  refine ⟨s, n / 2 ^ s, roundHalfEven (num * one) (den * 2 ^ s), ⟨hlt, hle, ?_, ?_⟩, ?_, rfl⟩
  · rw [← hfloor]
    exact Nat.floor_le hnonneg
  · rw [← hfloor]
    exact Nat.lt_floor_add_one _
  · rw [hsteps]
    exact isRounding_roundHalfEven (Nat.mul_pos hden (Nat.two_pow_pos s))

theorem abs_steps_sub (u q : ℚ) (s : ℕ) : |steps u s - steps q s| = |u - q| * (one / 2 ^ s) := by
  have hpos : (0 : ℚ) < one / 2 ^ s := div_pos cast_one_pos (by positivity)
  rw [steps, steps, mul_div_assoc, mul_div_assoc, ← sub_mul, abs_mul, abs_of_pos hpos]

theorem steps_magnitude (x : Binary64) (s : ℕ) : steps x.magnitude s = x.absUnits / 2 ^ s := by
  rw [steps, magnitude_mul_one]

/-- A number on the grid, and its bits. -/
theorem steps_magnitude_eq_iff (hj : j ≤ 2 ^ 53) (hs : s = 0 ∨ 2 ^ 52 ≤ j) :
    steps x.magnitude s = j ↔ x.magnitudeBits = s * 2 ^ 52 + j := by
  rw [steps_magnitude, div_eq_iff (by positivity)]
  constructor
  · intro h
    exact magnitudeBits_of_absUnits hj hs (by exact_mod_cast h)
  · intro h
    rw [absUnits_of_magnitudeBits hj hs h]
    push_cast
    rfl

theorem IsBetween.nonneg (h : IsBetween q s a) : 0 ≤ q := by
  have hsteps : 0 ≤ q * one / 2 ^ s := a.cast_nonneg.trans h.floor_le
  rw [le_div_iff₀ (by positivity), zero_mul] at hsteps
  exact nonneg_of_mul_nonneg_left hsteps cast_one_pos

theorem IsBetween.steps_le_or_le (h : IsBetween q s a) (x : Binary64) :
    steps x.magnitude s ≤ a ∨ a + 1 ≤ steps x.magnitude s := by
  have hpos : (0 : ℚ) < 2 ^ s := by positivity
  rw [steps_magnitude, div_le_iff₀ hpos, le_div_iff₀ hpos]
  exact_mod_cast absUnits_le_or_le h.le x

/-! ### Overflow -/

theorem overflow_mul_one : overflow * one = (2 ^ 53 - 1 / 2) * 2 ^ 2045 := by
  have hone : (one : ℚ) = 2 ^ 1074 := by rw [cast_one, ← zpow_natCast]; rfl
  have htop : (2 : ℚ) ^ 1024 = 2 ^ 970 * 2 ^ 54 := pow_add 2 970 54
  have hproduct : (2 : ℚ) ^ 970 * 2 ^ 1074 = 2 ^ 2044 := (pow_add 2 970 1074).symm
  have hsucc : (2 : ℚ) ^ 2045 = 2 ^ 2044 * 2 := pow_succ 2 2044
  rw [hone, overflow, htop, hsucc, ← hproduct]
  generalize (2 : ℚ) ^ 970 = p
  generalize (2 : ℚ) ^ 1074 = u
  ring

theorem two_pow_le_overflow {n : ℕ} (hn : n ≤ 970) : 2 ^ n ≤ overflow := by
  have htop : (2 : ℚ) ^ 1024 = 2 ^ 970 * 2 ^ 54 := pow_add 2 970 54
  have hpos : (0 : ℚ) < 2 ^ 970 := by positivity
  calc
    (2 : ℚ) ^ n ≤ 2 ^ 970 := pow_le_pow_right₀ one_le_two hn
    _ ≤ overflow := by
      rw [overflow, htop]
      generalize (2 : ℚ) ^ 970 = p at hpos
      linarith

theorem lt_overflow_iff : q < overflow ↔ steps q 2045 < 2 ^ 53 - 1 / 2 := by
  rw [steps, div_lt_iff₀ (by positivity), ← overflow_mul_one, mul_lt_mul_iff_left₀ cast_one_pos]

theorem steps_add (q : ℚ) (s d : ℕ) : steps q s = steps q (s + d) * 2 ^ d := by
  have hpos : (2 : ℚ) ^ d ≠ 0 := by positivity
  rw [steps, steps, pow_add, ← div_div, div_mul_cancel₀ _ hpos]

theorem two_mul_steps_le (hq : 0 ≤ q) {s s' : ℕ} (h : s < s') : 2 * steps q s' ≤ steps q s := by
  obtain ⟨d, rfl⟩ := Nat.exists_eq_add_of_lt h
  have hnonneg : 0 ≤ steps q (s + (d + 1)) :=
    div_nonneg (mul_nonneg hq cast_one_pos.le) (by positivity)
  have htwo : (2 : ℚ) ≤ 2 ^ (d + 1) := le_self_pow₀ one_le_two d.succ_ne_zero
  rw [Nat.add_assoc, steps_add q s (d + 1), mul_comm]
  exact mul_le_mul_of_nonneg_left htwo hnonneg

/-- The bits are those of a finite number below the overflow only. -/
theorem IsBetween.bits_lt_iff (h : IsBetween q s a) (hround : IsRounding k (steps q s)) :
    s * 2 ^ 52 + k < 2047 * 2 ^ 52 ↔ q < overflow := by
  have hnonneg := h.nonneg
  obtain ⟨hlt, hle, hfloor, hlt_floor⟩ := h
  obtain ⟨hdown, hup⟩ := abs_le.1 hround.half
  have hk := hround.eq_or_eq hfloor hlt_floor
  have hcast : (a : ℚ) + 1 ≤ 2 ^ 53 := by exact_mod_cast hlt
  rw [lt_overflow_iff]
  rcases Nat.lt_trichotomy s 2045 with hs | rfl | hs
  · refine iff_of_true (by omega) ?_
    have := two_mul_steps_le hnonneg hs
    linarith
  · -- in the last binade of the format
    constructor
    · intro hfinite
      by_contra hge
      have hkle : (k : ℚ) + 1 ≤ 2 ^ 53 := by
        have : k + 1 ≤ 2 ^ 53 := by omega
        exact_mod_cast this
      have hodd : (k : ℚ) + 1 = 2 ^ 53 := by linarith
      have hodd : k + 1 = 2 ^ 53 := by exact_mod_cast hodd
      have := hround.even (by rw [abs_of_nonpos] <;> linarith)
      omega
    · intro hless
      have hkle : (k : ℚ) < 2 ^ 53 := by linarith
      have hkle : k < 2 ^ 53 := by exact_mod_cast hkle
      omega
  · refine iff_of_false (by omega) ?_
    have hge : (2 : ℚ) ^ 52 ≤ a := by exact_mod_cast hle.resolve_left (by omega)
    have := two_mul_steps_le hnonneg hs
    linarith

end Binary64

end PlaceFeed
