import PlaceFeed.Proofs.Rounding

/-!
# The nearest number

What the reader makes of a fraction, a decimal number or an integer is the binary64 number nearest
to it, and of two that are equally near the one whose last bit is zero (`Binary64.IsNearest`).  From
`Binary64.overflow` on, and only there, it makes nothing of it.

* `Binary64.IsRounded.isNearest` : what a fraction is rounded to is nearest to it;
* `Binary64.IsNearest.value_unique` : below the overflow there is **one nearest value**;
* `Binary64.ofRatio?_eq_some_iff`, `Binary64.ofDecimal?_eq_some_iff`,
  `Binary64.ofInt?_eq_some_iff` : **the reader gives the nearest number**, with the sign that is
  asked for.
-/

namespace PlaceFeed

namespace Binary64

variable {x y : Binary64} {s k a : ℕ} {q : ℚ}

/-- The bits are those that `q`, in steps between two neighbours, is rounded to. -/
structure IsRounded (x : Binary64) (q : ℚ) (s a k : ℕ) : Prop where
  between : IsBetween q s a
  rounding : IsRounding k (steps q s)
  bits : x.magnitudeBits = s * 2 ^ 52 + k

namespace IsRounded

theorem eq_or_eq (h : IsRounded x q s a k) : k = a ∨ k = a + 1 :=
  h.rounding.eq_or_eq h.between.floor_le h.between.lt_floor

theorem steps_eq (h : IsRounded x q s a k) : steps x.magnitude s = k := by
  obtain ⟨hlt, hle, -, -⟩ := h.between
  have := h.eq_or_eq
  exact (steps_magnitude_eq_iff (by omega) (by omega)).2 h.bits

theorem abs_magnitude_sub_le (h : IsRounded x q s a k) (y : Binary64) :
    |x.magnitude - q| ≤ |y.magnitude - q| := by
  have hpos : (0 : ℚ) < one / 2 ^ s := div_pos cast_one_pos (by positivity)
  rw [← mul_le_mul_iff_left₀ hpos, ← abs_steps_sub, ← abs_steps_sub, h.steps_eq]
  exact h.rounding.abs_sub_le h.between.floor_le h.between.lt_floor (h.between.steps_le_or_le y)

/-- Of two numbers that are equally near, the one that is taken ends with a zero and the other with
a one. -/
theorem magnitude_eq_or_odd (h : IsRounded x q s a k) {y : Binary64}
    (heq : |x.magnitude - q| = |y.magnitude - q|) :
    y.magnitude = x.magnitude ∨ x.fraction % 2 = 0 ∧ y.fraction % 2 = 1 := by
  have hpos : (0 : ℚ) < one / 2 ^ s := div_pos cast_one_pos (by positivity)
  obtain ⟨hlt, hle, hfloor, hlt_floor⟩ := h.between
  rw [← mul_left_inj' hpos.ne', ← abs_steps_sub, ← abs_steps_sub, h.steps_eq] at heq
  obtain hy | ⟨heven, j, hy, hj, hodd⟩ :=
    h.rounding.eq_or_odd hfloor hlt_floor (h.between.steps_le_or_le y) heq
  · left
    rw [← h.steps_eq, steps, steps, div_left_inj' (by positivity),
      mul_left_inj' cast_one_pos.ne'] at hy
    exact hy
  · right
    rw [steps_magnitude_eq_iff (by omega) (by omega)] at hy
    have := h.bits
    rw [fraction_mod_two, fraction_mod_two]
    omega

/-! ### Signs -/

theorem abs_value_sub (x : Binary64) (q : ℚ) :
    |x.value - signed x.isNegative q| = |x.magnitude - q| := by
  rw [value, signed]
  split
  · rw [neg_sub_neg, abs_sub_comm]
  · rfl

theorem abs_value_sub_of_ne {negative : Bool} (h : x.isNegative ≠ negative) (q : ℚ) :
    |x.value - signed negative q| = |x.magnitude + q| := by
  rw [value, signed]
  cases hx : x.isNegative <;> cases negative
  · exact absurd hx h
  · rw [if_neg Bool.false_ne_true, if_pos rfl, sub_neg_eq_add]
  · rw [if_pos rfl, if_neg Bool.false_ne_true, ← neg_add', abs_neg]
  · exact absurd hx h

theorem abs_magnitude_sub_le_value (hq : 0 ≤ q) (negative : Bool) (y : Binary64) :
    |y.magnitude - q| ≤ |y.value - signed negative q| := by
  have := abs_abs_sub_abs_le y.value (signed negative q)
  rwa [abs_value, abs_signed hq] at this

/-- The same with signs: what is as near has the same value, or ends with a one. -/
theorem value_eq_or_odd (h : IsRounded x q s a k) {y : Binary64}
    (hy : |y.value - signed x.isNegative q| ≤ |x.value - signed x.isNegative q|) :
    y.value = x.value ∨ x.fraction % 2 = 0 ∧ y.fraction % 2 = 1 := by
  have hle := abs_magnitude_sub_le_value h.between.nonneg x.isNegative y
  rw [abs_value_sub] at hy
  have heq := le_antisymm (h.abs_magnitude_sub_le y) (hle.trans hy)
  obtain hmagnitude | hodd := h.magnitude_eq_or_odd heq
  · left
    by_cases hsign : y.isNegative = x.isNegative
    · rw [value, value, hsign, hmagnitude]
    · -- the other sign is as near for zero only
      have hzero := h.abs_magnitude_sub_le zero
      rw [magnitude_zero, zero_sub, abs_neg, abs_of_nonneg h.between.nonneg] at hzero
      rw [abs_value_sub_of_ne hsign, hmagnitude] at hy
      have hsum := le_abs_self (x.magnitude + q)
      have hx : x.magnitude = 0 := le_antisymm (by linarith) x.magnitude_nonneg
      have hy : y.magnitude = 0 := hmagnitude.trans hx
      rw [abs_eq_zero.1 (x.abs_value.trans hx), abs_eq_zero.1 (y.abs_value.trans hy)]
  · exact .inr hodd

/-! ### Nearest numbers -/

theorem abs_value_sub_le (h : IsRounded x q s a k) (y : Binary64) :
    |x.value - signed x.isNegative q| ≤ |y.value - signed x.isNegative q| := by
  rw [abs_value_sub]
  exact (h.abs_magnitude_sub_le y).trans (abs_magnitude_sub_le_value h.between.nonneg _ y)

theorem isNearest (h : IsRounded x q s a k) (hx : x.isFinite = true) :
    x.IsNearest (signed x.isNegative q) where
  isFinite := hx
  le y _ := h.abs_value_sub_le y
  even _ _ heq := (h.value_eq_or_odd heq.ge).imp_right And.left

/-- No other number is nearest. -/
theorem value_eq (h : IsRounded x q s a k) (hx : x.isFinite = true)
    (hy : y.IsNearest (signed x.isNegative q)) : y.value = x.value := by
  have hle := hy.le x hx
  obtain heq | ⟨-, hodd⟩ := h.value_eq_or_odd hle
  · exact heq
  · obtain heq | heven := hy.even x hx (le_antisymm hle (h.abs_value_sub_le y))
    · exact heq.symm
    · omega

end IsRounded

/-! ### Bits -/

/-- All bits below those of an infinity are those of a number. -/
theorem exists_bits (negative : Bool) {m : ℕ} (hm : m < 2047 * 2 ^ 52) :
    ∃ x, ofMagnitude? negative m = some x ∧ x.isNegative = negative ∧ x.magnitudeBits = m := by
  refine ⟨_, if_pos hm, ?_⟩
  cases negative <;>
    simp only [isNegative, magnitudeBits, exponent, fraction, UInt64.toNat_ofNat', if_true,
      Bool.false_eq_true, if_false, decide_eq_true_eq, decide_eq_false_iff_not] <;> omega

theorem ofMagnitude?_eq_some_iff {negative : Bool} {m : ℕ} :
    ofMagnitude? negative m = some x ↔
      m < 2047 * 2 ^ 52 ∧ x.isNegative = negative ∧ x.magnitudeBits = m := by
  constructor
  · intro h
    have hm : m < 2047 * 2 ^ 52 := by
      by_contra hm
      cases h.symm.trans (if_neg hm)
    obtain ⟨y, hy, hsign, hbits⟩ := exists_bits negative hm
    obtain rfl := Option.some.inj (hy.symm.trans h)
    exact ⟨hm, hsign, hbits⟩
  · rintro ⟨hm, rfl, rfl⟩
    obtain ⟨y, hy, hsign, hbits⟩ := exists_bits x.isNegative hm
    rw [hy, ext_bits hsign hbits]

/-! ### Fractions -/

section Ratio

variable {negative : Bool} {num den : ℕ}

/-- **A fraction is read to the number nearest to it**, below the overflow. -/
theorem ofRatio?_eq_some_iff (hden : 0 < den) :
    ofRatio? negative num den = some x ↔
      x.isNegative = negative ∧ (num / den : ℚ) < overflow ∧
        x.IsNearest (signed negative (num / den)) := by
  obtain ⟨s, a, k, hbetween, hround, hm⟩ := exists_isBetween num hden
  rw [ofRatio?, ofMagnitude?_eq_some_iff, hm, hbetween.bits_lt_iff hround]
  constructor
  · rintro ⟨hlt, rfl, hbits⟩
    have hx : IsRounded x (num / den) s a k := ⟨hbetween, hround, hbits⟩
    refine ⟨rfl, hlt, hx.isNearest ?_⟩
    rwa [isFinite_iff_magnitudeBits, hbits, hbetween.bits_lt_iff hround]
  · rintro ⟨rfl, hlt, hx⟩
    refine ⟨hlt, rfl, ?_⟩
    rw [← hbetween.bits_lt_iff hround] at hlt
    obtain ⟨y, -, hsign, hbits⟩ := exists_bits x.isNegative hlt
    have hy : IsRounded y (num / den) s a k := ⟨hbetween, hround, hbits⟩
    rw [← hsign] at hx
    have hvalue := hy.value_eq (by rwa [isFinite_iff_magnitudeBits, hbits]) hx
    rw [← hbits, eq_of_value_eq hsign.symm hvalue]

/-- There is nothing from the overflow on. -/
theorem ofRatio?_eq_none_iff (hden : 0 < den) :
    ofRatio? negative num den = none ↔ overflow ≤ (num / den : ℚ) := by
  obtain ⟨s, a, k, hbetween, hround, hm⟩ := exists_isBetween num hden
  rw [← not_lt, ← hbetween.bits_lt_iff hround, ← hm]
  exact ite_eq_right_iff.trans (by simp)

/-- A rational number is a sign and a fraction. -/
theorem exists_ratio (q : ℚ) :
    ∃ (negative : Bool) (num den : ℕ), 0 < den ∧ |q| = num / den ∧
      q = signed negative (num / den) := by
  have habs : |q| = q.num.natAbs / q.den := by
    rw [Rat.abs_def, Rat.divInt_eq_div, Int.cast_natCast, Int.cast_natCast]
  refine ⟨decide (q < 0), q.num.natAbs, q.den, q.den_pos, habs, ?_⟩
  rw [← habs, signed_abs]

/-- Below the overflow all nearest numbers have **one value**. -/
theorem IsNearest.value_unique {q : ℚ} (hx : x.IsNearest q) (hy : y.IsNearest q)
    (hq : |q| < overflow) : x.value = y.value := by
  obtain ⟨negative, num, den, hden, habs, rfl⟩ := exists_ratio q
  obtain ⟨s, a, k, hbetween, hround, -⟩ := exists_isBetween num hden
  rw [habs, ← hbetween.bits_lt_iff hround] at hq
  obtain ⟨z, -, rfl, hbits⟩ := exists_bits negative hq
  have hz : IsRounded z (num / den) s a k := ⟨hbetween, hround, hbits⟩
  have hfinite : z.isFinite = true := by rwa [isFinite_iff_magnitudeBits, hbits]
  rw [hz.value_eq hfinite hx, hz.value_eq hfinite hy]

end Ratio

/-! ### Decimal numbers -/

section Decimal

variable {negative : Bool} {digits : ℕ}

theorem ofMagnitude?_zero {num den : ℕ} (h : magnitudeOfRatio num den = 0) :
    ofMagnitude? negative 0 = ofRatio? negative num den := by
  rw [ofRatio?, h]

/-- A fraction of less than half a unit is rounded to zero. -/
theorem magnitudeOfRatio_eq_zero {num den : ℕ} (h : 2 * (num * one) < den) :
    magnitudeOfRatio num den = 0 := by
  have hlt : num * one < den := by omega
  unfold magnitudeOfRatio
  simp only [Nat.div_eq_of_lt hlt, Nat.log2_zero, Nat.zero_sub, Nat.zero_mul, Nat.zero_add,
    Nat.pow_zero, Nat.pow_eq, Nat.mul_one, roundHalfEven, Nat.mod_eq_of_lt hlt, if_pos h]

theorem ofDecimal?_ofNat (negative : Bool) (digits e : ℕ) :
    ofDecimal? negative digits (.ofNat e) = ofRatio? negative (digits * 10 ^ e) 1 := by
  rw [ofDecimal?]
  split_ifs with hzero hlarge
  · refine ofMagnitude?_zero (magnitudeOfRatio_eq_zero ?_)
    rw [hzero, Nat.zero_mul, Nat.zero_mul]
    exact Nat.one_pos
  · symm
    rw [ofRatio?_eq_none_iff Nat.one_pos]
    have hle : 2 ^ 1024 ≤ digits * 10 ^ e :=
      calc
        2 ^ 1024 ≤ 10 ^ 311 := by decide +kernel
        _ ≤ 10 ^ e := Nat.pow_le_pow_right (by decide) hlarge
        _ ≤ digits * 10 ^ e := Nat.le_mul_of_pos_left _ (Nat.pos_of_ne_zero hzero)
    rw [Nat.cast_one, div_one]
    exact (sub_le_self _ (by positivity)).trans (by exact_mod_cast hle)
  · rfl

theorem ofDecimal?_negSucc (negative : Bool) (digits e : ℕ) :
    ofDecimal? negative digits (.negSucc e) = ofRatio? negative digits (10 ^ (e + 1)) := by
  rw [ofDecimal?]
  split_ifs with hsmall
  · refine ofMagnitude?_zero (magnitudeOfRatio_eq_zero ?_)
    rcases hsmall with rfl | hlog
    · rw [Nat.zero_mul]
      exact Nat.pow_pos (by decide)
    · calc
        2 * (digits * one) < 2 * (2 ^ (digits.log2 + 1) * one) :=
          Nat.mul_lt_mul_of_pos_left
            (Nat.mul_lt_mul_of_pos_right Nat.lt_log2_self one_pos) Nat.two_pos
        _ = 2 ^ (digits.log2 + 1076) := by
          obtain ⟨n, hn, hone⟩ := exists_one_eq_pow
          rw [hone, ← Nat.pow_add, ← Nat.pow_succ', hn]
        _ ≤ 2 ^ (3 * (e + 1)) := Nat.pow_le_pow_right Nat.two_pos (by omega)
        _ = 8 ^ (e + 1) := Nat.pow_mul 2 3 _
        _ ≤ 10 ^ (e + 1) := Nat.pow_le_pow_left (by decide) _
  · rfl

/-- The parts of a decimal number as a fraction. -/
theorem exists_ofDecimal?_eq (negative : Bool) (digits : ℕ) (e : ℤ) :
    ∃ num den : ℕ, 0 < den ∧ (num / den : ℚ) = digits * 10 ^ e ∧
      ofDecimal? negative digits e = ofRatio? negative num den := by
  cases e with
  | ofNat e =>
    refine ⟨digits * 10 ^ e, 1, Nat.one_pos, ?_, ofDecimal?_ofNat negative digits e⟩
    push_cast
    rw [div_one, Int.ofNat_eq_natCast, zpow_natCast]
  | negSucc e =>
    refine ⟨digits, 10 ^ (e + 1), Nat.pow_pos (by decide), ?_, ofDecimal?_negSucc negative digits e⟩
    push_cast
    rw [zpow_negSucc, div_eq_mul_inv]

/-- **A decimal number is read to the number nearest to it.** -/
theorem ofDecimal?_eq_some_iff {e : ℤ} :
    ofDecimal? negative digits e = some x ↔
      x.isNegative = negative ∧ (digits * 10 ^ e : ℚ) < overflow ∧
        x.IsNearest (signed negative (digits * 10 ^ e)) := by
  obtain ⟨num, den, hden, hvalue, heq⟩ := exists_ofDecimal?_eq negative digits e
  rw [heq, ofRatio?_eq_some_iff hden, hvalue]

theorem ofDecimal?_eq_none_iff {e : ℤ} :
    ofDecimal? negative digits e = none ↔ overflow ≤ (digits * 10 ^ e : ℚ) := by
  obtain ⟨num, den, hden, hvalue, heq⟩ := exists_ofDecimal?_eq negative digits e
  rw [heq, ofRatio?_eq_none_iff hden, hvalue]

theorem cast_natAbs_div_one (n : ℤ) : ((n.natAbs : ℕ) / (1 : ℕ) : ℚ) = |(n : ℚ)| := by
  rw [Nat.cast_one, div_one, Nat.cast_natAbs, Int.cast_abs]

/-- **An integer is read to the number nearest to it.** -/
theorem ofInt?_eq_some_iff {n : ℤ} :
    ofInt? n = some x ↔
      x.isNegative = decide (n < 0) ∧ |(n : ℚ)| < overflow ∧ x.IsNearest n := by
  have hsign : decide (n < 0) = decide ((n : ℚ) < 0) := decide_eq_decide.2 Int.cast_lt_zero.symm
  rw [ofInt?, ofRatio?_eq_some_iff Nat.one_pos, cast_natAbs_div_one, hsign, signed_abs]

theorem ofInt?_eq_none_iff {n : ℤ} : ofInt? n = none ↔ overflow ≤ |(n : ℚ)| := by
  rw [ofInt?, ofRatio?_eq_none_iff Nat.one_pos, cast_natAbs_div_one]

end Decimal

end Binary64

end PlaceFeed
