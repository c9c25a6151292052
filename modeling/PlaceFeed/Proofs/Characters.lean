import PlaceFeed.Text.Scalars

/-!
# The bytes of a character

`Utf8.isCharacter` tests some bytes; `Utf8.Form` says the same by the number of bytes, with one
constructor for each of the four lengths, so that a proof about characters has four cases.

* `Utf8.isCharacter_iff` : the test accepts exactly the forms;
* `Utf8.form_encodeChar`, `Utf8.Form.exists_encodeChar` : **the forms are the encodings of the
  scalar values**, and `Utf8.code_encodeChar` says that the code of an encoding is the value;
* `Utf8.Form.code_inj` : there is one form for a code, which is what rules out overlong encodings.
-/

namespace PlaceFeed

namespace Utf8

/-! ### The four forms -/

/-- The bytes that continue a character, by their values. -/
theorem isContinuation_iff {b : UInt8} :
    isContinuation b = true ↔ 0x80 ≤ b.toNat ∧ b.toNat < 0xC0 := by
  simp [isContinuation, UInt8.le_iff_toNat_le, UInt8.lt_iff_toNat_lt]

/-- The bytes of one character, by their number. -/
inductive Form : Bytes → Prop
  | one {a : UInt8} (ha : a.toNat < 0x80) : Form [a]
  | two {a b : UInt8} (ha : 0xC2 ≤ a.toNat ∧ a.toNat ≤ 0xDF) (hb : isContinuation b = true) :
    Form [a, b]
  | three {a b c : UInt8} (ha : 0xE0 ≤ a.toNat ∧ a.toNat ≤ 0xEF) (hb : isContinuation b = true)
    (hc : isContinuation c = true) (hcode : 0x800 ≤ code [a, b, c])
    (hsurrogate : ¬(0xD800 ≤ code [a, b, c] ∧ code [a, b, c] ≤ 0xDFFF)) : Form [a, b, c]
  | four {a b c d : UInt8} (ha : 0xF0 ≤ a.toNat ∧ a.toNat ≤ 0xF4) (hb : isContinuation b = true)
    (hc : isContinuation c = true) (hd : isContinuation d = true)
    (hcode : 0x10000 ≤ code [a, b, c, d] ∧ code [a, b, c, d] ≤ 0x10FFFF) : Form [a, b, c, d]

theorem isCharacter_iff {p : Bytes} : isCharacter p = true ↔ Form p := by
  constructor
  · intro h
    match p with
    | [] => simp [isCharacter] at h
    | [a] =>
      simp only [isCharacter, decide_eq_true_eq, UInt8.lt_iff_toNat_lt] at h
      exact .one h
    | [a, b] =>
      simp only [isCharacter, Bool.and_eq_true, decide_eq_true_eq, UInt8.le_iff_toNat_le] at h
      exact .two h.1 h.2
    | [a, b, c] =>
      simp only [isCharacter, Bool.and_eq_true, Bool.not_eq_true', Bool.and_eq_false_iff,
        decide_eq_true_eq, decide_eq_false_iff_not, UInt8.le_iff_toNat_le] at h
      obtain ⟨⟨⟨⟨ha, hb⟩, hc⟩, hcode⟩, hs⟩ := h
      exact .three ha hb hc hcode (by omega)
    | [a, b, c, d] =>
      simp only [isCharacter, Bool.and_eq_true, decide_eq_true_eq, UInt8.le_iff_toNat_le] at h
      obtain ⟨⟨⟨⟨⟨ha, hb⟩, hc⟩, hd⟩, hlo⟩, hhi⟩ := h
      exact .four ha hb hc hd ⟨hlo, hhi⟩
    | _ :: _ :: _ :: _ :: _ :: _ => simp [isCharacter] at h
  · rintro (ha | ⟨ha, hb⟩ | ⟨ha, hb, hc, hcode, hs⟩ | ⟨ha, hb, hc, hd, hcode⟩)
    · simp [isCharacter, UInt8.lt_iff_toNat_lt, ha]
    · simp [isCharacter, UInt8.le_iff_toNat_le, ha, hb]
    · simp [isCharacter, UInt8.le_iff_toNat_le, ha, hb, hc, hcode]; omega
    · simp [isCharacter, UInt8.le_iff_toNat_le, ha, hb, hc, hd, hcode]

theorem Form.charLength_eq {a : UInt8} {s : Bytes} (h : Form (a :: s)) :
    charLength a = s.length + 1 := by
  simp only [charLength, UInt8.le_iff_toNat_le, UInt8.lt_iff_toNat_lt, UInt8.reduceToNat]
  cases h with
  | one ha => rw [if_pos (by omega)]; rfl
  | two ha hb => rw [if_neg (by omega), if_pos (by omega)]; rfl
  | three ha hb hc => rw [if_neg (by omega), if_neg (by omega), if_pos (by omega)]; rfl
  | four ha hb hc hd =>
    rw [if_neg (by omega), if_neg (by omega), if_neg (by omega), if_pos (by omega)]; rfl

theorem Form.isContinuation_head {a : UInt8} {s : Bytes} (h : Form (a :: s)) :
    isContinuation a = false := by
  rw [Bool.eq_false_iff, Ne, isContinuation_iff]
  cases h <;> omega

theorem Form.isContinuation_tail {a : UInt8} {s : Bytes} (h : Form (a :: s)) :
    ∀ b ∈ s, isContinuation b = true := by
  cases h <;> simp_all

theorem Form.ne_nil {p : Bytes} (h : Form p) : p ≠ [] := by
  cases h <;> simp

theorem Form.isValidChar {p : Bytes} (h : Form p) : (code p).isValidChar := by
  cases h with
  | one ha => simp only [code]; left; omega
  | two ha hb => simp only [code]; left; omega
  | three ha hb hc hcode hs => simp only [code] at *; unfold Nat.isValidChar; omega
  | four ha hb hc hd hcode => simp only [code] at *; unfold Nat.isValidChar; omega

theorem Form.code_inj {p q : Bytes} (hp : Form p) (hq : Form q) (h : code p = code q) : p = q := by
  -- of different lengths the codes are in different ranges, and of one length they are numerals
  -- of which the bytes are the digits
  cases hp <;> cases hq <;> simp only [code, isContinuation_iff] at * <;>
    simp only [List.cons.injEq, ← UInt8.toNat_inj, and_true] <;> omega

/-! ### Characters as scalar values -/

theorem toNat_byte {n : Nat} (h : n < 256) : (UInt8.ofNat n).toNat = n := by
  simp [Nat.mod_eq_of_lt h]

/-- The code of an encoding is the scalar value. -/
theorem code_encodeChar (c : Char) : code (String.utf8EncodeChar c) = c.toNat := by
  have hc : c.val.toNat < 0xD800 ∨ 0xDFFF < c.val.toNat ∧ c.val.toNat < 0x110000 := c.valid
  show _ = c.val.toNat
  fun_cases String.utf8EncodeChar c
  · rw [code, toNat_byte (by omega)]
  · rw [code, toNat_byte (by omega), toNat_byte (by omega)]
    omega
  · rw [code, toNat_byte (by omega), toNat_byte (by omega), toNat_byte (by omega)]
    omega
  · rw [code, toNat_byte (by omega), toNat_byte (by omega), toNat_byte (by omega),
      toNat_byte (by omega)]
    omega

theorem isContinuation_byte {n : Nat} : isContinuation (UInt8.ofNat (n % 64 + 128)) = true := by
  rw [isContinuation_iff, toNat_byte (by omega)]
  omega

/-- Every scalar value has the form of a character. -/
theorem form_encodeChar (c : Char) : Form (String.utf8EncodeChar c) := by
  have hc : c.val.toNat < 0xD800 ∨ 0xDFFF < c.val.toNat ∧ c.val.toNat < 0x110000 := c.valid
  have hcode : code (String.utf8EncodeChar c) = c.val.toNat := code_encodeChar c
  revert hcode
  fun_cases String.utf8EncodeChar c with
  | case1 v h1 =>
    intro _
    exact .one (by rw [toNat_byte] <;> omega)
  | case2 v h1 h2 =>
    intro _
    exact .two (by rw [toNat_byte] <;> omega) isContinuation_byte
  | case3 v h1 h2 h3 =>
    intro hcode
    exact .three (by rw [toNat_byte] <;> omega) isContinuation_byte isContinuation_byte
      (by omega) (by omega)
  | case4 v h1 h2 h3 =>
    intro hcode
    exact .four (by rw [toNat_byte] <;> omega) isContinuation_byte isContinuation_byte
      isContinuation_byte (by omega)

/-- Every form of a character is that of a scalar value. -/
theorem Form.exists_encodeChar {p : Bytes} (h : Form p) : ∃ c, String.utf8EncodeChar c = p := by
  -- the code is a scalar value, and its encoding is the only form with that code
  refine ⟨Char.ofNatAux (code p) h.isValidChar, (form_encodeChar _).code_inj h ?_⟩
  rw [code_encodeChar]
  rfl

theorem encodeChar_injective : Function.Injective String.utf8EncodeChar := by
  intro c d h
  apply Char.ext
  apply UInt32.toNat_inj.1
  have := congrArg code h
  rwa [code_encodeChar, code_encodeChar] at this

end Utf8

end PlaceFeed
