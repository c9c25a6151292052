import PlaceFeed.Proofs.Trimming

/-!
# Cleaning encoded texts

`Clean.clean` works on bytes in four passes: it tests the text, treats every character, cuts, and
trims.  `Scalars.clean` says what that comes to on characters.

* `Scalars.clean_eq_encode` : **cleaning bytes is cleaning characters**, and a text that encodes
  nothing is refused;
* `Scalars.clean_fixed_points` : **the clean texts are the safe ones** (`Scalars.IsSafe`), so that
  cleaning a second time changes nothing.

A pass could undo what one before it did: a space stands for a control character, and cutting can
leave white space at the end.  It does not, because every pass after the scrubbing only takes
characters away, which keeps a text scrubbed and short, and trimming is the last one.
-/

namespace PlaceFeed

namespace Clean

open Utf8

/-! ### Single characters -/

theorem isDropped_two {a b : UInt8} :
    isDropped [a, b] = true ↔
      a.toNat = 0xCC ∧ (b.toNat = 0x8A ∨ b.toNat = 0xB3 ∨ b.toNat = 0xBF) := by
  by_cases ha : a = 0xCC
  · subst ha
    simp [isDropped, ← UInt8.toNat_inj, or_assoc]
  · have hne : a.toNat ≠ 0xCC := fun h => ha (UInt8.toNat_inj.1 h)
    simp [isDropped, ha, hne]

theorem isDropped_three {a b c : UInt8} :
    isDropped [a, b, c] = true ↔
      a.toNat = 0xE2 ∧ b.toNat = 0x80 ∧ 0xA8 ≤ c.toNat ∧ c.toNat ≤ 0xAE := by
  by_cases h : a = 0xE2 ∧ b = 0x80
  · obtain ⟨rfl, rfl⟩ := h
    simp [isDropped, UInt8.le_iff_toNat_le]
  · have hne : ¬(a.toNat = 0xE2 ∧ b.toNat = 0x80) := fun h' =>
      h ⟨UInt8.toNat_inj.1 h'.1, UInt8.toNat_inj.1 h'.2⟩
    have : isDropped [a, b, c] = false := by
      unfold isDropped
      split <;> simp_all
    rw [this]
    simp only [Bool.false_eq_true, false_iff]
    omega

/-- The dropped characters, by their codes. -/
theorem isDropped_iff {p : Bytes} (h : Form p) :
    isDropped p = true ↔ code p = 0x0D ∨ (0x2028 ≤ code p ∧ code p ≤ 0x202E) ∨
      code p = 0x30A ∨ code p = 0x333 ∨ code p = 0x33F := by
  cases h with
  | one ha =>
    simp only [isDropped, code, beq_iff_eq, ← UInt8.toNat_inj, Ascii.carriageReturn,
      UInt8.reduceToNat]
    omega
  | two ha hb =>
    rw [isContinuation_iff] at hb
    rw [isDropped_two, code]
    omega
  | three ha hb hc hcode =>
    rw [isContinuation_iff] at hb hc
    rw [isDropped_three, code] at *
    omega
  | four ha hb hc hd hcode =>
    simp only [isDropped, Bool.false_eq_true, false_iff]
    omega

/-- The control characters, by their codes. -/
theorem isControl_iff {p : Bytes} (h : Form p) :
    isControl p = true ↔
      (code p < 0x20 ∧ code p ≠ 0x09 ∧ code p ≠ 0x0A ∧ code p ≠ 0x0D) ∨ code p = 0x7F := by
  cases h with
  | one ha =>
    simp only [isControl, code, Bool.or_eq_true, Bool.and_eq_true, beq_iff_eq, decide_eq_true_eq,
      UInt8.le_iff_toNat_le, ← UInt8.toNat_inj, UInt8.reduceToNat]
    omega
  | two ha hb =>
    rw [isContinuation_iff] at hb
    simp only [isControl, code, Bool.false_eq_true, false_iff]
    omega
  | three ha hb hc hcode =>
    simp only [isControl, Bool.false_eq_true, false_iff]
    omega
  | four ha hb hc hd hcode =>
    simp only [isControl, Bool.false_eq_true, false_iff]
    omega

theorem isDropped_encodeChar (c : Char) :
    isDropped (String.utf8EncodeChar c) = Scalars.isInvisible c := by
  rw [Bool.eq_iff_iff, isDropped_iff (form_encodeChar c), code_encodeChar, Scalars.isInvisible]
  simp only [Bool.or_eq_true, Bool.and_eq_true, beq_iff_eq, decide_eq_true_eq]
  omega

theorem isControl_encodeChar (c : Char) :
    isControl (String.utf8EncodeChar c) = Scalars.isControl c := by
  rw [Bool.eq_iff_iff, isControl_iff (form_encodeChar c), code_encodeChar, Scalars.isControl]
  simp only [Bool.or_eq_true, Bool.and_eq_true, bne_iff_ne, beq_iff_eq, decide_eq_true_eq]
  omega

end Clean

namespace Scalars

open Utf8

/-! ### Cleaning -/

theorem scrub_cons (c : Char) (cs : List Char) : scrub (c :: cs) = scrub [c] ++ scrub cs := by
  unfold scrub
  cases h : isInvisible c <;> simp [h]

/-- Treating the bytes of a character is scrubbing the character. -/
theorem treat_encodeChar (c : Char) :
    Clean.treat (String.utf8EncodeChar c) = encode (scrub [c]) := by
  rw [Clean.treat, Clean.isDropped_encodeChar, Clean.isControl_encodeChar]
  cases hi : isInvisible c with
  | true => simp [scrub, hi]
  | false =>
    cases hc : isControl c with
    | true =>
      have hspace : encode [' '] = [Ascii.space] := by decide
      simp [scrub, hi, hc, hspace]
    | false => simp [scrub, hi, hc, encode]

theorem scrub_encode (cs : List Char) : Clean.scrub (encode cs) = encode (scrub cs) := by
  rw [Clean.scrub, characters_encode]
  induction cs with
  | nil => rfl
  | cons c cs ih =>
    rw [List.map_cons, List.flatMap_cons, treat_encodeChar, ih, scrub_cons c cs, encode_append]

theorem clean_encode (cs : List Char) : Clean.clean (encode cs) = some (encode (clean cs)) := by
  rw [Clean.clean, if_pos (isValid_encode cs), scrub_encode, truncate_encode, trim_encode, clean]

/-! ### Safe texts -/

/-- No character that cleaning would touch. -/
def IsScrubbed (cs : List Char) : Prop := ∀ c ∈ cs, isInvisible c = false ∧ isControl c = false

theorem isScrubbed_scrub (cs : List Char) : IsScrubbed (scrub cs) := by
  intro d hd
  obtain ⟨c, hc, rfl⟩ := List.mem_map.1 hd
  obtain ⟨-, hc⟩ := List.mem_filter.1 hc
  -- a space in place of a control character is itself neither
  split
  · decide
  · next h => exact ⟨by simpa using hc, by simpa using h⟩

theorem scrub_of_isScrubbed {cs : List Char} (h : IsScrubbed cs) : scrub cs = cs := by
  induction cs with
  | nil => rfl
  | cons c cs ih =>
    obtain ⟨⟨hi, hc⟩, hcs⟩ := List.forall_mem_cons.1 h
    rw [scrub_cons, ih hcs]
    simp [scrub, hi, hc]

theorem isSafe_iff {text : Bytes} :
    IsSafe text ↔ ∃ cs, text = encode cs ∧ cs.length ≤ Clean.maxLength ∧ IsScrubbed cs ∧
      IsTrimmed cs := Iff.rfl

theorem isSafe_encode_clean (cs : List Char) : IsSafe (encode (clean cs)) := by
  have hsub := strip_sublist ((scrub cs).take Clean.maxLength)
  refine isSafe_iff.2 ⟨clean cs, rfl, ?_, ?_, isTrimmed_strip _⟩
  · exact hsub.length_le.trans (List.length_take_le _ _)
  · intro c hc
    exact isScrubbed_scrub cs c (List.mem_of_mem_take (hsub.subset hc))

/-- Cleaning leaves nothing but safe texts. -/
theorem isSafe_of_clean {text out : Bytes} (h : Clean.clean text = some out) : IsSafe out := by
  by_cases hv : isValid text = true
  · obtain ⟨cs, rfl⟩ := exists_encode_of_isValid hv
    rw [clean_encode] at h
    exact Option.some.inj h ▸ isSafe_encode_clean cs
  · rw [Clean.clean, if_neg hv] at h
    cases h

/-- Cleaning leaves a safe text as it is. -/
theorem clean_of_isSafe {text : Bytes} (h : IsSafe text) : Clean.clean text = some text := by
  obtain ⟨cs, rfl, hlen, hscrub, htrim⟩ := isSafe_iff.1 h
  rw [clean_encode, clean, scrub_of_isScrubbed hscrub, List.take_of_length_le hlen,
    strip_of_isTrimmed htrim]

theorem clean_eq_none_iff {text : Bytes} :
    Clean.clean text = none ↔ ∀ cs, encode cs ≠ text := by
  rw [Clean.clean]
  by_cases hv : isValid text = true
  · obtain ⟨cs, hcs⟩ := exists_encode_of_isValid hv
    rw [if_pos hv]
    refine iff_of_false (Option.some_ne_none _) ?_
    intro h
    exact h cs hcs
  · rw [if_neg hv]
    refine iff_of_true rfl ?_
    intro cs hcs
    exact hv (isValid_iff.2 ⟨cs, hcs⟩)

/-- **Cleaning bytes is cleaning characters.**  A text that encodes nothing is refused, and the
clean form of an encoded list is the encoding of the list scrubbed, cut and stripped. -/
theorem clean_eq_encode (text : Bytes) (cs : List Char) :
    (Clean.clean text = none ↔ ∀ ds, encode ds ≠ text) ∧
      Clean.clean (encode cs) = some (encode (strip ((scrub cs).take Clean.maxLength))) :=
  ⟨clean_eq_none_iff, clean_encode cs⟩

/-- **The clean texts are the safe ones**, and cleaning twice is cleaning once. -/
theorem clean_fixed_points :
    (∀ text out, Clean.clean text = some out → IsSafe out) ∧
      (∀ text, Clean.clean text = some text ↔ IsSafe text) ∧
      ∀ cs, ∃ out, Clean.clean (encode cs) = some out ∧ Clean.clean out = some out := by
  refine ⟨?_, ?_, ?_⟩
  · intro text out h
    exact isSafe_of_clean h
  · intro text
    exact ⟨isSafe_of_clean, clean_of_isSafe⟩
  · intro cs
    have hsafe := isSafe_encode_clean cs
    exact ⟨encode (clean cs), clean_encode cs, clean_of_isSafe hsafe⟩

/-- What is left of a mark, a letter, a control character and a carriage return is the letter. -/
theorem clean_fixed_points_letter :
    Clean.clean (Bytes.ofString "\u202Ea\x07\r") = some (Bytes.ofString "a") ∧
      IsSafe (Bytes.ofString "a") := by
  have h : Clean.clean (Bytes.ofString "\u202Ea\x07\r") = some (Bytes.ofString "a") := by decide
  exact ⟨h, clean_fixed_points.1 _ _ h⟩

end Scalars

end PlaceFeed
