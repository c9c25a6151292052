import PlaceFeed.Proofs.Encoding

/-!
# Cutting a text to a number of characters

`Utf8.truncate` counts the bytes that are no continuation bytes and decodes nothing, so it is
defined on ill-formed texts too.  Among the prefixes of a text, those with at most `n` characters
are the prefixes of `truncate n text` (`Utf8.prefix_truncate_iff`).  The other laws follow from this
one: what is kept is the longest part that may be kept, and cutting twice is cutting to the lesser
number (`Utf8.truncate_truncate`).

* `Utf8.truncate_exact` : **what is kept is the longest admissible prefix**, and of an encoded list
  it is the encoding of the first `n` characters, with the encoding of the others behind it.
-/

namespace PlaceFeed

namespace Utf8

/-! ### One byte -/

theorem truncate_cons_of_continuation (n : Nat) {b : UInt8} (hb : isContinuation b = true)
    (s : Bytes) : truncate n (b :: s) = b :: truncate n s :=
  truncate_append_of_continuation n (List.forall_mem_singleton.2 hb) s

theorem truncate_zero_cons_of_first {b : UInt8} (hb : isContinuation b = false) (s : Bytes) :
    truncate 0 (b :: s) = [] := by
  rw [truncate_zero_cons, hb]
  rfl

theorem truncate_succ_cons_of_first (n : Nat) {b : UInt8} (hb : isContinuation b = false)
    (s : Bytes) : truncate (n + 1) (b :: s) = b :: truncate n s := by
  rw [truncate_succ_cons, hb]
  rfl

theorem length_cons_of_continuation {b : UInt8} (hb : isContinuation b = true) (s : Bytes) :
    length (b :: s) = length s := by
  rw [length, List.countP_cons_of_neg (by simp [hb]), length]

theorem length_cons_of_first {b : UInt8} (hb : isContinuation b = false) (s : Bytes) :
    length (b :: s) = length s + 1 := by
  rw [length, List.countP_cons_of_pos (by simp [hb]), length]

/-! ### The longest admissible prefix -/

/-- There are `n` characters in what is kept, or all of them if there are fewer. -/
theorem length_truncate (n : Nat) (text : Bytes) :
    length (truncate n text) = min n (length text) := by
  induction text generalizing n with
  | nil => simp [length]
  | cons b s ih =>
    cases hb : isContinuation b with
    | true =>
      rw [truncate_cons_of_continuation n hb, length_cons_of_continuation hb,
        length_cons_of_continuation hb, ih]
    | false =>
      rw [length_cons_of_first hb]
      cases n with
      | zero => rw [truncate_zero_cons_of_first hb, Nat.zero_min]; rfl
      | succ n =>
        rw [truncate_succ_cons_of_first n hb, length_cons_of_first hb, ih,
          Nat.add_min_add_right]

theorem truncate_isPrefix (n : Nat) (text : Bytes) : truncate n text <+: text := by
  induction text generalizing n with
  | nil => simp
  | cons b s ih =>
    cases hb : isContinuation b with
    | true =>
      rw [truncate_cons_of_continuation n hb]
      exact List.cons_prefix_cons.2 ⟨rfl, ih n⟩
    | false =>
      cases n with
      | zero => rw [truncate_zero_cons_of_first hb]; exact List.nil_prefix
      | succ n =>
        rw [truncate_succ_cons_of_first n hb]
        exact List.cons_prefix_cons.2 ⟨rfl, ih n⟩

/-- A prefix with no more characters than may be kept is kept. -/
theorem prefix_truncate_of_length_le {n : Nat} {p text : Bytes} (hp : p <+: text)
    (h : length p ≤ n) : p <+: truncate n text := by
  induction text generalizing n p with
  | nil => rw [List.prefix_nil.1 hp]; exact List.nil_prefix
  | cons b s ih =>
    cases p with
    | nil => exact List.nil_prefix
    | cons c p =>
      obtain ⟨rfl, htail⟩ := List.cons_prefix_cons.1 hp
      cases hc : isContinuation c with
      | true =>
        rw [length_cons_of_continuation hc] at h
        rw [truncate_cons_of_continuation n hc]
        exact List.cons_prefix_cons.2 ⟨rfl, ih htail h⟩
      | false =>
        rw [length_cons_of_first hc] at h
        obtain ⟨n, rfl⟩ := Nat.exists_eq_add_of_le' (Nat.le_of_add_left_le h)
        rw [truncate_succ_cons_of_first n hc]
        exact List.cons_prefix_cons.2 ⟨rfl, ih htail (Nat.le_of_add_le_add_right h)⟩

/-- **The prefixes with at most `n` characters** are the prefixes of what is kept. -/
theorem prefix_truncate_iff {n : Nat} {p text : Bytes} :
    p <+: truncate n text ↔ p <+: text ∧ length p ≤ n := by
  constructor
  · intro hp
    refine ⟨hp.trans (truncate_isPrefix n text), ?_⟩
    calc
      length p ≤ length (truncate n text) := hp.sublist.countP_le
      _ = min n (length text) := length_truncate n text
      _ ≤ n := Nat.min_le_left _ _
  · rintro ⟨hp, h⟩
    exact prefix_truncate_of_length_le hp h

/-- A longer prefix than the one that is kept has too many characters. -/
theorem lt_length_of_isPrefix {n : Nat} {p text : Bytes} (hp : p <+: text)
    (h : (truncate n text).length < p.length) : n < length p := by
  by_contra hle
  have := (prefix_truncate_of_length_le hp (Nat.le_of_not_lt hle)).length_le
  omega

/-- Cutting twice is cutting to the lesser number. -/
theorem truncate_truncate (m n : Nat) (text : Bytes) :
    truncate n (truncate m text) = truncate (min m n) text := by
  -- both have the same prefixes
  have hiff : ∀ p, p <+: truncate n (truncate m text) ↔ p <+: truncate (min m n) text := by
    intro p
    rw [prefix_truncate_iff, prefix_truncate_iff, prefix_truncate_iff, and_assoc, Nat.le_min]
  exact ((hiff _).1 List.prefix_rfl).eq_of_length_le ((hiff _).2 List.prefix_rfl).length_le

end Utf8

/-! ### Encoded lists -/

namespace Scalars

open Utf8

theorem length_encode (cs : List Char) : length (encode cs) = cs.length := by
  induction cs with
  | nil => rfl
  | cons c cs ih =>
    obtain ⟨a, s, hc⟩ := List.exists_cons_of_ne_nil (form_encodeChar c).ne_nil
    have hform : Form (a :: s) := hc ▸ form_encodeChar c
    have hs : length s = 0 := by
      rw [length, List.countP_eq_zero]
      intro b hb
      simp [hform.isContinuation_tail b hb]
    have hone : length (a :: s) = 1 := by rw [length_cons_of_first hform.isContinuation_head, hs]
    calc
      length (encode (c :: cs)) = length ((a :: s) ++ encode cs) := by rw [← hc]; rfl
      _ = length (a :: s) + length (encode cs) := List.countP_append
      _ = (c :: cs).length := by rw [hone, ih, List.length_cons, Nat.add_comm]

/-- What is cut off an encoded list is the encoding of the other characters. -/
theorem drop_truncate_encode (n : Nat) (cs : List Char) :
    (encode cs).drop (truncate n (encode cs)).length = encode (cs.drop n) := by
  have hsplit : encode cs = encode (cs.take n) ++ encode (cs.drop n) := by
    rw [← encode_append, List.take_append_drop]
  rw [truncate_encode, hsplit, List.drop_left]

end Scalars

namespace Utf8

open Scalars (encode)

/-- **What is kept is the longest admissible prefix.**  It has `n` characters, or all that there
are, and every longer prefix has more than `n`; a prefix is part of it exactly when it has at most
`n`.  Cutting twice is cutting to the lesser number.  Of an encoded list the count is the number of
its characters, the first `n` of them are kept, and both parts are well-formed. -/
theorem truncate_exact :
    (∀ n text,
      (truncate n text <+: text ∧ length (truncate n text) = min n (length text)) ∧
      (∀ p, p <+: text → (truncate n text).length < p.length → n < length p) ∧
      ∀ p, p <+: truncate n text ↔ p <+: text ∧ length p ≤ n) ∧
    (∀ m n text, truncate n (truncate m text) = truncate (min m n) text) ∧
    ∀ n (cs : List Char),
      let rest := (encode cs).drop (truncate n (encode cs)).length
      length (encode cs) = cs.length ∧ truncate n (encode cs) = encode (cs.take n) ∧
        rest = encode (cs.drop n) ∧ truncate n (encode cs) ++ rest = encode cs ∧
        isValid (truncate n (encode cs)) = true ∧ isValid rest = true := by
  refine ⟨?_, truncate_truncate, ?_⟩
  · intro n text
    exact ⟨⟨truncate_isPrefix n text, length_truncate n text⟩,
      fun p hp h => lt_length_of_isPrefix hp h, fun p => prefix_truncate_iff⟩
  · intro n cs rest
    have hkept : truncate n (encode cs) = encode (cs.take n) := Scalars.truncate_encode n cs
    have hrest : rest = encode (cs.drop n) := Scalars.drop_truncate_encode n cs
    refine ⟨Scalars.length_encode cs, hkept, hrest, ?_, ?_, ?_⟩
    · rw [hkept, hrest, ← Scalars.encode_append, List.take_append_drop]
    · rw [hkept]
      exact Scalars.isValid_encode _
    · rw [hrest]
      exact Scalars.isValid_encode _

/-- A stray continuation byte before two characters stays in front of them, and the next byte
would start a third. -/
theorem truncate_exact_stray :
    let text : Bytes := [0x80, 0x61, 0xC3, 0xA9, 0x62]
    truncate 2 text = [0x80, 0x61, 0xC3, 0xA9] ∧ text <+: text ∧
      (truncate 2 text).length < text.length ∧ 2 < length text := by
  intro text
  have hlonger : (truncate 2 text).length < text.length := by decide
  exact ⟨by decide, List.prefix_rfl, hlonger,
    (truncate_exact.1 2 text).2.1 text List.prefix_rfl hlonger⟩

end Utf8

end PlaceFeed
