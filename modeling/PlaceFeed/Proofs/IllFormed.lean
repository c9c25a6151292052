import PlaceFeed.Proofs.Encoding
import Mathlib.Data.List.TakeWhile

/-!
# Ill-formed texts

`Scalars.isValid_iff` says what a well-formed text is: the encoding of some scalar values.  This
file says what is wrong with any other.  `Utf8.Fault` lists what RFC 3629 forbids, each with the
place where it stands, and nothing is asked of the bytes before and after it.

* `Utf8.not_isValid_of_fault` : a fault spoils the text **wherever it occurs**.  The reason is
  `Utf8.isValid_of_append`: a byte that continues no character starts one, so that what comes before
  it cannot change how it is read;
* `Utf8.exists_fault` : a text without a fault is well-formed;
* `Utf8.isValid_exact` : **the test accepts exactly the encodings**, each of one list of scalar
  values, and refuses exactly the texts with a fault.
-/

namespace PlaceFeed

namespace Utf8

/-! ### Faults -/

/-- Bytes that look like one character: a first byte that announces more than itself, and as many
continuation bytes as it announces.  The code is not looked at. -/
inductive IsPattern : Bytes → Prop
  | intro {a : UInt8} {s : Bytes} (ha : 2 ≤ charLength a) (hlength : charLength a = s.length + 1)
    (hs : ∀ b ∈ s, isContinuation b = true) : IsPattern (a :: s)

/-- The least code that needs this number of bytes. -/
def leastCode : (length : Nat) → Nat
  | 2 => 0x80
  | 3 => 0x800
  | 4 => 0x10000
  | _ => 0

/-- What no well-formed text has: a fault at the start of `rest`, after the bytes `before`. -/
inductive Fault : (before rest : Bytes) → Prop
  /-- A continuation byte at the start of the text. -/
  | strayFirst {b : UInt8} {rest : Bytes} (hb : isContinuation b = true) : Fault [] (b :: rest)
  /-- A continuation byte after a whole character. -/
  | stray {before p : Bytes} {b : UInt8} {rest : Bytes} (hp : Form p)
    (hb : isContinuation b = true) : Fault (before ++ p) (b :: rest)
  /-- A byte that is in no encoding. -/
  | lead {before : Bytes} {a : UInt8} {rest : Bytes} (ha : a = 0xC0 ∨ a = 0xC1 ∨ 0xF5 ≤ a) :
    Fault before (a :: rest)
  /-- A first byte with fewer continuation bytes than it announces, up to the end of the text or to
  a byte that is none. -/
  | truncated {before : Bytes} {a : UInt8} {s rest : Bytes} (hs : ∀ b ∈ s, isContinuation b = true)
    (hshort : s.length + 1 < charLength a) (hrest : ∀ b ∈ rest.head?, isContinuation b = false) :
    Fault before (a :: (s ++ rest))
  /-- A code in more bytes than it needs. -/
  | overlong {before p rest : Bytes} (hp : IsPattern p) (hcode : code p < leastCode p.length) :
    Fault before (p ++ rest)
  /-- The code of a surrogate. -/
  | surrogate {before p rest : Bytes} (hp : IsPattern p)
    (hcode : 0xD800 ≤ code p ∧ code p ≤ 0xDFFF) : Fault before (p ++ rest)
  /-- A code above the last scalar value. -/
  | tooGreat {before p rest : Bytes} (hp : IsPattern p) (hcode : 0x10FFFF < code p) :
    Fault before (p ++ rest)

/-! ### First bytes -/

theorem charLength_cases (a : UInt8) :
    (a.toNat < 0xC0 ∧ charLength a = 1) ∨ (0xC0 ≤ a.toNat ∧ a.toNat < 0xE0 ∧ charLength a = 2) ∨
      (0xE0 ≤ a.toNat ∧ a.toNat < 0xF0 ∧ charLength a = 3) ∨
      (0xF0 ≤ a.toNat ∧ a.toNat < 0xF8 ∧ charLength a = 4) ∨
      (0xF8 ≤ a.toNat ∧ charLength a = 1) := by
  simp only [charLength, UInt8.le_iff_toNat_le, UInt8.lt_iff_toNat_lt, UInt8.reduceToNat]
  split_ifs <;> omega

theorem isContinuation_of_two_le {a : UInt8} (h : 2 ≤ charLength a) : isContinuation a = false := by
  rw [Bool.eq_false_iff, Ne, isContinuation_iff]
  have := charLength_cases a
  omega

/-! ### Boundaries -/

theorem isValid_append_of_form {p : Bytes} (hp : Form p) (text : Bytes) :
    isValid (p ++ text) = isValid text := by
  rw [isValid, characters_append_of_form hp, List.all_cons, isCharacter_iff.2 hp, Bool.true_and,
    isValid]

theorem isValid_of_form {p : Bytes} (hp : Form p) : isValid p = true := by
  rw [isValid, characters_of_form hp, List.all_cons, isCharacter_iff.2 hp]
  rfl

/-- What comes after a well-formed text is read as if it stood alone. -/
theorem characters_append_of_isValid {p : Bytes} (hp : isValid p = true) (text : Bytes) :
    characters (p ++ text) = characters p ++ characters text := by
  obtain ⟨cs, rfl⟩ := Scalars.isValid_iff.1 hp
  clear hp
  induction cs with
  | nil => rfl
  | cons c cs ih =>
    have hcons : Scalars.encode (c :: cs) = String.utf8EncodeChar c ++ Scalars.encode cs := rfl
    have hc := form_encodeChar c
    rw [hcons, List.append_assoc, characters_append_of_form hc, ih, characters_append_of_form hc,
      List.cons_append]

theorem isValid_append_of_isValid {p : Bytes} (hp : isValid p = true) (text : Bytes) :
    isValid (p ++ text) = isValid text := by
  rw [isValid, characters_append_of_isValid hp, List.all_append, ← isValid, hp, Bool.true_and,
    isValid]

/-- A well-formed text that is not empty is a character and a well-formed text. -/
theorem exists_form_of_isValid {a : UInt8} {text : Bytes} (h : isValid (a :: text) = true) :
    ∃ s rest, text = s ++ rest ∧ Form (a :: s) ∧ isValid rest = true := by
  rw [isValid, characters_cons, List.all_cons, Bool.and_eq_true] at h
  exact ⟨_, _, (List.take_append_drop _ text).symm, isCharacter_iff.1 h.1, h.2⟩

theorem isContinuation_of_isValid {a : UInt8} {text : Bytes} (h : isValid (a :: text) = true) :
    isContinuation a = false := by
  obtain ⟨s, rest, -, hform, -⟩ := exists_form_of_isValid h
  exact hform.isContinuation_head

/-- In a well-formed text, a byte that continues no character starts one: the text is well-formed
from there on, and up to there. -/
theorem isValid_of_append {before : Bytes} {a : UInt8} {text : Bytes}
    (h : isValid (before ++ a :: text) = true) (ha : isContinuation a = false) :
    isValid before = true ∧ isValid (a :: text) = true := by
  -- by induction on the length of the text before, taking off its first character
  induction hn : before.length using Nat.strong_induction_on generalizing before with
  | _ n ih =>
    cases before with
    | nil => exact ⟨rfl, h⟩
    | cons c before =>
      obtain ⟨s, rest, hsplit, hform, hrest⟩ := exists_form_of_isValid h
      rcases List.append_eq_append_iff.1 hsplit with ⟨u, rfl, hu⟩ | ⟨u, rfl, rfl⟩
      · cases u with
        | nil =>
          rw [List.append_nil] at hform
          refine ⟨?_, by rwa [hu]⟩
          exact isValid_of_form hform
        | cons b u =>
          -- the byte would be inside the first character
          obtain ⟨rfl, -⟩ := List.cons.inj hu
          rw [hform.isContinuation_tail a (by simp)] at ha
          cases ha
      · have hlt : u.length < n := by
          rw [← hn, List.length_cons, List.length_append]
          omega
        obtain ⟨hu, htext⟩ := ih u.length hlt hrest rfl
        refine ⟨?_, htext⟩
        rw [← List.cons_append, isValid_append_of_form hform, hu]

/-! ### A fault spoils the text -/

theorem IsPattern.form_of_isValid {p before rest : Bytes} (hp : IsPattern p)
    (h : isValid (before ++ (p ++ rest)) = true) : Form p := by
  obtain @⟨a, s, ha, hlength, hs⟩ := hp
  rw [List.cons_append] at h
  have hlead := (isValid_of_append h (isContinuation_of_two_le ha)).2
  rw [isValid, characters_cons, List.all_cons, Bool.and_eq_true] at hlead
  have hform := isCharacter_iff.1 hlead.1
  rwa [hlength, Nat.add_sub_cancel, List.take_left] at hform

theorem Form.leastCode_le {p : Bytes} (h : Form p) : leastCode p.length ≤ code p := by
  cases h with
  | one ha => exact Nat.zero_le _
  | two ha hb => simp only [leastCode, code, List.length]; omega
  | three ha hb hc hcode hs => exact hcode
  | four ha hb hc hd hcode => exact hcode.1

theorem not_isValid_of_fault {before rest : Bytes} (h : Fault before rest) :
    isValid (before ++ rest) = false := by
  rw [Bool.eq_false_iff]
  intro hvalid
  cases h with
  | strayFirst hb =>
    have := isContinuation_of_isValid hvalid
    rw [hb] at this
    cases this
  | @stray before p b rest hp hb =>
    obtain ⟨a, s, rfl⟩ := List.exists_cons_of_ne_nil hp.ne_nil
    rw [List.append_assoc, List.cons_append] at hvalid
    have hrest := (isValid_of_append hvalid hp.isContinuation_head).2
    rw [← List.cons_append, isValid_append_of_form hp] at hrest
    have := isContinuation_of_isValid hrest
    rw [hb] at this
    cases this
  | @lead before a rest ha =>
    have ha : a.toNat = 0xC0 ∨ a.toNat = 0xC1 ∨ 0xF5 ≤ a.toNat := by
      simpa [← UInt8.toNat_inj, UInt8.le_iff_toNat_le] using ha
    have hcont : isContinuation a = false := by
      rw [Bool.eq_false_iff, Ne, isContinuation_iff]
      omega
    obtain ⟨s, _, -, hform, -⟩ := exists_form_of_isValid (isValid_of_append hvalid hcont).2
    cases hform <;> omega
  | @truncated before a s rest hs hshort hrest =>
    have hcont := isContinuation_of_two_le (Nat.lt_of_le_of_lt (Nat.le_add_left 1 s.length) hshort)
    obtain ⟨t, u, hsplit, hform, -⟩ := exists_form_of_isValid (isValid_of_append hvalid hcont).2
    have hlength := hform.charLength_eq
    -- the character reaches beyond the continuation bytes
    rcases List.append_eq_append_iff.1 hsplit with ⟨v, rfl, hv⟩ | ⟨v, rfl, -⟩
    · cases v with
      | nil => rw [List.append_nil] at hlength; omega
      | cons b v =>
        have hb := hrest b (by rw [hv]; rfl)
        rw [hform.isContinuation_tail b (by simp)] at hb
        cases hb
    · rw [List.length_append] at hshort
      omega
  | overlong hp hcode =>
    have := (hp.form_of_isValid hvalid).leastCode_le
    omega
  | surrogate hp hcode =>
    have := (hp.form_of_isValid hvalid).isValidChar
    unfold Nat.isValidChar at this
    omega
  | tooGreat hp hcode =>
    have := (hp.form_of_isValid hvalid).isValidChar
    unfold Nat.isValidChar at this
    omega

/-! ### A text without a fault -/

/-- A pattern is a character when nothing is wrong with its first byte and with its code. -/
theorem IsPattern.form {a : UInt8} {s : Bytes} (hp : IsPattern (a :: s))
    (hlead : ¬(a = 0xC0 ∨ a = 0xC1 ∨ 0xF5 ≤ a))
    (hleast : leastCode (a :: s).length ≤ code (a :: s))
    (hsurrogate : ¬(0xD800 ≤ code (a :: s) ∧ code (a :: s) ≤ 0xDFFF))
    (hgreat : code (a :: s) ≤ 0x10FFFF) : Form (a :: s) := by
  obtain ⟨ha, hlength, hs⟩ := hp
  simp only [← UInt8.toNat_inj, UInt8.le_iff_toNat_le, UInt8.reduceToNat] at hlead
  have hcases := charLength_cases a
  match s with
  | [] => rw [hlength] at ha; simp at ha
  | [b] =>
    simp only [List.length] at hlength
    exact .two (by omega) (hs b (by simp))
  | [b, c] =>
    simp only [List.length] at hlength
    exact .three (by omega) (hs b (by simp)) (hs c (by simp)) hleast hsurrogate
  | [b, c, d] =>
    simp only [List.length] at hlength
    exact .four (by omega) (hs b (by simp)) (hs c (by simp)) (hs d (by simp)) ⟨hleast, hgreat⟩
  | _ :: _ :: _ :: _ :: _ =>
    simp only [List.length] at hlength
    omega

/-- A pattern is a character, or something is wrong with its first byte or with its code. -/
theorem IsPattern.form_or_fault {a : UInt8} {s : Bytes} (hp : IsPattern (a :: s))
    (before rest : Bytes) : Form (a :: s) ∨ Fault before (a :: (s ++ rest)) := by
  rw [← List.cons_append]
  by_cases hlead : a = 0xC0 ∨ a = 0xC1 ∨ 0xF5 ≤ a
  · exact .inr (.lead hlead)
  by_cases hleast : code (a :: s) < leastCode (a :: s).length
  · exact .inr (.overlong hp hleast)
  by_cases hsurrogate : 0xD800 ≤ code (a :: s) ∧ code (a :: s) ≤ 0xDFFF
  · exact .inr (.surrogate hp hsurrogate)
  by_cases hgreat : 0x10FFFF < code (a :: s)
  · exact .inr (.tooGreat hp hgreat)
  exact .inl (hp.form hlead (Nat.le_of_not_lt hleast) hsurrogate (Nat.le_of_not_lt hgreat))

/-- Where no character is begun, a byte that is no continuation starts a character, or there is a
fault. -/
theorem form_or_fault {a : UInt8} (ha : isContinuation a = false) (before text : Bytes) :
    (∃ s rest, text = s ++ rest ∧ Form (a :: s)) ∨ Fault before (a :: text) := by
  by_cases hone : a.toNat < 0x80
  · exact .inl ⟨[], text, rfl, .one hone⟩
  by_cases hlead : a = 0xC0 ∨ a = 0xC1 ∨ 0xF5 ≤ a
  · exact .inr (.lead hlead)
  have hmany : 2 ≤ charLength a := by
    rw [Bool.eq_false_iff, Ne, isContinuation_iff] at ha
    simp only [← UInt8.toNat_inj, UInt8.le_iff_toNat_le, UInt8.reduceToNat] at hlead
    have := charLength_cases a
    omega
  have hsplit := List.takeWhile_append_dropWhile (p := isContinuation) (l := text)
  by_cases hshort : (text.takeWhile isContinuation).length + 1 < charLength a
  · right
    rw [← hsplit]
    refine .truncated (fun b hb => List.mem_takeWhile_imp hb) hshort ?_
    intro b hb
    have := List.head?_dropWhile_not isContinuation text
    rw [Option.mem_def.1 hb] at this
    exact this
  · -- there are as many continuation bytes as announced, and perhaps more
    set n := charLength a - 1
    have htake : text.take n <+: text.takeWhile isContinuation :=
      List.prefix_of_prefix_length_le (List.take_prefix n text) (List.takeWhile_prefix _)
        ((List.length_take_le n text).trans (by omega))
    have hlen : (text.take n).length = n := by
      have := (List.takeWhile_prefix (p := isContinuation) (l := text)).length_le
      rw [List.length_take]
      omega
    have hpattern : IsPattern (a :: text.take n) := by
      refine .intro hmany (by omega) ?_
      intro b hb
      exact List.mem_takeWhile_imp (htake.subset hb)
    rcases hpattern.form_or_fault before (text.drop n) with h | h
    · exact .inl ⟨_, _, (List.take_append_drop n text).symm, h⟩
    · rw [List.take_append_drop] at h
      exact .inr h

theorem exists_fault_of_not_isValid {before text : Bytes}
    (hbefore : before = [] ∨ ∃ u p, Form p ∧ before = u ++ p) (h : isValid text = false) :
    ∃ u rest, u ++ rest = before ++ text ∧ Fault u rest := by
  -- by induction on the length of the text, moving its first character to what is before it
  induction hn : text.length using Nat.strong_induction_on generalizing before text with
  | _ n ih =>
    cases text with
    | nil => cases h
    | cons a text =>
      cases ha : isContinuation a with
      | true =>
        refine ⟨before, a :: text, rfl, ?_⟩
        rcases hbefore with rfl | ⟨u, p, hp, rfl⟩
        · exact .strayFirst ha
        · exact .stray hp ha
      | false =>
        rcases form_or_fault ha before text with ⟨s, rest, rfl, hform⟩ | hfault
        · rw [← List.cons_append, isValid_append_of_form hform] at h
          have hlt : rest.length < n := by
            rw [← hn, List.length_cons, List.length_append]
            omega
          have hbefore : before ++ a :: s = [] ∨ ∃ u p, Form p ∧ before ++ a :: s = u ++ p :=
            .inr ⟨before, a :: s, hform, rfl⟩
          obtain ⟨u, v, huv, hfault⟩ := ih rest.length hlt hbefore h rfl
          exact ⟨u, v, by rw [huv, List.append_assoc, List.cons_append], hfault⟩
        · exact ⟨before, a :: text, rfl, hfault⟩

/-- A text that is not well-formed has a fault. -/
theorem exists_fault {text : Bytes} (h : isValid text = false) :
    ∃ before rest, before ++ rest = text ∧ Fault before rest :=
  exists_fault_of_not_isValid (.inl rfl) h

/-- **The test accepts exactly the encodings.**  A text is accepted when it encodes scalar values,
and then it encodes one list of them; it is refused when something stands in it that RFC 3629
forbids, wherever that is. -/
theorem isValid_exact (text : Bytes) :
    (isValid text = true ↔ ∃ cs : List Char, Scalars.encode cs = text) ∧
      (isValid text = true ↔ ∃! cs : List Char, Scalars.encode cs = text) ∧
      (isValid text = false ↔ ∃ before rest, before ++ rest = text ∧ Fault before rest) := by
  refine ⟨Scalars.isValid_iff, ?_, ?_⟩
  · rw [Scalars.isValid_iff]
    refine ⟨?_, ExistsUnique.exists⟩
    rintro ⟨cs, rfl⟩
    refine ⟨cs, rfl, ?_⟩
    intro ds h
    exact Scalars.encode_injective h
  · refine ⟨exists_fault, ?_⟩
    rintro ⟨before, rest, rfl, h⟩
    exact not_isValid_of_fault h

end Utf8

end PlaceFeed
