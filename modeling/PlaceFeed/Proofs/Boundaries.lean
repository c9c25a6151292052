import PlaceFeed.Proofs.Cleaning
import PlaceFeed.Proofs.Slices

/-!
# Character boundaries

Scrubbing takes whole characters from a text and does not test for each of them that its bytes are
there: the text was tested before.  By positions that is a loop invariant (`Clean.IsBetween`).  The
scrubbing stands between two characters, the test stood there before it, and what the first byte
announces is what the test has found.

* `Clean.scrubbing` : the scrubbing as a loop over positions;
* `Clean.IsBetween.takes` : **a turn takes one whole character**, the one that the test went over;
* `Clean.reads_in_range` : **no byte is read outside of a text**, in testing and trimming any bytes
  and in scrubbing a well-formed text.
-/

namespace PlaceFeed

namespace Utf8

/-- The test goes over a character wherever it stands. -/
theorem test_append_of_form (before : Bytes) {p : Bytes} (h : Form p) (after : Bytes) :
    test (before ++ (p ++ after)) before.length = some (.next (before.length + p.length)) := by
  obtain ⟨a, s, rfl⟩ := List.exists_cons_of_ne_nil h.ne_nil
  have hturn := test_cons before a (s ++ after)
  rw [h.charLength_eq, Nat.add_sub_cancel, List.take_left, isCharacter_iff.2 h] at hturn
  exact hturn

end Utf8

namespace Clean

open Utf8
open Bytes (readFrom readFrom_append getElem?_append_length)

/-! ### Scrubbing by positions -/

/-- A position in a text, and what is left so far of the text before it. -/
structure Progress where
  position : Nat
  out : Bytes

/-- At the position starts a dropped character of this length with this first byte. -/
def isDroppedAt (text : Bytes) (i : Nat) (lead : UInt8) (n : Nat) : Option Bool := do
  if (← text[i]?) = lead ∧ i + n ≤ text.length then
    return isDropped (← readFrom text i n)
  return false

/-- A turn of the scrubbing.  That the bytes of a character which stays are there is not tested. -/
def scrubbing (text : Bytes) : Loop Progress Progress := fun s => do
  if text.length ≤ s.position then return .done s
  let a ← text[s.position]?
  if a = Ascii.carriageReturn then return .next ⟨s.position + 1, s.out⟩
  if isControl [a] then return .next ⟨s.position + 1, s.out ++ [Ascii.space]⟩
  if ← isDroppedAt text s.position 0xE2 3 then return .next ⟨s.position + 3, s.out⟩
  if ← isDroppedAt text s.position 0xCC 2 then return .next ⟨s.position + 2, s.out⟩
  let n := charLength a
  return .next ⟨s.position + n, s.out ++ (← readFrom text s.position n)⟩

variable {a : UInt8} {s : Bytes}

theorem isDroppedAt_append (before : Bytes) (h : Form (a :: s)) (lead : UInt8) (after : Bytes) :
    isDroppedAt (before ++ (a :: s ++ after)) before.length lead (charLength lead) =
      some (a == lead && isDropped (a :: s)) := by
  have hread := readFrom_append before (a :: s) after
  rw [isDroppedAt, List.cons_append, getElem?_append_length, Option.bind_eq_bind, Option.bind_some]
  by_cases ha : a = lead
  · subst ha
    have henough : before.length + charLength a ≤ (before ++ a :: (s ++ after)).length := by
      rw [h.charLength_eq]
      simp
    rw [List.cons_append, List.length_cons, ← h.charLength_eq] at hread
    rw [if_pos ⟨rfl, henough⟩, hread, beq_self_eq_true, Bool.true_and]
    rfl
  · rw [if_neg (fun h => ha h.1), beq_false_of_ne ha, Bool.false_and]
    rfl

/-- What is dropped shows in the first byte. -/
theorem lead_of_isDropped (h : isDropped (a :: s) = true) :
    a = Ascii.carriageReturn ∨ a = 0xE2 ∨ a = 0xCC := by
  unfold isDropped at h
  split at h
  · next heq => cases heq; exact .inl (beq_iff_eq.1 h)
  · next heq => cases heq; exact .inr (.inr rfl)
  · next heq => cases heq; exact .inr (.inl rfl)
  · cases h

/-- A control character shows in the first byte too. -/
theorem isControl_lead (h : Form (a :: s)) : isControl (a :: s) = isControl [a] := by
  cases s with
  | nil => rfl
  | cons b s =>
    have hlead : 0x80 ≤ a.toNat := by cases h <;> omega
    have hnone : isControl [a] = false := by
      simp only [isControl, Bool.or_eq_false_iff, Bool.and_eq_false_iff, beq_eq_false_iff_ne, ne_eq,
        decide_eq_false_iff_not, UInt8.le_iff_toNat_le, ← UInt8.toNat_inj, UInt8.reduceToNat]
      omega
    rw [hnone]
    rfl

/-- **A turn of the scrubbing** where a character starts: it treats that character. -/
theorem scrubbing_append (before out : Bytes) {p : Bytes} (h : Form p) (after : Bytes) :
    scrubbing (before ++ (p ++ after)) ⟨before.length, out⟩ =
      some (.next ⟨before.length + p.length, out ++ treat p⟩) := by
  obtain ⟨a, s, rfl⟩ := List.exists_cons_of_ne_nil h.ne_nil
  have hstart : ¬(before ++ (a :: s ++ after)).length ≤ before.length := by simp
  have hlead : (before ++ (a :: s ++ after))[before.length]? = some a :=
    getElem?_append_length before a (s ++ after)
  have hlength := h.charLength_eq
  have hthree : isDroppedAt (before ++ (a :: s ++ after)) before.length 0xE2 3 =
    some (a == 0xE2 && isDropped (a :: s)) := isDroppedAt_append before h 0xE2 after
  have htwo : isDroppedAt (before ++ (a :: s ++ after)) before.length 0xCC 2 =
    some (a == 0xCC && isDropped (a :: s)) := isDroppedAt_append before h 0xCC after
  have hread := readFrom_append before (a :: s) after
  rw [List.length_cons, ← hlength] at hread
  simp only [scrubbing, hstart, hlead, hthree, htwo, hread, ↓reduceIte, Option.bind_eq_bind,
    Option.bind_some, List.length_cons, treat, isControl_lead h]
  -- in every case the first byte decides the length, and with it whether a turn treats the whole
  by_cases hreturn : a = Ascii.carriageReturn
  · subst hreturn
    have hsize : s.length + 1 = 1 := hlength.symm
    cases List.length_eq_zero_iff.1 (Nat.succ.inj hsize)
    simp [isDropped]
  rw [if_neg hreturn]
  cases hdropped : isDropped (a :: s) with
  | true =>
    obtain rfl | rfl := (lead_of_isDropped hdropped).resolve_left hreturn
    · have hsize : s.length + 1 = 3 := hlength.symm
      rw [hsize]
      simp [isControl]
    · have hsize : s.length + 1 = 2 := hlength.symm
      rw [hsize]
      simp [isControl]
  | false =>
    cases hcontrol : isControl [a] with
    | true =>
      rw [← isControl_lead h] at hcontrol
      cases s with
      | nil => simp
      | cons b s => cases hcontrol
    | false =>
      rw [hlength]
      simp

/-! ### Between two characters -/

theorem scrub_append_of_form {before p : Bytes} (hbefore : isValid before = true) (h : Form p) :
    scrub (before ++ p) = scrub before ++ treat p := by
  rw [scrub, characters_append_of_isValid hbefore, characters_of_form h, List.flatMap_append,
    List.flatMap_singleton, scrub]

/-- The loop stands between two characters: what is before the position is well-formed and treated,
and the test of the text came by. -/
structure IsBetween (text before after : Bytes) (s : Progress) : Prop where
  text_eq : text = before ++ after
  isValid_before : isValid before = true
  isValid_after : isValid after = true
  progress_eq : s = ⟨before.length, scrub before⟩
  visits : (test text).Visits 0 before.length

/-- A turn takes one character: all of its bytes are in the text, the test goes over the same ones,
and the output has what treating the character leaves. -/
structure TakesCharacter (text : Bytes) (s : Progress) (p : Bytes) : Prop where
  isCharacter : isCharacter p = true
  announced : ∃ a, text[s.position]? = some a ∧ s.position + charLength a ≤ text.length ∧
    charLength a = p.length
  tested : test text s.position = some (.next (s.position + p.length))
  turn : scrubbing text s = some (.next ⟨s.position + p.length, s.out ++ treat p⟩)

variable {text before p rest after : Bytes} {t : Progress}

theorem isBetween_start (h : isValid text = true) : IsBetween text [] text ⟨0, []⟩ where
  text_eq := rfl
  isValid_before := rfl
  isValid_after := h
  progress_eq := rfl
  visits := .refl

namespace IsBetween

theorem takes (h : IsBetween text before (p ++ rest) t) (hp : Form p) :
    TakesCharacter text t p := by
  obtain ⟨rfl, -, -, rfl, -⟩ := h
  obtain ⟨a, s, rfl⟩ := List.exists_cons_of_ne_nil hp.ne_nil
  refine ⟨isCharacter_iff.2 hp, ⟨a, ?_, ?_, hp.charLength_eq⟩, ?_, ?_⟩
  · exact getElem?_append_length before a (s ++ rest)
  · rw [hp.charLength_eq]
    simp
  · exact test_append_of_form before hp rest
  · exact scrubbing_append before (scrub before) hp rest

/-- Behind the character the loop stands between two characters again. -/
theorem next (h : IsBetween text before (p ++ rest) t) (hp : Form p) :
    IsBetween text (before ++ p) rest ⟨t.position + p.length, t.out ++ treat p⟩ := by
  have htakes := h.takes hp
  obtain ⟨rfl, hbefore, hafter, rfl, hvisits⟩ := h
  refine ⟨(List.append_assoc before p rest).symm, ?_, ?_, ?_, ?_⟩
  · rw [isValid_append_of_isValid hbefore, isValid_of_form hp]
  · rwa [isValid_append_of_form hp] at hafter
  · rw [List.length_append, scrub_append_of_form hbefore hp]
  · rw [List.length_append]
    exact hvisits.tail htakes.tested

theorem done (h : IsBetween text before [] t) : scrubbing text t = some (.done t) := by
  obtain ⟨rfl, -, -, rfl, -⟩ := h
  simp [scrubbing]

/-- At a boundary the loop is over, or a whole character is ahead. -/
theorem after_cases (h : IsBetween text before after t) :
    after = [] ∨ ∃ p rest, after = p ++ rest ∧ Form p := by
  cases after with
  | nil => exact .inl rfl
  | cons a after =>
    obtain ⟨s, rest, rfl, hp, -⟩ := exists_form_of_isValid h.isValid_after
    exact .inr ⟨a :: s, rest, rfl, hp⟩

end IsBetween

/-- The loop comes from one boundary to the next. -/
theorem exists_isBetween_of_visits (h : isValid text = true)
    (hvisits : (scrubbing text).Visits ⟨0, []⟩ t) :
    ∃ before after, IsBetween text before after t := by
  induction hvisits with
  | refl => exact ⟨[], text, isBetween_start h⟩
  | tail _ hturn ih =>
    obtain ⟨before, after, hbetween⟩ := ih
    obtain rfl | ⟨p, rest, rfl, hp⟩ := hbetween.after_cases
    · cases hbetween.done.symm.trans hturn
    · cases (hbetween.takes hp).turn.symm.trans hturn
      exact ⟨before ++ p, rest, hbetween.next hp⟩

/-- From a boundary on the loop runs to the end of the text. -/
theorem IsBetween.runs (h : IsBetween text before after t) :
    (scrubbing text).Runs t ⟨text.length, scrub text⟩ := by
  induction hn : after.length using Nat.strong_induction_on generalizing before after t with
  | _ n ih =>
    obtain rfl | ⟨p, rest, rfl, hp⟩ := h.after_cases
    · have hend := h.done
      obtain ⟨rfl, -, -, rfl, -⟩ := h
      rw [List.append_nil] at hend ⊢
      exact .done hend
    · have hlt : rest.length < n := by
        have := List.length_pos_of_ne_nil hp.ne_nil
        rw [← hn, List.length_append]
        omega
      exact .next (h.takes hp).turn (ih rest.length hlt (h.next hp) rfl)

/-- **No byte is read outside of a text.**  Testing and trimming run on any bytes, and on the way no
turn lacks a byte.  Scrubbing runs on a well-formed text, and at every turn it stands between two
characters and takes the next one whole, up to the end of the text. -/
theorem reads_in_range (text : Bytes) :
    ((test text).Runs 0 (isValid text) ∧
      ∀ i, (test text).Visits 0 i → (test text i).isSome = true) ∧
    (∃ before after, text = before ++ WhiteSpace.trim text ++ after ∧
      (WhiteSpace.skipStart text).Runs 0 before.length ∧
      (WhiteSpace.skipEnd text before.length).Runs text.length
        (before.length + (WhiteSpace.trim text).length) ∧
      (∀ i, (WhiteSpace.skipStart text).Visits 0 i →
        (WhiteSpace.skipStart text i).isSome = true) ∧
      ∀ i, (WhiteSpace.skipEnd text before.length).Visits text.length i →
        (WhiteSpace.skipEnd text before.length i).isSome = true) ∧
    (isValid text = true →
      (scrubbing text).Runs ⟨0, []⟩ ⟨text.length, scrub text⟩ ∧
      ∀ s, (scrubbing text).Visits ⟨0, []⟩ s → ∃ before after, IsBetween text before after s ∧
        (after = [] ∧ scrubbing text s = some (.done s) ∨
          ∃ p rest, after = p ++ rest ∧ TakesCharacter text s p)) := by
  refine ⟨⟨runs_test text, ?_⟩, ?_, ?_⟩
  · exact fun i => (runs_test text).isSome_of_visits
  · obtain ⟨before, after, hsplit, hstart, hend⟩ := WhiteSpace.exists_runs_trim text
    exact ⟨before, after, hsplit, hstart, hend, fun i => hstart.isSome_of_visits,
      fun i => hend.isSome_of_visits⟩
  · intro hvalid
    refine ⟨(isBetween_start hvalid).runs, ?_⟩
    intro s hvisits
    obtain ⟨before, after, hbetween⟩ := exists_isBetween_of_visits hvalid hvisits
    refine ⟨before, after, hbetween, ?_⟩
    obtain rfl | ⟨p, rest, rfl, hp⟩ := hbetween.after_cases
    · exact .inl ⟨rfl, hbetween.done⟩
    · exact .inr ⟨p, rest, rfl, hbetween.takes hp⟩

/-- Of a letter in two bytes, a mark in three and a letter in one, the mark is dropped, and the loop
ends behind the sixth byte. -/
theorem reads_in_range_letters_and_mark :
    isValid (Bytes.ofString "\u00E9\u202Ea") = true ∧
      (test (Bytes.ofString "\u00E9\u202Ea")).Runs 0 true ∧
      (scrubbing (Bytes.ofString "\u00E9\u202Ea")).Runs ⟨0, []⟩
        ⟨6, Bytes.ofString "\u00E9a"⟩ := by
  have hvalid : isValid (Bytes.ofString "\u00E9\u202Ea") = true := by decide
  have hlength : (Bytes.ofString "\u00E9\u202Ea").length = 6 := by decide
  have hscrub : scrub (Bytes.ofString "\u00E9\u202Ea") = Bytes.ofString "\u00E9a" := by decide
  obtain ⟨⟨htest, -⟩, -, hscrubbing⟩ := reads_in_range (Bytes.ofString "\u00E9\u202Ea")
  rw [hvalid] at htest
  obtain ⟨hruns, -⟩ := hscrubbing hvalid
  rw [hlength, hscrub] at hruns
  exact ⟨hvalid, htest, hruns⟩

end Clean

end PlaceFeed
