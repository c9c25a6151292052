import PlaceFeed.Proofs.Encoding
import Mathlib.Data.List.DropRight

/-!
# Trimming encoded texts

Trimming drops white space from the front of a text, reading characters, and then from its back,
reading groups.  On an encoded list both passes are the list's own (`Scalars.trim_encode`).  What
remains has no white space at either end (`Scalars.isTrimmed_strip`), although the second pass runs
after the first, and such a list stays as it is (`Scalars.strip_of_isTrimmed`).

* `Scalars.stripsTo_iff` : there is one way to take all white space off both ends of a list;
* `Scalars.trim_exact` : **trimming bytes does this to the characters** that they encode, and takes
  no byte of any other character.
-/

namespace PlaceFeed

namespace Scalars

open Utf8 WhiteSpace

/-! ### Bytes and characters -/

theorem isSpaceCharacter_encodeChar (c : Char) :
    isSpaceCharacter (String.utf8EncodeChar c) = isSpace c := by
  have hform := form_encodeChar c
  have hcode := code_encodeChar c
  obtain ⟨a, s, h⟩ := List.exists_cons_of_ne_nil hform.ne_nil
  rw [h] at hform hcode ⊢
  rw [isSpaceCharacter, hform.charLength_eq, hcode, List.length_cons, beq_self_eq_true,
    Bool.true_and, isSpace]

theorem isSpaceCharacter_comp :
    isSpaceCharacter ∘ String.utf8EncodeChar = isSpace := by
  funext c
  exact isSpaceCharacter_encodeChar c

theorem trimStart_encode (cs : List Char) :
    trimStart (encode cs) = encode (cs.dropWhile isSpace) := by
  rw [trimStart, characters_encode, List.dropWhile_map, isSpaceCharacter_comp, encode_eq_flatten]

theorem trimEnd_encode (cs : List Char) : trimEnd (encode cs) = encode (cs.rdropWhile isSpace) := by
  rw [trimEnd, groups_encode, ← List.map_reverse, List.dropWhile_map, isSpaceCharacter_comp,
    ← List.map_reverse, List.rdropWhile, encode_eq_flatten]

/-! ### Stripping -/

theorem strip_eq_rdropWhile (cs : List Char) :
    strip cs = (cs.dropWhile isSpace).rdropWhile isSpace := rfl

theorem trim_encode (cs : List Char) : trim (encode cs) = encode (strip cs) := by
  rw [trim, trimStart_encode, trimEnd_encode, strip_eq_rdropWhile]

theorem strip_sublist (cs : List Char) : (strip cs).Sublist cs := by
  have hend := (List.rdropWhile_prefix isSpace (cs.dropWhile isSpace)).sublist
  exact hend.trans (List.dropWhile_sublist isSpace)

/-- No white space at either end. -/
def IsTrimmed (cs : List Char) : Prop :=
  (∀ c ∈ cs.head?, isSpace c = false) ∧ ∀ c ∈ cs.getLast?, isSpace c = false

theorem isTrimmed_strip (cs : List Char) : IsTrimmed (strip cs) := by
  constructor
  · intro c hc
    -- the start of what remains is where the first pass stopped
    have hdrop := List.head?_dropWhile_not isSpace cs
    obtain ⟨t, ht⟩ := List.rdropWhile_prefix isSpace (cs.dropWhile isSpace)
    obtain ⟨ds, hds⟩ := List.head?_eq_some_iff.1 (Option.mem_def.1 hc)
    rw [strip_eq_rdropWhile] at hds
    rw [← ht, hds] at hdrop
    exact hdrop
  · intro c hc
    obtain ⟨hne, rfl⟩ := List.mem_getLast?_eq_getLast hc
    exact Bool.eq_false_iff.2 (List.rdropWhile_last_not isSpace _ hne)

theorem strip_of_isTrimmed {cs : List Char} (h : IsTrimmed cs) : strip cs = cs := by
  have hdrop : cs.dropWhile isSpace = cs := by
    cases cs with
    | nil => rfl
    | cons c cs =>
      have hc : isSpace c = false := h.1 c rfl
      exact List.dropWhile_cons_of_neg (Bool.eq_false_iff.1 hc)
  rw [strip_eq_rdropWhile, hdrop, List.rdropWhile_eq_self_iff]
  intro hne
  exact Bool.eq_false_iff.1 (h.2 _ (List.getLast?_eq_some_getLast hne))

/-! ### Runs of white space -/

/-- All white space at both ends of `cs` is taken off, and nothing else, and `core` is left. -/
structure StripsTo (cs core : List Char) : Prop where
  isTrimmed : IsTrimmed core
  removed : ∃ before after, cs = before ++ core ++ after ∧
    ∀ c ∈ before ++ after, isSpace c = true

theorem stripsTo_strip (cs : List Char) : StripsTo cs (strip cs) := by
  refine ⟨isTrimmed_strip cs, cs.takeWhile isSpace,
    (cs.dropWhile isSpace).rtakeWhile isSpace, ?_, ?_⟩
  · rw [List.append_assoc, strip_eq_rdropWhile, List.rdropWhile_append_rtakeWhile,
      List.takeWhile_append_dropWhile]
  · intro c hc
    obtain hc | hc := List.mem_append.1 hc
    · exact List.mem_takeWhile_imp hc
    · exact List.mem_rtakeWhile_imp hc

theorem rdropWhile_append_of_spaces (cs : List Char) {after : List Char}
    (h : ∀ c ∈ after, isSpace c = true) :
    (cs ++ after).rdropWhile isSpace = cs.rdropWhile isSpace := by
  have hreverse : ∀ c ∈ after.reverse, isSpace c = true := by
    intro c hc
    exact h c (List.mem_reverse.1 hc)
  rw [List.rdropWhile, List.reverse_append, List.dropWhile_append_of_pos hreverse, List.rdropWhile]

/-- White space at either end makes no difference. -/
theorem strip_append_append {before core after : List Char}
    (h : ∀ c ∈ before ++ after, isSpace c = true) :
    strip (before ++ core ++ after) = strip core := by
  obtain ⟨hbefore, hafter⟩ := List.forall_mem_append.1 h
  rw [strip_eq_rdropWhile, List.append_assoc, List.dropWhile_append_of_pos hbefore,
    strip_eq_rdropWhile, List.dropWhile_append]
  split
  · next hempty =>
    -- the first pass takes all of the core, and goes on behind it
    rw [List.isEmpty_iff.1 hempty, List.dropWhile_eq_nil_iff.2 hafter]
  · exact rdropWhile_append_of_spaces _ hafter

/-- There is one way to strip a list. -/
theorem stripsTo_iff {cs core : List Char} : StripsTo cs core ↔ core = strip cs := by
  constructor
  · rintro ⟨htrimmed, before, after, rfl, h⟩
    rw [strip_append_append h, strip_of_isTrimmed htrimmed]
  · rintro rfl
    exact stripsTo_strip cs

/-- White space is encoded in at most three bytes. -/
theorem length_encodeChar_of_isSpace {c : Char} (h : isSpace c = true) :
    (String.utf8EncodeChar c).length ≤ 3 := by
  have hcode : c.toNat ≤ 0x3000 := by
    simp only [isSpace, WhiteSpace.isSpace, List.contains_eq_mem, List.mem_cons, List.not_mem_nil,
      or_false, Bool.decide_or, Bool.or_eq_true, Bool.and_eq_true, decide_eq_true_eq] at h
    omega
  change c.val.toNat ≤ 0x3000 at hcode
  fun_cases String.utf8EncodeChar c with
  | case1 | case2 | case3 => simp
  | case4 => omega

/-- **Trimming bytes strips characters.**  What trimming leaves of an encoded list is the encoding
of the list stripped, so it is well-formed, and the bytes that it takes off are those of white space
around what is left. -/
theorem trim_exact (cs : List Char) :
    (∀ core, trim (encode cs) = encode core ↔ StripsTo cs core) ∧
    isValid (trim (encode cs)) = true ∧
    ∃ before after,
      encode cs = encode before ++ trim (encode cs) ++ encode after ∧
      ∀ c ∈ before ++ after, isSpace c = true ∧ (String.utf8EncodeChar c).length ≤ 3 := by
  refine ⟨?_, ?_, ?_⟩
  · intro core
    rw [trim_encode, stripsTo_iff, encode_injective.eq_iff, eq_comm]
  · rw [trim_encode]
    exact isValid_encode (strip cs)
  · obtain ⟨before, after, hcs, h⟩ := (stripsTo_strip cs).removed
    refine ⟨before, after, ?_, fun c hc => ⟨h c hc, length_encodeChar_of_isSpace (h c hc)⟩⟩
    rw [trim_encode, ← encode_append, ← encode_append, ← hcs]

/-- The bytes `85` and `A0` are white space of one byte on their own, and here they end letters. -/
example : trim (Bytes.ofString "\u2003 \u0105\u00E0 \u00C5\u3000") =
    Bytes.ofString "\u0105\u00E0 \u00C5" := by decide

end Scalars

end PlaceFeed
