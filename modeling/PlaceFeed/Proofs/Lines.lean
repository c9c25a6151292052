import PlaceFeed.Proofs.History

/-!
# The lines of a text

`Bytes.lines` cuts a text at its line feeds.  `Bytes.IsLines` says which lines a text has without
cutting it: every line ends with a line feed, but for a last one that is not empty.

* `Bytes.isLines_iff` : every text has lines, and they are those of `Bytes.lines`;
* `Bytes.lines_induction` : what holds of a text without a line feed, and of one more line before
  any text, holds of all texts;
* `Checker.numberedLines_eq_splitOn` : whether the piece after a last line feed counts as a line
  makes no difference to what is checked, as it is blank;
* `Checker.numberedLines_replaceLines` : with blank lines in the place of others, just these are not
  checked;
* `Checker.numberedLines_append` : the lines of a text that follows another are its own, under
  greater numbers.
-/

namespace PlaceFeed

namespace Bytes

variable {line text : Bytes} {ls : List Bytes}

/-! ### Cutting a text -/

theorem lines_of_not_mem (h : Ascii.lineFeed ∉ line) (hne : line ≠ []) : lines line = [line] := by
  rw [lines, List.splitOn_eq_singleton h]
  simp [hne]

theorem lines_cons (h : Ascii.lineFeed ∉ line) (text : Bytes) :
    lines (line ++ Ascii.lineFeed :: text) = line :: lines text := by
  obtain ⟨piece, pieces, hpieces⟩ :=
    List.exists_cons_of_ne_nil (List.splitOn_ne_nil Ascii.lineFeed text)
  rw [lines, lines, List.splitOn_append_cons_self_of_not_mem h, hpieces, List.getLast?_cons_cons,
    List.dropLast_cons_cons]
  split <;> rfl

/-- A property of all texts, by their lines. -/
theorem lines_induction {P : Bytes → Prop} (last : ∀ line, Ascii.lineFeed ∉ line → P line)
    (cons : ∀ line text, Ascii.lineFeed ∉ line → P text → P (line ++ Ascii.lineFeed :: text))
    (text : Bytes) : P text := by
  induction hn : text.length using Nat.strongRecOn generalizing text with
  | ind n ih =>
    by_cases hmem : Ascii.lineFeed ∈ text
    · obtain ⟨line, rest, rfl, hline⟩ := List.eq_append_cons_of_mem hmem
      refine cons line rest hline (ih rest.length ?_ rest rfl)
      rw [← hn, List.length_append, List.length_cons]
      omega
    · exact last text hmem

/-- The **lines of a text**, as it is written. -/
inductive IsLines : Bytes → List Bytes → Prop
  | nil : IsLines [] []
  | last {line : Bytes} (h : Ascii.lineFeed ∉ line) (hne : line ≠ []) : IsLines line [line]
  | cons {line text : Bytes} {lines : List Bytes} (h : Ascii.lineFeed ∉ line)
    (hrest : IsLines text lines) : IsLines (line ++ Ascii.lineFeed :: text) (line :: lines)

theorem isLines_lines (text : Bytes) : IsLines text (lines text) := by
  induction text using lines_induction with
  | last line h =>
    by_cases hne : line = []
    · rw [hne]
      exact .nil
    · rw [lines_of_not_mem h hne]
      exact .last h hne
  | cons line text h ih =>
    rw [lines_cons h]
    exact .cons h ih

theorem IsLines.lines_eq (h : IsLines text ls) : lines text = ls := by
  induction h with
  | nil => rfl
  | last h hne => exact lines_of_not_mem h hne
  | cons h _ ih => rw [lines_cons h, ih]

theorem isLines_iff : IsLines text ls ↔ lines text = ls := by
  constructor
  · exact IsLines.lines_eq
  · rintro rfl
    exact isLines_lines text

/-- A text after one whose last line is ended begins with a line of its own. -/
theorem lines_append {text₁ : Bytes} (h : text₁ = [] ∨ text₁.getLast? = some Ascii.lineFeed)
    (text₂ : Bytes) : lines (text₁ ++ text₂) = lines text₁ ++ lines text₂ := by
  induction text₁ using lines_induction with
  | last line hline =>
    obtain rfl | hlast := h
    · rfl
    · exact absurd (List.mem_of_getLast? hlast) hline
  | cons line text hline ih =>
    have htext : text = [] ∨ text.getLast? = some Ascii.lineFeed := by
      by_cases hne : text = []
      · exact .inl hne
      · obtain hnil | hlast := h
        · simp at hnil
        · rw [List.getLast?_append_of_ne_nil line (List.cons_ne_nil _ _),
            List.getLast?_cons_of_ne_nil hne] at hlast
          exact .inr hlast
    rw [List.append_assoc, List.cons_append, lines_cons hline, lines_cons hline, ih htext,
      List.cons_append]

/-! ### Replacing lines -/

theorem lineFeed_not_mem_of_isBlank (h : isBlank line = true) : Ascii.lineFeed ∉ line := by
  intro hmem
  have := List.all_eq_true.1 h _ hmem
  revert this
  decide

theorem lineFeed_not_mem_of_mem_splitOn (text : Bytes) :
    ∀ piece ∈ text.splitOn Ascii.lineFeed, Ascii.lineFeed ∉ piece := by
  induction text using lines_induction with
  | last line h =>
    rw [List.splitOn_eq_singleton h]
    exact List.forall_mem_singleton.2 h
  | cons line text h ih =>
    rw [List.splitOn_append_cons_self_of_not_mem h]
    exact List.forall_mem_cons.2 ⟨h, ih⟩

/-- The text with other lines in the place of those with some numbers, the first of which is one. -/
def replaceLines (others : Nat → Option Bytes) (text : Bytes) : Bytes :=
  [Ascii.lineFeed].intercalate
    (((text.splitOn Ascii.lineFeed).zipIdx 1).map fun l => (others l.2).getD l.1)

theorem splitOn_replaceLines {others : Nat → Option Bytes}
    (h : ∀ number other, others number = some other → isBlank other = true) (text : Bytes) :
    (replaceLines others text).splitOn Ascii.lineFeed =
      ((text.splitOn Ascii.lineFeed).zipIdx 1).map fun l => (others l.2).getD l.1 := by
  rw [replaceLines, List.splitOn_intercalate]
  · rintro piece hpiece
    obtain ⟨l, hl, rfl⟩ := List.mem_map.1 hpiece
    cases hother : others l.2 with
    | none => exact lineFeed_not_mem_of_mem_splitOn text _ (List.fst_mem_of_mem_zipIdx hl)
    | some other => exact lineFeed_not_mem_of_isBlank (h _ _ hother)
  · simp

end Bytes

namespace Checker

/-! ### Lines with their numbers -/

/-- Those of some lines that are not blank, with their numbers, when the first has this number. -/
def numberedFrom (number : Nat) (lines : List Bytes) : List (Bytes × Nat) :=
  (lines.zipIdx number).filter fun l => !Bytes.isBlank l.1

theorem numberedLines_eq (text : Bytes) : numberedLines text = numberedFrom 1 (Bytes.lines text) :=
  rfl

theorem numberedFrom_cons_of_isBlank {line : Bytes} (h : Bytes.isBlank line = true) (number : Nat)
    (lines : List Bytes) :
    numberedFrom number (line :: lines) = numberedFrom (number + 1) lines := by
  rw [numberedFrom, List.zipIdx_cons, List.filter_cons_of_neg (by simp [h])]
  rfl

theorem numberedFrom_cons_of_not_isBlank {line : Bytes} (h : Bytes.isBlank line = false)
    (number : Nat) (lines : List Bytes) :
    numberedFrom number (line :: lines) = (line, number) :: numberedFrom (number + 1) lines := by
  rw [numberedFrom, List.zipIdx_cons, List.filter_cons_of_pos (by simp [h])]
  rfl

/-- A blank line at the end makes no difference. -/
theorem numberedFrom_concat_of_isBlank {line : Bytes} (h : Bytes.isBlank line = true)
    (number : Nat) (lines : List Bytes) :
    numberedFrom number (lines ++ [line]) = numberedFrom number lines := by
  rw [numberedFrom, List.zipIdx_append, List.filter_append, numberedFrom]
  simp [h]

/-- What is checked are the pieces between line feeds, the last one included. -/
theorem numberedLines_eq_splitOn (text : Bytes) :
    numberedLines text = numberedFrom 1 (text.splitOn Ascii.lineFeed) := by
  rw [numberedLines_eq, Bytes.lines]
  split
  · next hlast =>
    obtain ⟨pieces, hpieces⟩ := List.getLast?_eq_some_iff.1 hlast
    rw [hpieces, List.dropLast_concat, numberedFrom_concat_of_isBlank rfl]
  · rfl

theorem numberedFrom_map_getD {others : Nat → Option Bytes}
    (h : ∀ number other, others number = some other → Bytes.isBlank other = true) (number : Nat)
    (pieces : List Bytes) :
    numberedFrom number ((pieces.zipIdx number).map fun l => (others l.2).getD l.1) =
      (numberedFrom number pieces).filter fun l => (others l.2).isNone := by
  induction pieces generalizing number with
  | nil => rfl
  | cons piece pieces ih =>
    rw [List.zipIdx_cons, List.map_cons]
    cases hother : others number with
    | some other =>
      rw [Option.getD_some, numberedFrom_cons_of_isBlank (h _ _ hother), ih]
      by_cases hblank : Bytes.isBlank piece = true
      · rw [numberedFrom_cons_of_isBlank hblank]
      · rw [numberedFrom_cons_of_not_isBlank (by simpa using hblank),
          List.filter_cons_of_neg (by simp [hother])]
    | none =>
      rw [Option.getD_none]
      by_cases hblank : Bytes.isBlank piece = true
      · rw [numberedFrom_cons_of_isBlank hblank, numberedFrom_cons_of_isBlank hblank, ih]
      · rw [numberedFrom_cons_of_not_isBlank (by simpa using hblank),
          numberedFrom_cons_of_not_isBlank (by simpa using hblank),
          List.filter_cons_of_pos (by simp [hother]), ih]

/-- Lines that are replaced by blank ones are not checked, and all others as before. -/
theorem numberedLines_replaceLines {others : Nat → Option Bytes}
    (h : ∀ number other, others number = some other → Bytes.isBlank other = true) (text : Bytes) :
    numberedLines (Bytes.replaceLines others text) =
      (numberedLines text).filter fun l => (others l.2).isNone := by
  rw [numberedLines_eq_splitOn, numberedLines_eq_splitOn, Bytes.splitOn_replaceLines h,
    numberedFrom_map_getD h]

/-! ### Lines of one text after another -/

theorem numberedFrom_append (number : Nat) (lines₁ lines₂ : List Bytes) :
    numberedFrom number (lines₁ ++ lines₂) =
      numberedFrom number lines₁ ++ numberedFrom (number + lines₁.length) lines₂ := by
  rw [numberedFrom, List.zipIdx_append, List.filter_append]
  rfl

theorem numberedFrom_add (number n : Nat) (lines : List Bytes) :
    numberedFrom (number + n) lines =
      (numberedFrom number lines).map fun l => (l.1, l.2 + n) := by
  induction lines generalizing number with
  | nil => rfl
  | cons line lines ih =>
    have hnext : number + n + 1 = number + 1 + n := by omega
    cases hblank : Bytes.isBlank line with
    | true =>
      rw [numberedFrom_cons_of_isBlank hblank, numberedFrom_cons_of_isBlank hblank, hnext, ih]
    | false =>
      rw [numberedFrom_cons_of_not_isBlank hblank, numberedFrom_cons_of_not_isBlank hblank, hnext,
        ih, List.map_cons]

/-- The lines of a text after another one are its own, with greater numbers. -/
theorem numberedLines_append {text₁ : Bytes}
    (h : text₁ = [] ∨ text₁.getLast? = some Ascii.lineFeed) (text₂ : Bytes) :
    numberedLines (text₁ ++ text₂) = numberedLines text₁ ++
      (numberedLines text₂).map fun l => (l.1, l.2 + (Bytes.lines text₁).length) := by
  rw [numberedLines_eq, Bytes.lines_append h, numberedFrom_append, numberedFrom_add]
  rfl

end Checker

end PlaceFeed
