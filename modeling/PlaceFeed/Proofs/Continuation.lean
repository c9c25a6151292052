import PlaceFeed.Proofs.Accounting
import PlaceFeed.Proofs.Lines

/-!
# A feed in several texts

A checker keeps its places from one text to the next, but counts the lines of every text from one.
So a feed that is cut after a line feed is reported on as a whole, but for the numbers in the second
part (`Report.moved`): they are too small by the lines of the first part, unless they belong to a
place that was accepted before the cut.

* `Checker.IsAhead` : the relation between a checker that reads the second part on its own and one
  that reads it under the numbers of the whole feed;
* `Checker.IsAhead.check`, `Checker.IsAhead.checkAll` : a line, and so any lines, keep the relation
  and **move the reports**;
* `Checker.run_append` : so **a feed may be cut into several runs**.
-/

namespace PlaceFeed

/-! ### Reports under greater numbers -/

namespace Report

/-- One of these reports is on an accepted venue at the place of this one. -/
def isKnown (r : Report) (earlier : List Report) : Bool :=
  r.judgement.place?.any fun place => earlier.any (·.isAt place)

/-- The report as it is when `n` more lines stand before its own.  The line that it names is greater
by as much, unless one of the earlier reports is at its place. -/
def moved (r : Report) (earlier : List Report) (n : Nat) : Report :=
  { r with
    line := r.line + n
    samePlaceAs := if r.isKnown earlier then r.samePlaceAs else r.samePlaceAs.map (· + n) }

variable {r s : Report} {earlier : List Report} {n : Nat}

theorem isKnown_iff :
    r.isKnown earlier = true ↔
      ∃ place, r.judgement.place? = some place ∧ earlier.any (·.isAt place) = true :=
  Option.any_eq_true _ _

theorem eq_moved (hline : s.line = r.line + n) (hjudgement : s.judgement = r.judgement)
    (hknown : r.isKnown earlier = true → s.samePlaceAs = r.samePlaceAs)
    (hnew : r.isKnown earlier = false → s.samePlaceAs = r.samePlaceAs.map (· + n)) :
    s = r.moved earlier n := by
  obtain ⟨line, judgement, samePlaceAs⟩ := s
  rw [moved, mk.injEq]
  refine ⟨hline, hjudgement, ?_⟩
  cases h : r.isKnown earlier with
  | true => exact hknown h
  | false => exact hnew h

theorem isSome_samePlaceAs_moved :
    (r.moved earlier n).samePlaceAs.isSome = r.samePlaceAs.isSome := by
  unfold moved
  dsimp only
  split
  · rfl
  · exact Option.isSome_map

end Report

theorem firstLine_moved (place : PlaceId) (r : Report) (earlier : List Report) (n : Nat) :
    firstLine place [r.moved earlier n] = (firstLine place [r]).map (· + n) := by
  have hat : (r.moved earlier n).isAt place = r.isAt place := rfl
  rw [firstLine_singleton, firstLine_singleton, hat]
  split <;> rfl

theorem Summary.add_moved (s : Summary) (r : Report) (earlier : List Report) (n : Nat) :
    s.add (r.moved earlier n) = s.add r := by
  unfold Summary.add
  rw [Report.isSome_samePlaceAs_moved]
  rfl

/-! ### Checkers under greater numbers -/

namespace Checker

variable {c d : Checker} {earlier : List Report} {n : Nat}

/-- Since these **earlier** reports the second checker has checked the same lines as the first, but
under numbers that are greater by `n`. -/
structure IsAhead (earlier : List Report) (n : Nat) (c d : Checker) : Prop where
  settings : d.settings = c.settings
  summary : d.summary = c.summary
  known : ∀ place, earlier.any (·.isAt place) = true →
    ∃ line, c.registry.find? place = some line ∧ d.registry.find? place = some line
  new : ∀ place, earlier.any (·.isAt place) = false →
    d.registry.find? place = (c.registry.find? place).map (· + n)

theorem IsAhead.report_check (h : IsAhead earlier n c d) (number : Nat) (line : Bytes) :
    (d.check (number + n) line).1 = (c.check number line).1.moved earlier n := by
  have hjudgement : (d.check (number + n) line).1.judgement =
      (c.check number line).1.judgement := by
    rw [check_judgement, check_judgement, h.settings]
  refine Report.eq_moved rfl hjudgement ?_ ?_
  · intro hknown
    obtain ⟨place, hplace, hearlier⟩ := Report.isKnown_iff.1 hknown
    obtain ⟨m, hc, hd⟩ := h.known place hearlier
    rw [check_samePlaceAs, check_samePlaceAs, hjudgement, hplace, Option.bind_some,
      Option.bind_some, hc, hd]
  · intro hnew
    rw [check_samePlaceAs, check_samePlaceAs, hjudgement, Option.map_bind]
    refine Option.bind_congr fun place hplace => h.new place ?_
    rw [← Bool.not_eq_true] at hnew ⊢
    exact fun hearlier => hnew (Report.isKnown_iff.2 ⟨place, hplace, hearlier⟩)

/-- **A line moves the report on it**, and the second checker stays ahead. -/
theorem IsAhead.check (h : IsAhead earlier n c d) (number : Nat) (line : Bytes) :
    (d.check (number + n) line).1 = (c.check number line).1.moved earlier n ∧
      IsAhead earlier n (c.check number line).2 (d.check (number + n) line).2 := by
  have hreport := h.report_check number line
  refine ⟨hreport, h.settings, ?_, ?_, ?_⟩
  · change d.summary.add (d.check (number + n) line).1 = c.summary.add (c.check number line).1
    rw [hreport, Summary.add_moved, h.summary]
  · -- the line of a known place is never overwritten
    intro place hearlier
    obtain ⟨m, hc, hd⟩ := h.known place hearlier
    refine ⟨m, ?_, ?_⟩
    · rw [find?_check, hc, Option.some_or]
    · rw [find?_check, hd, Option.some_or]
  · intro place hearlier
    rw [find?_check, find?_check, h.new place hearlier, hreport, firstLine_moved, Option.map_or]

theorem IsAhead.checkAll (h : IsAhead earlier n c d) (lines : List (Bytes × Nat)) :
    let later := lines.map fun l => (l.1, l.2 + n)
    (d.checkAll later).1 = (c.checkAll lines).1.map (·.moved earlier n) ∧
      IsAhead earlier n (c.checkAll lines).2 (d.checkAll later).2 := by
  induction lines generalizing c d with
  | nil => exact ⟨rfl, h⟩
  | cons l lines ih =>
    obtain ⟨line, number⟩ := l
    obtain ⟨hreport, hafter⟩ := h.check number line
    obtain ⟨hreports, hend⟩ := ih hafter
    dsimp only at hreports hend ⊢
    rw [List.map_cons, checkAll_cons, checkAll_cons, List.map_cons]
    exact ⟨by rw [hreport, hreports], hend⟩

/-- A checker that has not gone on yet is ahead of itself by any number of lines. -/
theorem isAhead_self (settings : Settings) (lines : List (Bytes × Nat)) (n : Nat) :
    let after := (new settings).checkAll lines
    IsAhead after.1 n after.2 after.2 := by
  intro after
  have hplace : ∀ place, after.1.any (·.isAt place) = (after.2.registry.find? place).isSome := by
    intro place
    rw [Bool.eq_iff_iff, Registry.isSome_find?_iff, mem_places_new, List.any_eq_true]
  refine ⟨rfl, rfl, ?_, ?_⟩
  · intro place hearlier
    rw [hplace, Option.isSome_iff_exists] at hearlier
    obtain ⟨line, hline⟩ := hearlier
    exact ⟨line, hline, hline⟩
  · intro place hearlier
    rw [hplace, Option.isSome_eq_false_iff, Option.isNone_iff_eq_none] at hearlier
    rw [hearlier, Option.map_none]

theorem IsAhead.mem_places_iff (h : IsAhead earlier n c d) (place : PlaceId) :
    place ∈ d.registry.places ↔ place ∈ c.registry.places := by
  rw [← Registry.isSome_find?_iff, ← Registry.isSome_find?_iff]
  cases hearlier : earlier.any (·.isAt place) with
  | true =>
    obtain ⟨line, hc, hd⟩ := h.known place hearlier
    rw [hc, hd]
  | false => rw [h.new place hearlier, Option.isSome_map]

/-! ### Runs -/

/-- **A feed may be cut into several runs**, after any line feed and whatever the checker was asked
to do before.  The summary and the known places in the end are those of one run over the whole feed,
and so are the reports, but for the numbers in those of the second part: they are moved by the lines
of the first, all but those of places that were accepted before the cut. -/
theorem run_append (settings : Settings) (history : List Call) (text₁ text₂ : Bytes)
    (h : text₁ = [] ∨ text₁.getLast? = some Ascii.lineFeed) :
    let before := (new settings).performAll history
    let first := before.2.run text₁
    let second := first.2.run text₂
    let whole := before.2.run (text₁ ++ text₂)
    whole.2.summary = second.2.summary ∧
      (∀ place, place ∈ whole.2.registry.places ↔ place ∈ second.2.registry.places) ∧
      whole.1 = first.1 ++
        second.1.map (·.moved (before.1 ++ first.1) (Bytes.lines text₁).length) := by
  intro before first second whole
  let n := (Bytes.lines text₁).length
  let later := (numberedLines text₂).map fun l => (l.1, l.2 + n)
  have hfirst : (new settings).checkAll (history.flatMap Call.lines ++ numberedLines text₁) =
      (before.1 ++ first.1, first.2) := by
    rw [checkAll_append, ← performAll_eq]
    rfl
  have hwhole : whole = (first.1 ++ (first.2.checkAll later).1, (first.2.checkAll later).2) := by
    change before.2.checkAll (numberedLines (text₁ ++ text₂)) = _
    rw [numberedLines_append h, checkAll_append]
    rfl
  have hstart := isAhead_self settings (history.flatMap Call.lines ++ numberedLines text₁) n
  rw [hfirst] at hstart
  obtain ⟨hreports, hend⟩ := hstart.checkAll (numberedLines text₂)
  rw [hwhole]
  exact ⟨hend.summary, hend.mem_places_iff, congrArg (first.1 ++ ·) hreports⟩

/-- The second part has a place that was known before both texts, one that the first part has, and
two times one that is new.  Only this one's line is moved. -/
theorem run_append_three_places :
    let venue (id : String) := Bytes.ofString "\x7b\"latitude\":1,\"longitude\":2,\"id\":\"" ++
      Bytes.ofString id ++ Bytes.ofString "\"\x7d\n"
    let text₁ := venue "8" ++ [Ascii.lineFeed]
    let text₂ := venue "7" ++ venue "8" ++ venue "9" ++ venue "9"
    let before := (new Settings.default).performAll [.check 3 (venue "7")]
    let first := before.2.run text₁
    let second := first.2.run text₂
    let whole := before.2.run (text₁ ++ text₂)
    text₁.getLast? = some Ascii.lineFeed ∧
      second.1.map (fun r => (r.line, r.samePlaceAs)) =
        [(1, some 3), (2, some 1), (3, none), (4, some 3)] ∧
      whole.1.map (fun r => (r.line, r.samePlaceAs)) =
        [(1, none), (3, some 3), (4, some 1), (5, none), (6, some 5)] ∧
      whole.2.summary = second.2.summary ∧
      (∀ place, place ∈ whole.2.registry.places ↔ place ∈ second.2.registry.places) ∧
      whole.1 = first.1 ++
        second.1.map (·.moved (before.1 ++ first.1) (Bytes.lines text₁).length) := by
  intro venue text₁ text₂ before first second whole
  have hend : text₁.getLast? = some Ascii.lineFeed := by decide +kernel
  have hsecond : second.1.map (fun r => (r.line, r.samePlaceAs)) =
      [(1, some 3), (2, some 1), (3, none), (4, some 3)] := by decide +kernel
  have hwhole : whole.1.map (fun r => (r.line, r.samePlaceAs)) =
      [(1, none), (3, some 3), (4, some 1), (5, none), (6, some 5)] := by decide +kernel
  refine ⟨hend, hsecond, hwhole, ?_⟩
  dsimp only [whole, second, first, before]
  exact run_append Settings.default [.check 3 (venue "7")] text₁ text₂ (.inr hend)

end Checker

end PlaceFeed
