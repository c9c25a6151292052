import PlaceFeed.Proofs.Accounting
import PlaceFeed.Proofs.Lines

/-!
# Lines that are not accepted

What a checker reports depends on its settings and on the places that it knows, and not on its
counts (`Checker.ReportsAlike`).  A line that is not accepted changes only counts, so leaving it out
changes no other report.

* `Checker.check_of_rejected`, `Checker.check_of_malformed` : what such a line changes, in full;
* `Checker.ReportsAlike.checkAll` : checkers that know the same places report alike, and go on to do
  so;
* `Checker.answers_sift` : calls without an accepted venue may be left out;
* `Checker.checkAll_filter` : so may single lines, by their numbers;
* `Checker.refused_traceless` : **lines that are not accepted leave no trace**, in histories of
  calls and in the text of a run.
-/

namespace PlaceFeed

/-! ### Parts of a list -/

section Sift

variable {α : Type} {keep : Nat → Bool}

/-- The items at some positions, the first of which is zero. -/
def sift (keep : Nat → Bool) (l : List α) : List α :=
  (l.zipIdx.filter fun item => keep item.2).map Prod.fst

theorem sift_cons (a : α) (l : List α) :
    sift keep (a :: l) =
      if keep 0 then a :: sift (fun k => keep (k + 1)) l else sift (fun k => keep (k + 1)) l := by
  have hrest : ((l.zipIdx 1).filter fun item => keep item.2).map Prod.fst =
      sift (fun k => keep (k + 1)) l := by
    rw [List.zipIdx_succ, List.filter_map, List.map_map]
    rfl
  rw [sift, List.zipIdx_cons, List.filter_cons, Nat.zero_add]
  split <;> simp [hrest]

end Sift

namespace Checker

variable {c d : Checker}

/-! ### What a refused line changes -/

/-- A line that is not accepted is no new place. -/
theorem registry_check_of_not_ok {number : Nat} {line : Bytes}
    (h : (c.check number line).1.hasStatus "ok" = false) :
    (c.check number line).2.registry = c.registry := by
  rw [← Bool.not_eq_true, Report.hasStatus_ok_iff] at h
  rw [check] at h ⊢
  generalize Judgement.ofLine c.settings.requireMapPoint line = j at h ⊢
  cases j with
  | malformed f | rejected e => rfl
  | accepted v => exact absurd ⟨v, rfl⟩ h

/-- A rejected line adds one to the rejected ones and to the total, and changes nothing else. -/
theorem check_of_rejected {number : Nat} {line : Bytes}
    (h : (c.check number line).1.hasStatus "rejected" = true) :
    (c.check number line).2 = { c with summary := { c.summary with
      total := c.summary.total + 1
      rejected := c.summary.rejected + 1 } } := by
  obtain ⟨e, he⟩ := (Report.hasStatus_rejected_iff _).1 h
  have hj : Judgement.ofLine c.settings.requireMapPoint line = .rejected e := he
  rw [check, hj]
  rfl

/-- A malformed line adds one to the malformed ones and to the total, and changes nothing else. -/
theorem check_of_malformed {number : Nat} {line : Bytes}
    (h : (c.check number line).1.hasStatus "malformed" = true) :
    (c.check number line).2 = { c with summary := { c.summary with
      total := c.summary.total + 1
      malformed := c.summary.malformed + 1 } } := by
  obtain ⟨f, hf⟩ := (Report.hasStatus_malformed_iff _).1 h
  have hj : Judgement.ofLine c.settings.requireMapPoint line = .malformed f := hf
  rw [check, hj]
  rfl

/-! ### Checkers that report alike -/

/-- The checkers differ at most in their counts. -/
structure ReportsAlike (c d : Checker) : Prop where
  settings : c.settings = d.settings
  registry : c.registry = d.registry

theorem ReportsAlike.refl (c : Checker) : c.ReportsAlike c := ⟨rfl, rfl⟩

theorem ReportsAlike.trans {e : Checker} (h : c.ReportsAlike d) (h' : d.ReportsAlike e) :
    c.ReportsAlike e :=
  ⟨h.settings.trans h'.settings, h.registry.trans h'.registry⟩

theorem ReportsAlike.check (h : c.ReportsAlike d) (number : Nat) (line : Bytes) :
    (c.check number line).1 = (d.check number line).1 ∧
      (c.check number line).2.ReportsAlike (d.check number line).2 := by
  have hreport : (c.check number line).1 = (d.check number line).1 := by
    simp only [Checker.check, record, h.settings, h.registry]
  refine ⟨hreport, h.settings, ?_⟩
  simp only [Checker.check, record, h.settings, h.registry]

theorem ReportsAlike.checkAll (h : c.ReportsAlike d) (lines : List (Bytes × Nat)) :
    (c.checkAll lines).1 = (d.checkAll lines).1 ∧
      (c.checkAll lines).2.ReportsAlike (d.checkAll lines).2 := by
  induction lines generalizing c d with
  | nil => exact ⟨rfl, h⟩
  | cons l lines ih =>
    obtain ⟨line, number⟩ := l
    obtain ⟨hreport, hafter⟩ := h.check number line
    obtain ⟨hreports, hend⟩ := ih hafter
    rw [checkAll_cons, checkAll_cons]
    exact ⟨by rw [hreport, hreports], hend⟩

theorem reportsAlike_check {number : Nat} {line : Bytes}
    (h : (c.check number line).1.hasStatus "ok" = false) :
    (c.check number line).2.ReportsAlike c :=
  ⟨rfl, registry_check_of_not_ok h⟩

theorem reportsAlike_checkAll {lines : List (Bytes × Nat)}
    (h : ∀ r ∈ (c.checkAll lines).1, r.hasStatus "ok" = false) :
    (c.checkAll lines).2.ReportsAlike c := by
  induction lines generalizing c with
  | nil => exact .refl c
  | cons l lines ih =>
    obtain ⟨line, number⟩ := l
    rw [checkAll_cons] at h ⊢
    obtain ⟨hfirst, hrest⟩ := List.forall_mem_cons.1 h
    exact (ih hrest).trans (reportsAlike_check hfirst)

/-! ### Leaving out lines -/

/-- Without some lines that are not accepted, the other reports are the same. -/
theorem checkAll_filter (keep : Nat → Bool) {lines : List (Bytes × Nat)}
    (h : ∀ r ∈ (c.checkAll lines).1, keep r.line = false → r.hasStatus "ok" = false)
    (hd : c.ReportsAlike d) :
    (d.checkAll (lines.filter fun l => keep l.2)).1 =
      (c.checkAll lines).1.filter fun r => keep r.line := by
  induction lines generalizing c d with
  | nil => rfl
  | cons l lines ih =>
    obtain ⟨line, number⟩ := l
    rw [checkAll_cons] at h ⊢
    obtain ⟨hfirst, hrest⟩ := List.forall_mem_cons.1 h
    have hline : (c.check number line).1.line = number := rfl
    rw [hline] at hfirst
    rw [List.filter_cons, List.filter_cons, hline]
    cases hkeep : keep number with
    | false =>
      -- the checker without the line goes on reporting like the one that has checked it
      exact ih hrest ((reportsAlike_check (hfirst hkeep)).trans hd)
    | true =>
      obtain ⟨hreport, hafter⟩ := hd.check number line
      rw [if_pos rfl, if_pos rfl, checkAll_cons, ← hreport, ih hrest hafter]

/-- The reports of each of some calls. -/
def answers (c : Checker) : List Call → List (List Report)
  | [] => []
  | call :: calls => (c.perform call).1 :: (c.perform call).2.answers calls

/-- Without some calls that accept no venue, the reports of the other calls are the same. -/
theorem answers_sift {keep : Nat → Bool} {calls : List Call}
    (h : ∀ k reports, (c.answers calls)[k]? = some reports → keep k = false →
      ∀ r ∈ reports, r.hasStatus "ok" = false)
    (hd : c.ReportsAlike d) :
    d.answers (sift keep calls) = sift keep (c.answers calls) := by
  induction calls generalizing c d keep with
  | nil => rfl
  | cons call calls ih =>
    have hrest : ∀ k reports, ((c.perform call).2.answers calls)[k]? = some reports →
        keep (k + 1) = false → ∀ r ∈ reports, r.hasStatus "ok" = false :=
      fun k reports hk => h (k + 1) reports hk
    rw [answers, sift_cons, sift_cons]
    cases hkeep : keep 0 with
    | false =>
      have hfirst := h 0 _ rfl hkeep
      rw [perform_eq] at hfirst
      refine ih hrest (.trans ?_ hd)
      rw [perform_eq]
      exact reportsAlike_checkAll hfirst
    | true =>
      obtain ⟨hreports, hafter⟩ := hd.checkAll call.lines
      rw [← perform_eq, ← perform_eq] at hreports hafter
      rw [if_pos rfl, if_pos rfl, answers, ← hreports, ih hrest hafter]

/-- **Lines that are not accepted leave no trace.**  A rejected or malformed line adds one to the
total and one to the lines of its kind, and changes nothing else.  So every other call of a history
has the same answer without any of the calls that accepted no venue, and a text with blank lines in
the place of any such lines has the same records but for theirs. -/
theorem refused_traceless (c : Checker) :
    (∀ number line,
      ((c.check number line).1.hasStatus "rejected" = true →
        (c.check number line).2 = { c with summary := { c.summary with
          total := c.summary.total + 1
          rejected := c.summary.rejected + 1 } }) ∧
      ((c.check number line).1.hasStatus "malformed" = true →
        (c.check number line).2 = { c with summary := { c.summary with
          total := c.summary.total + 1
          malformed := c.summary.malformed + 1 } })) ∧
    (∀ calls keep,
      (∀ k reports, (c.answers calls)[k]? = some reports → keep k = false →
        ∀ r ∈ reports, r.hasStatus "ok" = false) →
      c.answers (sift keep calls) = sift keep (c.answers calls)) ∧
    ∀ text blanks,
      (∀ number blank, blanks number = some blank → Bytes.isBlank blank = true ∧
        ∀ r ∈ (c.run text).1, r.line = number → r.hasStatus "ok" = false) →
      let others := (c.run text).1.filter fun r => (blanks r.line).isNone
      (c.run (Bytes.replaceLines blanks text)).1 = others ∧
        c.output (c.run (Bytes.replaceLines blanks text)).1 = c.output others := by
  refine ⟨fun number line => ⟨check_of_rejected, check_of_malformed⟩, ?_, ?_⟩
  · intro calls keep h
    exact answers_sift h (.refl c)
  · intro text blanks h others
    have hrefused : ∀ r ∈ (c.run text).1, (blanks r.line).isNone = false →
        r.hasStatus "ok" = false := by
      intro r hr hkeep
      obtain ⟨blank, hblank⟩ := Option.isSome_iff_exists.1 (by simpa using hkeep)
      exact (h r.line blank hblank).2 r hr rfl
    have hreports : (c.run (Bytes.replaceLines blanks text)).1 = others := by
      rw [run, numberedLines_replaceLines fun number blank hblank => (h number blank hblank).1]
      exact checkAll_filter (fun number => (blanks number).isNone) hrefused (.refl c)
    exact ⟨hreports, congrArg c.output hreports⟩

/-- A venue beyond the map is rejected, and a later one with its name is no duplicate, with the
first line or without it. -/
theorem refused_traceless_beyond_map :
    let far := Bytes.ofString "\x7b\"latitude\":89,\"longitude\":2,\"id\":\"7\"\x7d"
    let near := Bytes.ofString "\x7b\"latitude\":1,\"longitude\":2,\"id\":\"7\"\x7d"
    let text := far ++ Ascii.lineFeed :: near
    let c := ((new { Settings.default with requireMapPoint := true }).performAll
      [.check 4 (Bytes.ofString "[")]).2
    let calls := [Call.check 1 far, .run (Bytes.ofString "7"), .check 2 near]
    let keep : Nat → Bool := fun k => k == 2
    let blanks : Nat → Option Bytes := fun number =>
      if number = 1 then some [Ascii.tab] else none
    (c.check 1 far).2.summary = { total := 2, rejected := 1, malformed := 1 } ∧
      (c.check 1 (Bytes.ofString "7")).2.summary = { total := 2, malformed := 2 } ∧
      c.answers [.check 2 near] = sift keep (c.answers calls) ∧
      (c.run (Ascii.tab :: Ascii.lineFeed :: near)).1 =
        (c.run text).1.filter (fun r => (blanks r.line).isNone) := by
  intro far near text c calls keep blanks
  obtain ⟨hcheck, hcalls, hrun⟩ := refused_traceless c
  have hrejected : (c.check 1 far).1.hasStatus "rejected" = true := by decide +kernel
  have hmalformed : (c.check 1 (Bytes.ofString "7")).1.hasStatus "malformed" = true := by
    decide +kernel
  have hfar : (c.check 1 far).2.summary = { total := 2, rejected := 1, malformed := 1 } := by
    rw [(hcheck 1 far).1 hrejected]
    decide +kernel
  have hseven : (c.check 1 (Bytes.ofString "7")).2.summary = { total := 2, malformed := 2 } := by
    rw [(hcheck 1 (Bytes.ofString "7")).2 hmalformed]
    decide +kernel
  have hanswers : (((c.answers calls).take 2).flatten.all fun r => !r.hasStatus "ok") = true := by
    decide +kernel
  have hlines : ((c.run text).1.all fun r => r.line != 1 || !r.hasStatus "ok") = true := by
    decide +kernel
  refine ⟨hfar, hseven, hcalls calls keep ?_, (hrun text blanks ?_).1⟩
  · intro k reports hk hkeep r hr
    have hlt : k < 2 := by
      have hlength := (List.getElem?_eq_some_iff.1 hk).1
      have hthree : (c.answers calls).length = 3 := rfl
      have hne : k ≠ 2 := by simpa [keep] using hkeep
      omega
    have hmem : reports ∈ (c.answers calls).take 2 :=
      List.mem_of_getElem? ((List.getElem?_take_of_lt hlt).trans hk)
    simpa using List.all_eq_true.1 hanswers r (List.mem_flatten_of_mem hmem hr)
  · intro number blank hblank
    obtain ⟨rfl, rfl⟩ : number = 1 ∧ [Ascii.tab] = blank := by simpa [blanks] using hblank
    refine ⟨by decide, ?_⟩
    intro r hr hline
    simpa [hline] using List.all_eq_true.1 hlines r hr

end Checker

end PlaceFeed
