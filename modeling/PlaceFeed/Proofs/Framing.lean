import PlaceFeed.Proofs.WrittenReports

/-!
# What a run writes

`Checker.Transcribes` reads a list of lines from the first to the last: it skips the blank ones,
checks each of the others under its position, and writes what the report prints and a line feed.  It
knows nothing of the lists of numbered lines that `Checker.run` goes through.

* `Checker.transcribes_iff` : a run writes what its lines transcribe to, and leaves the same
  checker;
* `Checker.isLines_output` : in the compact layout the lines of an output are its reports, and
  `Checker.forall₂_isText` : each is a JSON text with the members of its report;
* `Checker.mem_map_line_run` : the numbers of the reports are the positions of the lines with text;
* `Checker.run_concat_lineFeed` : a line feed at the end of a text makes no difference;
* `Checker.run_framed` : **a run checks its lines one after the other and writes one record for
  each**.
-/

namespace PlaceFeed

namespace Bytes

/-- The line has a byte besides spaces, tabs and carriage returns. -/
def HasText (line : Bytes) : Prop :=
  ∃ b ∈ line, b ≠ Ascii.space ∧ b ≠ Ascii.tab ∧ b ≠ Ascii.carriageReturn

theorem isBlank_eq_false_iff {line : Bytes} : isBlank line = false ↔ HasText line := by
  simp [isBlank, HasText, List.all_eq_false, and_assoc]

theorem isBlank_iff {line : Bytes} : isBlank line = true ↔ ¬HasText line := by
  rw [← isBlank_eq_false_iff, Bool.not_eq_false]

end Bytes

namespace Checker

variable {c after : Checker} {number : Nat} {lines : List Bytes} {out : Bytes}

/-! ### Line by line -/

/-- From these **lines**, the first of which has this number, the checker writes a text, and is then
in another state. -/
inductive Transcribes : Checker → Nat → List Bytes → Bytes → Checker → Prop
  | done {c : Checker} {number : Nat} : Transcribes c number [] [] c
  | skip {c after : Checker} {number : Nat} {line : Bytes} {lines : List Bytes} {out : Bytes}
    (h : ¬line.HasText) (hrest : Transcribes c (number + 1) lines out after) :
    Transcribes c number (line :: lines) out after
  | check {c after : Checker} {number : Nat} {line : Bytes} {lines : List Bytes} {out : Bytes}
    (h : line.HasText)
    (hrest : Transcribes (c.check number line).2 (number + 1) lines out after) :
    Transcribes c number (line :: lines)
      ((c.check number line).1.toJson.print c.layout ++ Ascii.lineFeed :: out) after

theorem output_cons (c : Checker) (r : Report) (reports : List Report) :
    c.output (r :: reports) =
      r.toJson.print c.layout ++ Ascii.lineFeed :: c.output reports := by
  rw [output, List.flatMap_cons, List.append_assoc, List.singleton_append]
  rfl

theorem output_check (c : Checker) (number : Nat) (line : Bytes) :
    (c.check number line).2.output = c.output := rfl

theorem transcribes_checkAll (c : Checker) (number : Nat) (lines : List Bytes) :
    c.Transcribes number lines (c.output (c.checkAll (numberedFrom number lines)).1)
      (c.checkAll (numberedFrom number lines)).2 := by
  induction lines generalizing c number with
  | nil => exact .done
  | cons line lines ih =>
    cases hblank : Bytes.isBlank line with
    | true =>
      rw [numberedFrom_cons_of_isBlank hblank]
      exact .skip (Bytes.isBlank_iff.1 hblank) (ih c (number + 1))
    | false =>
      have hrest := ih (c.check number line).2 (number + 1)
      rw [output_check] at hrest
      rw [numberedFrom_cons_of_not_isBlank hblank, checkAll_cons, output_cons]
      exact .check (Bytes.isBlank_eq_false_iff.1 hblank) hrest

/-- There is only one way to go through some lines. -/
theorem Transcribes.eq {out' : Bytes} {after' : Checker} (h : c.Transcribes number lines out after)
    (h' : c.Transcribes number lines out' after') : out = out' ∧ after = after' := by
  induction h generalizing out' with
  | done =>
    cases h'
    exact ⟨rfl, rfl⟩
  | skip hskip _ ih =>
    cases h' with
    | skip _ hrest' => exact ih hrest'
    | check hcheck _ => exact absurd hcheck hskip
  | check hcheck _ ih =>
    cases h' with
    | skip hskip _ => exact absurd hcheck hskip
    | check _ hrest' =>
      obtain ⟨rfl, rfl⟩ := ih hrest'
      exact ⟨rfl, rfl⟩

/-- **A run writes what its lines transcribe to.** -/
theorem transcribes_iff {text : Bytes} :
    c.Transcribes 1 (Bytes.lines text) out after ↔
      c.output (c.run text).1 = out ∧ (c.run text).2 = after := by
  have hrun := c.transcribes_checkAll 1 (Bytes.lines text)
  rw [← numberedLines_eq] at hrun
  constructor
  · exact hrun.eq
  · rintro ⟨rfl, rfl⟩
    exact hrun

/-! ### The lines of an output -/

theorem lineFeed_not_mem_print (hpretty : c.settings.pretty = false) (r : Report) :
    Ascii.lineFeed ∉ r.toJson.print c.layout := by
  have hlayout : c.layout = .compact := by simp [layout, hpretty]
  rw [hlayout]
  exact (Json.noControls_print r.toJson).lineFeed_not_mem

theorem isLines_output (hpretty : c.settings.pretty = false) (reports : List Report) :
    Bytes.IsLines (c.output reports) (reports.map fun r => r.toJson.print c.layout) := by
  induction reports with
  | nil => exact .nil
  | cons r reports ih =>
    rw [output_cons, List.map_cons]
    exact .cons (lineFeed_not_mem_print hpretty r) ih

/-- The numbers of the reports are the positions of the lines that are not blank. -/
theorem mem_map_line_run {text : Bytes} {n : Nat} :
    n ∈ (c.run text).1.map Report.line ↔
      ∃ k line, n = k + 1 ∧ (Bytes.lines text)[k]? = some line ∧ line.HasText := by
  rw [run, map_line_checkAll, List.mem_map]
  constructor
  · rintro ⟨⟨line, n⟩, hmem, rfl⟩
    obtain ⟨hmem, hblank⟩ := List.mem_filter.1 hmem
    obtain ⟨hle, hline⟩ := List.mk_mem_zipIdx_iff_le_and_getElem?_sub.1 hmem
    refine ⟨n - 1, line, by omega, hline, Bytes.isBlank_eq_false_iff.1 ?_⟩
    simpa using hblank
  · rintro ⟨k, line, rfl, hline, htext⟩
    refine ⟨(line, k + 1), List.mem_filter.2 ⟨?_, ?_⟩, rfl⟩
    · exact List.mk_mem_zipIdx_iff_le_and_getElem?_sub.2 ⟨by omega, by simpa using hline⟩
    · simpa using Bytes.isBlank_eq_false_iff.2 htext

/-- In the compact layout the lines that a run writes are JSON texts, with the members of its
reports. -/
theorem forall₂_isText (hpretty : c.settings.pretty = false) (hc : c.registry.IsSized)
    {text : Bytes} (htext : text.length < 2 ^ 64) {records : List Bytes}
    (h : Bytes.IsLines (c.output (c.run text).1) records) :
    List.Forall₂ (fun record (r : Report) => Json.IsText record r.toJson.printed) records
      (c.run text).1 := by
  obtain rfl := (isLines_output hpretty (c.run text).1).lines_eq.symm.trans h.lines_eq
  rw [List.forall₂_map_left_iff, List.forall₂_same]
  exact fun r hr => isText_of_mem_run hc htext hr c.layout

/-- The bytes are a JSON text whose member `line` is this number. -/
def Names (record : Bytes) (number : Nat) : Prop :=
  ∃ v, Json.IsText record v ∧ v.member? "line" = some (.int number)

theorem names_of_isText {record : Bytes} {r : Report} (h : Json.IsText record r.toJson.printed) :
    Names record r.line := by
  refine ⟨_, h, ?_⟩
  rw [Json.member?_printed, Report.member?_line]
  rfl

/-! ### A final line feed -/

theorem run_concat_lineFeed (c : Checker) (text : Bytes) :
    c.run (text ++ [Ascii.lineFeed]) = c.run text := by
  have hpieces : (text ++ [Ascii.lineFeed]).splitOn Ascii.lineFeed =
      text.splitOn Ascii.lineFeed ++ [[]] :=
    List.splitOn_append_cons_self text []
  rw [run, run, numberedLines_eq_splitOn, numberedLines_eq_splitOn, hpieces,
    numberedFrom_concat_of_isBlank rfl]

/-- **A run checks its lines one after the other and writes one record for each.**  What it writes,
and the checker after it, are those of the lines of the text.  In the compact layout no record holds
a line feed, so the lines that it writes are the records, and these name the positions of the lines
that are not blank, in their order.  They do so as JSON texts: a reader of the output finds in each
line the members of its record and, as the member `line`, the position.  Line numbers are words of
64 bits here, for a reader takes no longer ones for integers: a text in memory has no more lines,
and a checker that was given no other numbers has no others in its registry (`isSized_performAll`).
A line feed at the end of the text makes no difference. -/
theorem run_framed (c : Checker) (text : Bytes) :
    let reports := (c.run text).1
    ((∀ lines, Bytes.IsLines text lines ↔ Bytes.lines text = lines) ∧
      ∀ out after, c.Transcribes 1 (Bytes.lines text) out after ↔
        c.output reports = out ∧ (c.run text).2 = after) ∧
    (c.settings.pretty = false →
      (∀ r ∈ reports, Ascii.lineFeed ∉ r.toJson.print c.layout) ∧
      Bytes.IsLines (c.output reports) (reports.map fun r => r.toJson.print c.layout) ∧
      ∃ positions : List Nat,
        (reports.map fun r => r.toJson.member? "line") = positions.map (fun n => some (.int n)) ∧
        positions.Pairwise (· < ·) ∧
        (∀ n, n ∈ positions ↔
          ∃ k line, n = k + 1 ∧ (Bytes.lines text)[k]? = some line ∧ line.HasText) ∧
        (c.registry.IsSized → text.length < 2 ^ 64 →
          ∀ records, Bytes.IsLines (c.output reports) records →
            List.Forall₂ (fun record r => Json.IsText record r.toJson.printed) records reports ∧
              List.Forall₂ Names records positions)) ∧
    c.output (c.run (text ++ [Ascii.lineFeed])).1 = c.output reports ∧
      (c.run (text ++ [Ascii.lineFeed])).2 = (c.run text).2 := by
  intro reports
  refine ⟨⟨fun lines => Bytes.isLines_iff, fun out after => transcribes_iff⟩, ?_, ?_⟩
  · intro hpretty
    refine ⟨fun r _ => lineFeed_not_mem_print hpretty r, isLines_output hpretty reports, ?_⟩
    refine ⟨reports.map Report.line, ?_, ?_, fun n => mem_map_line_run, ?_⟩
    · simp [Report.member?_line]
    · exact List.pairwise_map.2 (pairwise_line_run c text)
    · intro hc htext records hrecords
      have htexts := forall₂_isText hpretty hc htext hrecords
      rw [List.forall₂_map_right_iff]
      exact ⟨htexts, htexts.imp fun record r => names_of_isText⟩
  · rw [run_concat_lineFeed]
    exact ⟨rfl, rfl⟩

/-- Two lines of four are blank, and the title of the first venue has a line feed, which no record
does.  The place was met before, at the greatest line number there is. -/
theorem run_framed_title :
    let first :=
      Bytes.ofString "\x7b\"latitude\":1,\"longitude\":2,\"title\":\"a\\nb\",\"id\":\"7\"\x7d"
    let last := Bytes.ofString "\x7b\"longitude\":2,\"latitude\":1,\"id\":\"7\"\x7d"
    let text := Ascii.lineFeed :: (first ++ Ascii.lineFeed :: Ascii.tab :: Ascii.lineFeed :: last)
    let c := ((new Settings.default).performAll [.check (2 ^ 64 - 1) last]).2
    let reports := (c.run text).1
    let records := reports.map fun r => r.toJson.print c.layout
    let title (r : Report) : Bytes := match r.judgement with
      | .accepted v => v.title
      | _ => []
    reports.map (fun r => (r.line, title r, r.samePlaceAs)) =
        [(2, [97, Ascii.lineFeed, 98], some (2 ^ 64 - 1)), (4, [], some (2 ^ 64 - 1))] ∧
      (Bytes.IsLines (c.output reports) records ∧ List.Forall₂ Names records [2, 4]) ∧
      c.Transcribes 1 (Bytes.lines text) (c.output reports) (c.run text).2 ∧
      c.output (c.run (text ++ [Ascii.lineFeed])).1 = c.output reports := by
  intro first last text c reports records title
  have hpretty : c.settings.pretty = false := rfl
  have hc : c.registry.IsSized := by
    refine isSized_performAll Settings.default (List.forall_mem_singleton.2 ?_)
    exact List.forall_mem_singleton.2 (by decide)
  obtain ⟨⟨-, htranscribes⟩, hcompact, hfinal, -⟩ := run_framed c text
  obtain ⟨-, hlines, positions, hmembers, -, -, hread⟩ := hcompact hpretty
  have hpositions : positions = [2, 4] := by
    have hline : reports.map Report.line = [2, 4] := by decide +kernel
    have hinjective : Function.Injective fun n : Nat => some (Json.int n) := by
      intro m n h
      simpa using h
    refine List.map_injective_iff.2 hinjective ?_
    rw [← hmembers, ← hline, List.map_map]
    exact List.map_congr_left fun r _ => Report.member?_line r
  rw [hpositions] at hread
  exact ⟨by decide +kernel, ⟨hlines, (hread hc (by decide) records hlines).2⟩,
    (htranscribes _ _).2 ⟨rfl, rfl⟩, hfinal⟩

end Checker

end PlaceFeed
