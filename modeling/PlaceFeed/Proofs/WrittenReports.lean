import PlaceFeed.Proofs.Acceptance
import PlaceFeed.Proofs.Cleaning
import PlaceFeed.Proofs.Duplicates
import PlaceFeed.Proofs.Lines
import PlaceFeed.Proofs.ReadingBack

/-!
# Written reports

What a report prints can be read back: its texts are literals or clean, its other numbers have 32
bits, and the two line numbers that it may name have 64.  The last is so because a text has no more
lines than bytes, and a registry no other numbers than those of the lines that were checked
(`Registry.IsSized`).

* `Report.isPrintable_toJson` : a report is printable, if its line numbers have 64 bits;
* `Checker.isSized_checkAll` : **this stays so**, line after line, with `Checker.isSized_check` as
  its step, and so along every history (`Checker.isSized_performAll`);
* `Checker.isText_of_mem_run` : **what a run writes for a report is a JSON text** with the members
  of the report.
-/

namespace PlaceFeed

/-! ### Printable parts -/

namespace Json

theorem isPrintable_string (s : String) : (string s).IsPrintable := .str ⟨s.toList, rfl⟩

theorem isPrintable_object {members : List (String × Json)}
    (h : ∀ m ∈ members, m.2.IsPrintable) : (object members).IsPrintable :=
  .obj (List.forall_mem_map.2 fun m _ => ⟨m.1.toList, rfl⟩) (List.forall_mem_map.2 h)

theorem isPrintable_natCast {n : Nat} (h : n < 2 ^ 64) : (int n).IsPrintable :=
  .int (by omega) (by omega)

theorem isPrintable_int32 (n : Int32) : (int n.toInt).IsPrintable := by
  have hlo := n.le_toInt
  have hhi := n.toInt_lt
  exact .int (by omega) (by omega)

end Json

open Json (isPrintable_string isPrintable_object isPrintable_natCast isPrintable_int32)

theorem GeoPoint.isPrintable_toJson (g : GeoPoint) : g.toJson.IsPrintable := by
  cases g with
  | empty => exact isPrintable_object (List.forall_mem_singleton.2 (isPrintable_string _))
  | point flags latitude longitude radius =>
    refine isPrintable_object (List.forall_mem_append.2 ⟨?_, ?_⟩)
    · simp only [List.forall_mem_cons]
      exact ⟨isPrintable_string _, isPrintable_int32 flags, .float _, .float _, by simp⟩
    · cases radius with
      | none => exact List.forall_mem_nil _
      | some r => exact List.forall_mem_singleton.2 (isPrintable_int32 r)

theorem Coordinates.isPrintable_toJson (c : Coordinates) : c.toJson.IsPrintable := by
  refine isPrintable_object ?_
  simp only [List.forall_mem_cons]
  exact ⟨.float _, .float _, .float _, by simp⟩

namespace Venue

variable {v : Venue}

/-- The texts of the venue are well-formed. -/
def HasTexts (v : Venue) : Prop := ∀ text ∈ v.texts, ∃ cs, Scalars.encode cs = text

theorem HasTexts.isPrintable_toMedia (h : v.HasTexts) : v.toMedia.toJson.IsPrintable := by
  simp only [HasTexts, texts, List.forall_mem_cons] at h
  obtain ⟨ht, ha, hp, hi, hk, -⟩ := h
  refine isPrintable_object ?_
  simp only [List.forall_mem_cons]
  exact ⟨isPrintable_string _, GeoPoint.isPrintable_toJson _, .str ht, .str ha, .str hp, .str hi,
    .str hk, by simp⟩

theorem HasTexts.isPrintable_toListing (h : v.HasTexts) {l : Listing} (hl : v.toListing = some l) :
    l.toJson.IsPrintable := by
  obtain ⟨c, -, rfl⟩ := Option.map_eq_some_iff.1 hl
  simp only [HasTexts, texts, List.forall_mem_cons] at h
  obtain ⟨ht, ha, hp, hi, hk, -⟩ := h
  refine isPrintable_object ?_
  simp only [List.forall_mem_cons]
  exact ⟨Coordinates.isPrintable_toJson c, .str ht, .str ha, .str hp, .str hi, .str hk, by simp⟩

/-- The texts of a venue that is accepted are clean. -/
theorem hasTexts_of_accepted {requireMapPoint : Bool} {line : Bytes}
    (h : Judgement.ofLine requireMapPoint line = .accepted v) : v.HasTexts := by
  obtain ⟨record, -, hvalid, -⟩ := Judgement.ofLine_eq_accepted.1 h
  intro text htext
  obtain ⟨raw, hraw⟩ := exists_clean_of_validate hvalid text htext
  obtain ⟨cs, hcs, -⟩ := Scalars.isSafe_of_clean hraw
  exact ⟨cs, hcs.symm⟩

end Venue

/-! ### Reports -/

namespace Report

variable {r : Report}

/-- The line numbers in a report have 64 bits. -/
structure IsSized (r : Report) : Prop where
  line : r.line < 2 ^ 64
  samePlaceAs : ∀ n ∈ r.samePlaceAs, n < 2 ^ 64

theorem IsSized.isPrintable_details (h : r.IsSized)
    (htexts : ∀ v, r.judgement = .accepted v → v.HasTexts) :
    ∀ m ∈ r.details, m.2.IsPrintable := by
  cases hj : r.judgement with
  | malformed f =>
    rw [details, hj]
    exact List.forall_mem_singleton.2 (isPrintable_string _)
  | rejected e =>
    rw [details, hj]
    simp only [List.forall_mem_cons]
    exact ⟨isPrintable_string _, isPrintable_string _, by simp⟩
  | accepted v =>
    have hv := htexts v hj
    rw [r.details_of_accepted hj]
    refine List.forall_mem_append.2 ⟨List.forall_mem_append.2 ⟨?_, ?_⟩, ?_⟩
    · exact List.forall_mem_singleton.2 hv.isPrintable_toMedia
    · cases hl : v.toListing with
      | none => exact List.forall_mem_nil _
      | some l => exact List.forall_mem_singleton.2 (hv.isPrintable_toListing hl)
    · cases hn : r.samePlaceAs with
      | none => exact List.forall_mem_nil _
      | some n => exact List.forall_mem_singleton.2 (isPrintable_natCast (h.samePlaceAs n hn))

theorem isPrintable_toJson (h : r.IsSized)
    (htexts : ∀ v, r.judgement = .accepted v → v.HasTexts) : r.toJson.IsPrintable := by
  refine isPrintable_object (List.forall_mem_append.2 ⟨?_, h.isPrintable_details htexts⟩)
  simp only [List.forall_mem_cons]
  exact ⟨isPrintable_natCast h.line, isPrintable_string _, by simp⟩

end Report

/-! ### Line numbers -/

/-- The line numbers in a registry have 64 bits. -/
def Registry.IsSized (registry : Registry) : Prop :=
  ∀ place n, registry.find? place = some n → n < 2 ^ 64

theorem Registry.isSized_empty : empty.IsSized := by
  rintro place n ⟨⟩

/-- A text has no more lines than bytes. -/
theorem Bytes.length_lines_le (text : Bytes) : (lines text).length ≤ text.length := by
  induction text using lines_induction with
  | last line h =>
    by_cases hne : line = []
    · rw [hne]
      exact Nat.le_refl 0
    · rw [lines_of_not_mem h hne]
      exact List.length_pos_iff.2 hne
  | cons line text h ih =>
    rw [lines_cons h, List.length_cons, List.length_append, List.length_cons]
    omega

namespace Checker

variable {c : Checker} {text : Bytes}

theorem lt_of_mem_numberedLines (h : text.length < 2 ^ 64) :
    ∀ l ∈ numberedLines text, l.2 < 2 ^ 64 := by
  rintro ⟨line, number⟩ hl
  have hlt := List.snd_lt_add_of_mem_zipIdx (List.mem_of_mem_filter hl)
  have hle := Bytes.length_lines_le text
  omega

theorem isSized_check (hc : c.registry.IsSized) {number : Nat} (hnumber : number < 2 ^ 64)
    (line : Bytes) :
    (c.check number line).1.IsSized ∧ (c.check number line).2.registry.IsSized := by
  constructor
  · refine ⟨hnumber, ?_⟩
    intro n hn
    rw [check_samePlaceAs] at hn
    obtain ⟨place, -, hfind⟩ := Option.bind_eq_some_iff.1 hn
    exact hc place n hfind
  · intro place n hn
    rw [find?_check, Option.or_eq_some_iff] at hn
    obtain hold | ⟨-, hnew⟩ := hn
    · exact hc place n hold
    · rw [firstLine_singleton] at hnew
      split at hnew
      · obtain rfl := Option.some.inj hnew
        exact hnumber
      · cases hnew

/-- **Line numbers keep their size**, in the reports and in the registry. -/
theorem isSized_checkAll (hc : c.registry.IsSized) {lines : List (Bytes × Nat)}
    (hlines : ∀ l ∈ lines, l.2 < 2 ^ 64) :
    (∀ r ∈ (c.checkAll lines).1, r.IsSized) ∧ (c.checkAll lines).2.registry.IsSized := by
  induction lines generalizing c with
  | nil => exact ⟨List.forall_mem_nil _, hc⟩
  | cons l lines ih =>
    obtain ⟨line, number⟩ := l
    obtain ⟨hnumber, hlines⟩ := List.forall_mem_cons.1 hlines
    obtain ⟨hreport, hregistry⟩ := isSized_check hc hnumber line
    obtain ⟨hreports, hrest⟩ := ih hregistry hlines
    rw [checkAll_cons]
    exact ⟨List.forall_mem_cons.2 ⟨hreport, hreports⟩, hrest⟩

/-- The registry of a checker holds numbers of 64 bits, if it was asked for no others. -/
theorem isSized_performAll (settings : Settings) {history : List Call}
    (h : ∀ call ∈ history, ∀ l ∈ call.lines, l.2 < 2 ^ 64) :
    ((new settings).performAll history).2.registry.IsSized := by
  rw [performAll_eq]
  refine (isSized_checkAll Registry.isSized_empty ?_).2
  intro l hl
  obtain ⟨call, hcall, hl⟩ := List.mem_flatMap.1 hl
  exact h call hcall l hl

theorem isPrintable_of_mem_run (hc : c.registry.IsSized) (htext : text.length < 2 ^ 64) {r : Report}
    (hr : r ∈ (c.run text).1) : r.toJson.IsPrintable := by
  have hsized := (isSized_checkAll hc (lt_of_mem_numberedLines htext)).1 r hr
  have hjudgement := List.mem_map_of_mem (f := Report.judgement) hr
  rw [run, map_judgement_checkAll] at hjudgement
  obtain ⟨l, -, hl⟩ := List.mem_map.1 hjudgement
  refine Report.isPrintable_toJson hsized ?_
  intro v hv
  exact Venue.hasTexts_of_accepted (hl.trans hv)

/-- **What a run writes for a report is a JSON text**, and a reader finds in it the members of the
report. -/
theorem isText_of_mem_run (hc : c.registry.IsSized) (htext : text.length < 2 ^ 64) {r : Report}
    (hr : r ∈ (c.run text).1) (layout : Json.Layout) :
    Json.IsText (r.toJson.print layout) r.toJson.printed :=
  Json.isText_print (isPrintable_of_mem_run hc htext hr) layout

end Checker

end PlaceFeed
