import PlaceFeed.Proofs.Accounting
import Mathlib.Data.List.Perm.Basic

/-!
# The order of a feed

Which of two venues at one place is the duplicate depends on which line comes first.  How many there
are does not: each accepted venue with a name is either a duplicate or a new place
(`Checker.size_checkAll`), and both the accepted venues and the places in the end are the same in
every order.

* `Report.toJson_without` : but for its line and the line that it names, a record depends on the
  judgement alone;
* `Checker.perm_judgement` : the judgements in another order are those of the lines in that order;
* `Checker.perm_places` : the places known in the end are the same;
* `Checker.order_invariance` : so **the order of a feed changes neither the summary, nor the places,
  nor the records** but for the lines that they name.
-/

namespace PlaceFeed

/-! ### Records without their lines -/

namespace Json

/-- The value without its members with these keys, if it is an object. -/
def without (keys : List String) : Json → Json
  | obj members => obj (members.filter fun m => !(keys.map Bytes.ofString).contains m.1)
  | v => v

theorem without_object (keys : List String) (members : List (String × Json)) :
    (object members).without keys = object (members.filter fun m => !keys.contains m.1) := by
  have hkey : ∀ key, (keys.map Bytes.ofString).contains (Bytes.ofString key) =
      keys.contains key := by
    intro key
    rw [Bool.eq_iff_iff, List.contains_iff_mem, List.contains_iff_mem,
      List.mem_map_of_injective Bytes.ofString_injective]
  rw [object, without, List.filter_map, object]
  simp only [Function.comp_def, hkey]

end Json

/-- The report on a judgement alone, at no line and with nothing before it. -/
def Judgement.report (j : Judgement) : Report := ⟨0, j, none⟩

namespace Report

variable (r : Report)

/-- The keys of the members that tell a line. -/
def lineKeys : List String := ["line", "same_place_as"]

/-- Without the lines in it, a record depends on the judgement alone. -/
theorem toJson_without :
    r.toJson.without lineKeys = r.judgement.report.toJson.without lineKeys := by
  rw [toJson, toJson, Json.without_object, Json.without_object]
  obtain ⟨line, j, samePlaceAs⟩ := r
  cases j with
  | malformed f | rejected e => rfl
  | accepted v =>
    simp only [details, status, Judgement.report]
    cases v.toListing <;> cases samePlaceAs <;> rfl

theorem hasStatus_report (status : String) :
    r.judgement.report.hasStatus status = r.hasStatus status := by
  rw [hasStatus_eq, hasStatus_eq]
  rfl

end Report

/-! ### Lines in another order -/

namespace Checker

variable {c : Checker} {lines₁ lines₂ : List (Bytes × Nat)}

/-- The judgements on some lines in another order. -/
theorem perm_judgement (h : (lines₁.map Prod.fst).Perm (lines₂.map Prod.fst)) :
    ((c.checkAll lines₁).1.map Report.judgement).Perm
      ((c.checkAll lines₂).1.map Report.judgement) := by
  have hjudgement := h.map (Judgement.ofLine c.settings.requireMapPoint)
  rw [List.map_map, List.map_map] at hjudgement
  rw [map_judgement_checkAll, map_judgement_checkAll]
  exact hjudgement

/-- What depends on the judgement is counted alike in every order. -/
theorem countP_judgement (h : (lines₁.map Prod.fst).Perm (lines₂.map Prod.fst))
    (p : Judgement → Bool) :
    (c.checkAll lines₁).1.countP (fun r => p r.judgement) =
      (c.checkAll lines₂).1.countP (fun r => p r.judgement) := by
  have hcount := (perm_judgement (c := c) h).countP_eq p
  rwa [List.countP_map, List.countP_map] at hcount

theorem exists_isAt_iff {reports : List Report} {place : PlaceId} :
    (∃ r ∈ reports, r.isAt place = true) ↔
      some place ∈ (reports.map Report.judgement).map Judgement.place? := by
  simp [Report.isAt]

/-- The places that are known in the end. -/
theorem perm_places (hc : c.registry.places.Nodup)
    (h : (lines₁.map Prod.fst).Perm (lines₂.map Prod.fst)) :
    (c.checkAll lines₁).2.registry.places.Perm (c.checkAll lines₂).2.registry.places := by
  rw [List.perm_ext_iff_of_nodup (nodup_places_checkAll c hc lines₁)
    (nodup_places_checkAll c hc lines₂)]
  intro place
  rw [mem_places_checkAll, mem_places_checkAll, exists_isAt_iff, exists_isAt_iff,
    ((perm_judgement h).map Judgement.place?).mem_iff]

/-- The number of duplicates is what the new places leave of the venues with a name. -/
theorem countP_namesLine (hc : c.registry.places.Nodup)
    (h : (lines₁.map Prod.fst).Perm (lines₂.map Prod.fst)) :
    (c.checkAll lines₁).1.countP (·.namesLine) = (c.checkAll lines₂).1.countP (·.namesLine) := by
  have hsize : (c.checkAll lines₁).2.registry.size = (c.checkAll lines₂).2.registry.size := by
    have hlength := (perm_places hc h).length_eq
    rwa [Registry.places, Registry.places, List.length_map, List.length_map] at hlength
  have hnamed := countP_judgement (c := c) h fun j => j.place?.isSome
  have hfirst := c.size_checkAll lines₁
  have hsecond := c.size_checkAll lines₂
  omega

theorem summary_of_perm (hc : c.registry.places.Nodup)
    (h : (lines₁.map Prod.fst).Perm (lines₂.map Prod.fst)) :
    (c.checkAll lines₁).2.summary = (c.checkAll lines₂).2.summary := by
  have htotal : (c.checkAll lines₁).1.length = (c.checkAll lines₂).1.length := by
    have hlength := (perm_judgement (c := c) h).length_eq
    rwa [List.length_map, List.length_map] at hlength
  have hstatus : ∀ status, (c.checkAll lines₁).1.countP (·.hasStatus status) =
      (c.checkAll lines₂).1.countP (·.hasStatus status) := by
    intro status
    have hcount := countP_judgement (c := c) h fun j => j.report.hasStatus status
    simpa only [Report.hasStatus_report] using hcount
  rw [summary_checkAll, summary_checkAll, Summary.foldl_add, Summary.foldl_add, htotal,
    hstatus, hstatus, hstatus, countP_namesLine hc h]

/-- **The order of a feed does not matter.**  Whatever a checker was asked to do before, the same
lines in another order, under any numbers, lead to the same summary and the same known places, and
to the same records, in some order, but for the lines in them. -/
theorem order_invariance (settings : Settings) (history : List Call)
    (lines₁ lines₂ : List (Bytes × Nat)) :
    (lines₁.map Prod.fst).Perm (lines₂.map Prod.fst) →
      let checker := ((new settings).performAll history).2
      let after₁ := checker.checkAll lines₁
      let after₂ := checker.checkAll lines₂
      after₁.2.summary = after₂.2.summary ∧
        (∀ place, place ∈ after₁.2.registry.places ↔ place ∈ after₂.2.registry.places) ∧
        (after₁.1.map fun r => r.toJson.without Report.lineKeys).Perm
          (after₂.1.map fun r => r.toJson.without Report.lineKeys) := by
  intro h checker after₁ after₂
  have hc : checker.registry.places.Nodup := by
    change ((new settings).performAll history).2.registry.places.Nodup
    rw [performAll_eq]
    exact nodup_places_checkAll (new settings) List.nodup_nil _
  refine ⟨summary_of_perm hc h, fun place => (perm_places hc h).mem_iff, ?_⟩
  have hrecords := (perm_judgement (c := checker) h).map
    fun j => j.report.toJson.without Report.lineKeys
  rw [List.map_map, List.map_map] at hrecords
  rw [funext Report.toJson_without]
  exact hrecords

/-- Two venues at one place, with a line between them that is no record, and all of it in another
order under other numbers. -/
theorem order_invariance_three :
    let first := Bytes.ofString
      "\x7b\"latitude\":1,\"longitude\":2,\"id\":\"7\",\"title\":\"A\"\x7d"
    let second := Bytes.ofString
      "\x7b\"latitude\":3,\"longitude\":4,\"id\":\" 7\",\"title\":\"B\"\x7d"
    let lines₁ := [(first, 1), (Bytes.ofString "[", 2), (second, 3)]
    let lines₂ := [(second, 8), (first, 5), (Bytes.ofString "[", 5)]
    let checker := ((new Settings.default).performAll [.run (Bytes.ofString "0")]).2
    let after₁ := checker.checkAll lines₁
    let after₂ := checker.checkAll lines₂
    (lines₁.map Prod.fst).Perm (lines₂.map Prod.fst) ∧
      after₁.1.map Report.samePlaceAs = [none, none, some 1] ∧
      after₂.1.map Report.samePlaceAs = [none, some 8, none] ∧
      after₁.2.summary = after₂.2.summary ∧
      (∀ place, place ∈ after₁.2.registry.places ↔ place ∈ after₂.2.registry.places) ∧
      (after₁.1.map fun r => r.toJson.without Report.lineKeys).Perm
        (after₂.1.map fun r => r.toJson.without Report.lineKeys) := by
  intro first second lines₁ lines₂ checker after₁ after₂
  have h : (lines₁.map Prod.fst).Perm (lines₂.map Prod.fst) := by decide +kernel
  have hlines₁ : after₁.1.map Report.samePlaceAs = [none, none, some 1] := by decide +kernel
  have hlines₂ : after₂.1.map Report.samePlaceAs = [none, some 8, none] := by decide +kernel
  refine ⟨h, hlines₁, hlines₂, ?_⟩
  dsimp only [after₁, after₂, checker]
  exact order_invariance Settings.default [.run (Bytes.ofString "0")] lines₁ lines₂ h

end Checker

end PlaceFeed
