import PlaceFeed.Feed.Checker
import Mathlib.Data.List.Basic

/-!
# Histories of a checker

A checker is asked for single lines and for whole texts, in any order (`Checker.Call`).  A run is
nothing but its lines one after the other, so a history comes to checking a list of numbered lines
(`Checker.performAll_eq`), and what holds along every history is shown for `Checker.checkAll`, by
induction on the lines.
-/

namespace PlaceFeed

namespace Checker

variable (c : Checker)

/-! ### Checking some lines -/

theorem check_settings (number : Nat) (line : Bytes) :
    (c.check number line).2.settings = c.settings := rfl

theorem check_judgement (number : Nat) (line : Bytes) :
    (c.check number line).1.judgement = Judgement.ofLine c.settings.requireMapPoint line := rfl

theorem check_samePlaceAs (number : Nat) (line : Bytes) :
    (c.check number line).1.samePlaceAs =
      (c.check number line).1.judgement.place?.bind c.registry.find? := rfl

theorem checkAll_append (lines₁ lines₂ : List (Bytes × Nat)) :
    c.checkAll (lines₁ ++ lines₂) =
      ((c.checkAll lines₁).1 ++ ((c.checkAll lines₁).2.checkAll lines₂).1,
        ((c.checkAll lines₁).2.checkAll lines₂).2) := by
  induction lines₁ generalizing c with
  | nil => rfl
  | cons l lines₁ ih =>
    obtain ⟨line, number⟩ := l
    simp only [List.cons_append, checkAll_cons, ih]

theorem checkAll_settings (lines : List (Bytes × Nat)) :
    (c.checkAll lines).2.settings = c.settings := by
  induction lines generalizing c with
  | nil => rfl
  | cons l lines ih =>
    obtain ⟨line, number⟩ := l
    rw [checkAll_cons, ih, check_settings]

/-- There is one report a line, with its number. -/
theorem map_line_checkAll (lines : List (Bytes × Nat)) :
    (c.checkAll lines).1.map Report.line = lines.map Prod.snd := by
  induction lines generalizing c with
  | nil => rfl
  | cons l lines ih =>
    obtain ⟨line, number⟩ := l
    rw [checkAll_cons, List.map_cons, List.map_cons, ih]
    rfl

/-- The judgement in a report is that of the line, whatever was checked before. -/
theorem map_judgement_checkAll (lines : List (Bytes × Nat)) :
    (c.checkAll lines).1.map Report.judgement =
      lines.map fun l => Judgement.ofLine c.settings.requireMapPoint l.1 := by
  induction lines generalizing c with
  | nil => rfl
  | cons l lines ih =>
    obtain ⟨line, number⟩ := l
    rw [checkAll_cons, List.map_cons, List.map_cons, ih, check_settings]
    rfl

/-! ### Histories -/

/-- What a checker can be asked to do. -/
inductive Call
  | check (number : Nat) (line : Bytes)
  | run (text : Bytes)

/-- The lines that a call checks, with their numbers. -/
def Call.lines : Call → List (Bytes × Nat)
  | check number line => [(line, number)]
  | run text => numberedLines text

/-- The reports of a call, and the checker after it. -/
def perform : Call → List Report × Checker
  | .check number line => ([(c.check number line).1], (c.check number line).2)
  | .run text => c.run text

/-- The reports of some calls, one after the other, and the checker after them. -/
def performAll (c : Checker) : List Call → List Report × Checker
  | [] => ([], c)
  | call :: calls =>
    ((c.perform call).1 ++ ((c.perform call).2.performAll calls).1,
      ((c.perform call).2.performAll calls).2)

theorem perform_eq (call : Call) : c.perform call = c.checkAll call.lines := by
  cases call with
  | check number line => rw [Call.lines, checkAll_cons]; rfl
  | run text => rfl

/-- Some calls come to checking all of their lines. -/
theorem performAll_eq (calls : List Call) :
    c.performAll calls = c.checkAll (calls.flatMap Call.lines) := by
  induction calls generalizing c with
  | nil => rfl
  | cons call calls ih =>
    rw [performAll, List.flatMap_cons, checkAll_append, perform_eq, ih]

theorem performAll_settings (calls : List Call) :
    (c.performAll calls).2.settings = c.settings := by
  rw [performAll_eq, checkAll_settings]

end Checker

end PlaceFeed
