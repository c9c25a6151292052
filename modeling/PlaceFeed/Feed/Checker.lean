import PlaceFeed.Feed.Report
import PlaceFeed.Settings

/-!
# Checking a feed

A `Checker` goes through a feed line by line.  `Checker.check` judges one line and is the only
operation that changes the state: the counts of the summary, and the registry of the places met.
A line that is not accepted changes nothing but its own counts.

`Checker.run` checks the lines of a text that are not blank, numbered from one, and
`Checker.output` prints the reports, each followed by a line feed.  Summary and registry go on from
one run to the next.
-/

namespace PlaceFeed

/-- How many lines were checked, and with what result. -/
structure Summary where
  total : Nat := 0
  accepted : Nat := 0
  rejected : Nat := 0
  malformed : Nat := 0
  /-- Accepted venues at a place that was met before. -/
  duplicates : Nat := 0
deriving DecidableEq

/-- The summary with one more report. -/
def Summary.add (s : Summary) (r : Report) : Summary :=
  match r.judgement with
  | .malformed _ => { s with total := s.total + 1, malformed := s.malformed + 1 }
  | .rejected _ => { s with total := s.total + 1, rejected := s.rejected + 1 }
  | .accepted _ =>
    { s with
      total := s.total + 1
      accepted := s.accepted + 1
      duplicates := s.duplicates + if r.samePlaceAs.isSome then 1 else 0 }

/-- What a checker has counted and met so far. -/
structure Checker where
  settings : Settings
  summary : Summary
  registry : Registry
deriving DecidableEq

namespace Checker

/-- A checker that has seen nothing. -/
def new (settings : Settings) : Checker := ⟨settings, {}, .empty⟩

/-! ### One line -/

/-- The report on a judged line, and the checker after it. -/
def record (c : Checker) (number : Nat) (j : Judgement) : Report × Checker :=
  let report : Report := ⟨number, j, j.place?.bind c.registry.find?⟩
  let registry := match j.place? with
    | some place => c.registry.note place number
    | none => c.registry
  (report, { c with summary := c.summary.add report, registry })

/-- The **report on a line**, and the checker after it. -/
def check (c : Checker) (number : Nat) (line : Bytes) : Report × Checker :=
  c.record number (Judgement.ofLine c.settings.requireMapPoint line)

/-! ### Whole texts -/

/-- The work of `checkAll`, with the reports so far, last one first. -/
def checkAllAux (c : Checker) (done : List Report) : List (Bytes × Nat) → List Report × Checker
  | [] => (done.reverse, c)
  | (line, number) :: rest =>
    let checked := c.check number line
    checkAllAux checked.2 (checked.1 :: done) rest

/-- The reports on some numbered lines, one after the other. -/
def checkAll (c : Checker) (lines : List (Bytes × Nat)) : List Report × Checker :=
  checkAllAux c [] lines

theorem checkAllAux_eq (c : Checker) (done : List Report) (lines : List (Bytes × Nat)) :
    checkAllAux c done lines = (done.reverse ++ (c.checkAll lines).1, (c.checkAll lines).2) := by
  induction lines generalizing c done with
  | nil => simp [checkAll, checkAllAux]
  | cons l rest ih =>
    rw [checkAll, checkAllAux, checkAllAux, ih _ (_ :: done), ih _ [_]]
    simp

@[simp] theorem checkAll_nil (c : Checker) : c.checkAll [] = ([], c) := rfl

theorem checkAll_cons (c : Checker) (line : Bytes) (number : Nat) (rest : List (Bytes × Nat)) :
    c.checkAll ((line, number) :: rest) =
      ((c.check number line).1 :: ((c.check number line).2.checkAll rest).1,
        ((c.check number line).2.checkAll rest).2) := by
  rw [checkAll, checkAllAux, checkAllAux_eq]
  rfl

/-- The lines of a text that are checked, with their numbers. -/
def numberedLines (text : Bytes) : List (Bytes × Nat) :=
  ((Bytes.lines text).zipIdx 1).filter fun l => !Bytes.isBlank l.1

/-- The **reports on a text**, and the checker after it. -/
def run (c : Checker) (text : Bytes) : List Report × Checker := c.checkAll (numberedLines text)

/-- The layout of the reports. -/
def layout (c : Checker) : Json.Layout := if c.settings.pretty then .indented else .compact

/-- Some reports as they are printed. -/
def output (c : Checker) (reports : List Report) : Bytes :=
  reports.flatMap fun r => r.toJson.print c.layout ++ [Ascii.lineFeed]

/-! ### Remarks -/

/-- The summary in words. -/
def summaryRemark (s : Summary) : Log.Message :=
  ⟨.info, Bytes.ofString "📊 Checked " ++ Bytes.ofNat s.total
    ++ Bytes.ofString " records: " ++ Bytes.ofNat s.accepted
    ++ Bytes.ofString " accepted, " ++ Bytes.ofNat s.rejected
    ++ Bytes.ofString " rejected, " ++ Bytes.ofNat s.malformed
    ++ Bytes.ofString " malformed, " ++ Bytes.ofNat s.duplicates
    ++ Bytes.ofString " duplicates"⟩

/-- What there is to say about a text, when `after` is the summary after it. -/
def runRemarks (text : Bytes) (after : Summary) : List Log.Message :=
  (numberedLines text).flatMap (fun l => Record.remarks l.2 l.1) ++ [summaryRemark after]

end Checker

end PlaceFeed
