import PlaceFeed.Proofs.Duplicates

/-!
# Accounting

The summary of a checker counts what was reported, and its registry holds what was accepted; neither
keeps the reports.  `Checker.Accounts` says what both have to do with the records that were printed,
read by their members alone.

* `Checker.summary_checkAll` : the summary is the fold of `Summary.add` over the reports, whatever
  the registry was;
* `Checker.size_check` : **each accepted venue with a name is either a duplicate or a new place**;
  over some lines this is `Checker.size_checkAll`;
* `Checker.mem_places_checkAll` : the places of a registry are those that it had before, and those
  of the venues accepted since;
* `Checker.accounts_performAll` : so after every history, and after every run, the accounts are
  right.
-/

namespace PlaceFeed

/-! ### Printed records -/

namespace Report

/-- The printed record has this text at a key. -/
def shows (r : Report) (key text : String) : Bool :=
  (r.toJson.member? key).bind Json.string? == some (Bytes.ofString text)

/-- The printed record has this status. -/
def hasStatus (r : Report) (status : String) : Bool := r.shows "status" status

/-- The printed record names the line of another. -/
def namesLine (r : Report) : Bool := (r.toJson.member? "same_place_as").isSome

/-- The report is on an accepted venue whose provider and identifier are a place of the registry. -/
def isIn (r : Report) (registry : Registry) : Bool :=
  match r.judgement with
  | .accepted v => registry.places.contains ⟨v.provider, v.id⟩
  | _ => false

variable (r : Report)

theorem shows_of_member? {key text : String} (h : r.toJson.member? key = some (.string text))
    (other : String) : r.shows key other = (text == other) := by
  rw [shows, h, Bool.eq_iff_iff]
  simp [Json.string, Json.string?, Bytes.ofString_injective.eq_iff]

theorem hasStatus_eq (status : String) : r.hasStatus status = (r.status == status) :=
  r.shows_of_member? r.member?_status status

theorem hasStatus_ok_iff : r.hasStatus "ok" = true ↔ ∃ v, r.judgement = .accepted v := by
  rw [hasStatus_eq, beq_iff_eq, status_eq_ok]

theorem hasStatus_rejected_iff :
    r.hasStatus "rejected" = true ↔ ∃ e, r.judgement = .rejected e := by
  rw [hasStatus_eq, beq_iff_eq, status_eq_rejected]

theorem hasStatus_malformed_iff :
    r.hasStatus "malformed" = true ↔ ∃ f, r.judgement = .malformed f := by
  rw [hasStatus_eq, beq_iff_eq, status_eq_malformed]

theorem namesLine_of_accepted {v : Venue} (h : r.judgement = .accepted v) :
    r.namesLine = r.samePlaceAs.isSome := by
  rw [namesLine, r.member?_samePlaceAs h]
  cases r.samePlaceAs <;> rfl

theorem namesLine_of_not_accepted (h : ∀ v, r.judgement ≠ .accepted v) : r.namesLine = false := by
  rw [namesLine, r.member?_samePlaceAs_of_not_accepted h]
  rfl

theorem namesLine_iff :
    r.namesLine = true ↔ ∃ m : Nat, r.toJson.member? "same_place_as" = some (.int m) := by
  by_cases hv : ∃ v, r.judgement = .accepted v
  · obtain ⟨v, hv⟩ := hv
    simp [r.namesLine_of_accepted hv, r.member?_samePlaceAs_eq_some, hv, Option.isSome_iff_exists]
  · simp [r.namesLine_of_not_accepted (not_exists.1 hv), r.member?_samePlaceAs_eq_some, hv]

end Report

/-! ### Counts -/

theorem Summary.add_eq (s : Summary) (r : Report) :
    s.add r = {
      total := s.total + 1
      accepted := s.accepted + if r.hasStatus "ok" then 1 else 0
      rejected := s.rejected + if r.hasStatus "rejected" then 1 else 0
      malformed := s.malformed + if r.hasStatus "malformed" then 1 else 0
      duplicates := s.duplicates + if r.namesLine then 1 else 0 } := by
  simp only [add, Report.hasStatus_eq, Report.status]
  cases h : r.judgement with
  | malformed f => simp [r.namesLine_of_not_accepted (by simp [h])]
  | rejected e => simp [r.namesLine_of_not_accepted (by simp [h])]
  | accepted v => simp [r.namesLine_of_accepted h]

/-- A summary with some more reports has counted them. -/
theorem Summary.foldl_add (s : Summary) (reports : List Report) :
    reports.foldl Summary.add s = {
      total := s.total + reports.length
      accepted := s.accepted + reports.countP (·.hasStatus "ok")
      rejected := s.rejected + reports.countP (·.hasStatus "rejected")
      malformed := s.malformed + reports.countP (·.hasStatus "malformed")
      duplicates := s.duplicates + reports.countP (·.namesLine) } := by
  induction reports generalizing s with
  | nil => rfl
  | cons r reports ih =>
    rw [List.foldl_cons, ih, add_eq]
    simp only [List.length_cons, List.countP_cons, mk.injEq]
    omega

/-- Each record has one of the three statuses. -/
theorem length_eq_countP_status (reports : List Report) :
    reports.length = reports.countP (·.hasStatus "ok") + reports.countP (·.hasStatus "rejected") +
      reports.countP (·.hasStatus "malformed") := by
  induction reports with
  | nil => rfl
  | cons r reports ih =>
    have hone : (if r.hasStatus "ok" then 1 else 0) + (if r.hasStatus "rejected" then 1 else 0) +
        (if r.hasStatus "malformed" then 1 else 0) = 1 := by
      simp only [Report.hasStatus_eq, Report.status]
      cases r.judgement <;> rfl
    simp only [List.length_cons, List.countP_cons]
    omega

/-! ### Places -/

namespace Registry

variable {r : Registry} {place : PlaceId}

theorem isSome_find?_iff : (r.find? place).isSome = true ↔ place ∈ r.places := by
  unfold find? places
  induction r.entries with
  | nil => simp
  | cons e entries ih =>
    rw [List.lookup_cons, List.map_cons, List.mem_cons, ← ih]
    by_cases h : place = e.1
    · simp [h]
    · simp [h, beq_false_of_ne h]

theorem nodup_places_note (h : r.places.Nodup) (line : Nat) :
    (r.note place line).places.Nodup := by
  unfold note
  split
  · exact h
  · next hnone =>
    refine List.nodup_cons.2 ⟨?_, h⟩
    intro hmem
    have := isSome_find?_iff.2 hmem
    rw [hnone] at this
    cases this

theorem size_note (line : Nat) :
    (r.note place line).size + (if (r.find? place).isSome then 1 else 0) = r.size + 1 := by
  unfold note
  split
  · next h => rw [h]; rfl
  · next h => rw [h]; rfl

end Registry

namespace Checker

variable (c : Checker)

theorem nodup_places_check (h : c.registry.places.Nodup) (number : Nat) (line : Bytes) :
    (c.check number line).2.registry.places.Nodup := by
  simp only [check, record]
  split
  · exact Registry.nodup_places_note h number
  · exact h

/-- **An accepted venue with a name is a duplicate or a new place**, and no other line is one of
these. -/
theorem size_check (number : Nat) (line : Bytes) :
    (c.check number line).2.registry.size + (if (c.check number line).1.namesLine then 1 else 0) =
      c.registry.size + if (c.check number line).1.judgement.place?.isSome then 1 else 0 := by
  rw [check]
  generalize Judgement.ofLine c.settings.requireMapPoint line = j
  cases j with
  | malformed f => rw [Report.namesLine_of_not_accepted _ (by simp [record])]; rfl
  | rejected e => rw [Report.namesLine_of_not_accepted _ (by simp [record])]; rfl
  | accepted v =>
    rw [Report.namesLine_of_accepted _ rfl]
    cases hp : (Judgement.accepted v).place? with
    | none => simp [record, hp]
    | some place => simpa [record, hp] using Registry.size_note number

/-! ### Some lines -/

/-- The summary is the fold of the reports. -/
theorem summary_checkAll (lines : List (Bytes × Nat)) :
    (c.checkAll lines).2.summary = (c.checkAll lines).1.foldl Summary.add c.summary := by
  induction lines generalizing c with
  | nil => rfl
  | cons l lines ih =>
    obtain ⟨line, number⟩ := l
    rw [checkAll_cons, ih]
    rfl

theorem nodup_places_checkAll (h : c.registry.places.Nodup) (lines : List (Bytes × Nat)) :
    (c.checkAll lines).2.registry.places.Nodup := by
  induction lines generalizing c with
  | nil => exact h
  | cons l lines ih =>
    obtain ⟨line, number⟩ := l
    rw [checkAll_cons]
    exact ih _ (nodup_places_check c h number line)

theorem size_checkAll (lines : List (Bytes × Nat)) :
    (c.checkAll lines).2.registry.size + (c.checkAll lines).1.countP (·.namesLine) =
      c.registry.size + (c.checkAll lines).1.countP (·.judgement.place?.isSome) := by
  induction lines generalizing c with
  | nil => rfl
  | cons l lines ih =>
    obtain ⟨line, number⟩ := l
    have hstep := c.size_check number line
    have hrest := ih (c.check number line).2
    simp only [checkAll_cons, List.countP_cons]
    omega

/-- A checker knows the places that it knew before, and those of the venues accepted since. -/
theorem mem_places_checkAll {lines : List (Bytes × Nat)} {place : PlaceId} :
    place ∈ (c.checkAll lines).2.registry.places ↔
      place ∈ c.registry.places ∨ ∃ r ∈ (c.checkAll lines).1, r.isAt place = true := by
  rw [← Registry.isSome_find?_iff, find?_checkAll, Option.isSome_or, Bool.or_eq_true,
    Registry.isSome_find?_iff, firstLine, Option.isSome_map, List.find?_isSome]

/-! ### Histories -/

variable {settings : Settings}

/-- The places that a new checker comes to know are those of the venues that it accepts. -/
theorem mem_places_new {lines : List (Bytes × Nat)} {place : PlaceId} :
    place ∈ ((new settings).checkAll lines).2.registry.places ↔
      ∃ r ∈ ((new settings).checkAll lines).1, r.isAt place = true := by
  rw [mem_places_checkAll]
  exact or_iff_right List.not_mem_nil

/-- A known place has a name. -/
theorem named_of_mem_places {lines : List (Bytes × Nat)} {place : PlaceId}
    (h : place ∈ ((new settings).checkAll lines).2.registry.places) :
    ¬(place.provider = [] ∧ place.id = []) := by
  obtain ⟨r, -, hat⟩ := mem_places_new.1 h
  obtain ⟨v, -, hv⟩ := Report.isAt_iff.1 hat
  obtain ⟨hne, rfl⟩ := Venue.placeId?_eq_some.1 hv
  exact hne

/-- A report on an accepted venue is in the registry exactly when the venue has a name. -/
theorem isIn_new {lines : List (Bytes × Nat)} {r : Report}
    (hr : r ∈ ((new settings).checkAll lines).1) :
    r.isIn ((new settings).checkAll lines).2.registry = r.judgement.place?.isSome := by
  rw [Report.isIn, Bool.eq_iff_iff]
  cases hj : r.judgement with
  | malformed f => rfl
  | rejected e => rfl
  | accepted v =>
    rw [List.contains_iff_mem, Judgement.place?, Option.isSome_iff_exists]
    constructor
    · intro hmem
      exact ⟨_, Venue.placeId?_eq_some.2 ⟨named_of_mem_places hmem, rfl⟩⟩
    · rintro ⟨place, hplace⟩
      obtain ⟨-, rfl⟩ := Venue.placeId?_eq_some.1 hplace
      exact mem_places_new.2 ⟨r, hr, Report.isAt_iff.2 ⟨v, hj, hplace⟩⟩

/-- What a checker counted and met, in terms of the records that it printed. -/
structure Accounts (c : Checker) (reports : List Report) : Prop where
  total : c.summary.total = c.summary.accepted + c.summary.rejected + c.summary.malformed
  accepted : c.summary.accepted = reports.countP (·.hasStatus "ok")
  rejected : c.summary.rejected = reports.countP (·.hasStatus "rejected")
  malformed : c.summary.malformed = reports.countP (·.hasStatus "malformed")
  duplicates : c.summary.duplicates = reports.countP (·.namesLine)
  /-- The places are the keys of a map: there is one entry for each. -/
  nodup_places : c.registry.places.Nodup
  duplicates_add_size : c.summary.duplicates + c.registry.size = reports.countP (·.isIn c.registry)
  duplicates_le : c.summary.duplicates ≤ c.summary.accepted
  exists_report : ∀ place ∈ c.registry.places, ∃ r ∈ reports, r.hasStatus "ok" = true ∧
    ∃ v, r.judgement = .accepted v ∧ place = ⟨v.provider, v.id⟩

theorem hasStatus_ok_of_isIn {r : Report} {registry : Registry} (h : r.isIn registry = true) :
    r.hasStatus "ok" = true := by
  rw [Report.hasStatus_ok_iff]
  unfold Report.isIn at h
  split at h
  · next v hv => exact ⟨v, hv⟩
  · cases h

theorem accounts_checkAll (settings : Settings) (lines : List (Bytes × Nat)) :
    ((new settings).checkAll lines).2.Accounts ((new settings).checkAll lines).1 := by
  have hsummary := summary_checkAll (new settings) lines
  have hempty : (new settings).summary = {} := rfl
  simp only [Summary.foldl_add, hempty, Nat.zero_add] at hsummary
  have hsize := size_checkAll (new settings) lines
  change _ = 0 + _ at hsize
  have hin : ((new settings).checkAll lines).1.countP
        (·.isIn ((new settings).checkAll lines).2.registry) =
      ((new settings).checkAll lines).1.countP (·.judgement.place?.isSome) := by
    refine List.countP_congr fun r hr => ?_
    rw [isIn_new hr]
  have hok : ((new settings).checkAll lines).1.countP
        (·.isIn ((new settings).checkAll lines).2.registry) ≤
      ((new settings).checkAll lines).1.countP (·.hasStatus "ok") :=
    List.countP_mono_left fun r _ h => hasStatus_ok_of_isIn h
  have hlength := length_eq_countP_status ((new settings).checkAll lines).1
  constructor
  case nodup_places => exact nodup_places_checkAll (new settings) List.nodup_nil lines
  case total => rw [hsummary]; exact hlength
  case duplicates_add_size => rw [hsummary, hin]; dsimp only; omega
  case duplicates_le => rw [hsummary]; dsimp only; omega
  case exists_report =>
    intro place hplace
    obtain ⟨r, hr, hat⟩ := mem_places_new.1 hplace
    obtain ⟨v, hv, hid⟩ := Report.isAt_iff.1 hat
    exact ⟨r, hr, r.hasStatus_ok_iff.2 ⟨v, hv⟩, v, hv, (Venue.placeId?_eq_some.1 hid).2.symm⟩
  all_goals rw [hsummary]

/-- **The accounts are right after every history.**  The counts are those of the records printed so
far, by their statuses; the duplicates are the records that name a line, and together with the known
places they make up the accepted venues at known places.  The summary at the end of a run is that of
all the records, the run's own included. -/
theorem accounts_performAll (settings : Settings) (calls : List Call) (text : Bytes) :
    let before := (new settings).performAll calls
    let after := before.2.run text
    before.2.Accounts before.1 ∧ after.2.Accounts (before.1 ++ after.1) := by
  intro before after
  have hrun : (new settings).performAll (calls ++ [Call.run text]) =
      (before.1 ++ after.1, after.2) := by
    rw [performAll_eq, List.flatMap_append, checkAll_append, ← performAll_eq,
      List.flatMap_singleton]
    rfl
  constructor
  · have := accounts_checkAll settings (calls.flatMap Call.lines)
    rwa [← performAll_eq] at this
  · have := accounts_checkAll settings ((calls ++ [Call.run text]).flatMap Call.lines)
    rwa [← performAll_eq, hrun] at this

end Checker

end PlaceFeed
