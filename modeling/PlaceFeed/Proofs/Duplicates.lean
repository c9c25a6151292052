import PlaceFeed.Proofs.History
import PlaceFeed.Proofs.Members

/-!
# Duplicates

A checker keeps one line for every place that it has met, and a report looks its place up there.
This file relates what it finds to the reports before it, of which the checker keeps nothing else.

* `Checker.find?_checkAll` : **the registry knows each place by the line of its first accepted
  venue**; this is the invariant, and `Checker.find?_check` is its step;
* `Checker.samePlaceAs_of_split` : so a report finds the first venue accepted before it at its
  place;
* `Report.isAt_iff_meets` : for a venue with a name, being at its place is what
  `Venue.isSamePlace` tests;
* `Checker.samePlaceAs_exact` : **duplicates are reported exactly**, over whole histories, and in a
  run every duplicate names an earlier line that is none.

The last part needs no look at the registry again: a report that names a line could not be the
first at its place (`Checker.samePlaceAs_of_isFirst`).
-/

namespace PlaceFeed

/-! ### The line of a place -/

/-- The report is on an accepted venue at the place. -/
def Report.isAt (r : Report) (place : PlaceId) : Bool := r.judgement.place? == some place

/-- The line of the first report on an accepted venue at a place. -/
def firstLine (place : PlaceId) (reports : List Report) : Option Nat :=
  (reports.find? (·.isAt place)).map Report.line

theorem firstLine_nil (place : PlaceId) : firstLine place [] = none := rfl

theorem firstLine_singleton (place : PlaceId) (r : Report) :
    firstLine place [r] = if r.isAt place then some r.line else none := by
  rw [firstLine, List.find?_singleton]
  split <;> rfl

theorem firstLine_cons (place : PlaceId) (r : Report) (reports : List Report) :
    firstLine place (r :: reports) = (firstLine place [r]).or (firstLine place reports) := by
  unfold firstLine
  cases h : r.isAt place <;> simp [h]

namespace Checker

variable (c : Checker)

/-! ### The registry after some lines -/

/-- A line adds at most its own place, and only a place that is not there. -/
theorem find?_check (number : Nat) (line : Bytes) (place : PlaceId) :
    (c.check number line).2.registry.find? place =
      (c.registry.find? place).or (firstLine place [(c.check number line).1]) := by
  simp only [check, record, firstLine, List.find?_singleton, Report.isAt]
  cases h : (Judgement.ofLine c.settings.requireMapPoint line).place? with
  | none => simp
  | some other =>
    by_cases hp : place = other
    · subst hp
      cases hf : c.registry.find? place <;> simp [Registry.find?_note_self, hf]
    · simp [Registry.find?_note_of_ne c.registry number hp, Ne.symm hp]

/-- **The registry knows each place by the line of its first accepted venue.** -/
theorem find?_checkAll (lines : List (Bytes × Nat)) (place : PlaceId) :
    (c.checkAll lines).2.registry.find? place =
      (c.registry.find? place).or (firstLine place (c.checkAll lines).1) := by
  induction lines generalizing c with
  | nil => simp [firstLine_nil]
  | cons l lines ih =>
    obtain ⟨line, number⟩ := l
    simp only [checkAll_cons]
    rw [ih, find?_check, firstLine_cons _ _ (checkAll _ _).1, Option.or_assoc]

/-- A report looks its place up among the venues accepted before it. -/
theorem samePlaceAs_of_split {lines : List (Bytes × Nat)} {before after : List Report}
    {r : Report} (h : (c.checkAll lines).1 = before ++ r :: after) :
    r.samePlaceAs =
      r.judgement.place?.bind fun place =>
        (c.registry.find? place).or (firstLine place before) := by
  induction lines generalizing c before with
  | nil => simp at h
  | cons l lines ih =>
    obtain ⟨line, number⟩ := l
    simp only [checkAll_cons] at h
    cases before with
    | nil =>
      obtain ⟨rfl, -⟩ := List.cons.inj h
      simp [check, record, firstLine_nil]
    | cons r₀ before =>
      obtain ⟨rfl, hrest⟩ := List.cons.inj h
      rw [ih _ hrest]
      congr 1
      funext place
      rw [find?_check, firstLine_cons _ _ before, Option.or_assoc]

end Checker

/-! ### First reports -/

/-- The report is on an accepted venue that is the same place as `v`. -/
def Report.Meets (r : Report) (v : Venue) : Prop :=
  ∃ w, r.judgement = .accepted w ∧ w.isSamePlace v = true

theorem Venue.placeId?_eq_some {v : Venue} {place : PlaceId} :
    v.placeId? = some place ↔ ¬(v.provider = [] ∧ v.id = []) ∧ ⟨v.provider, v.id⟩ = place := by
  unfold Venue.placeId?
  split <;> simp_all

theorem Judgement.place?_eq_some {j : Judgement} {place : PlaceId} :
    j.place? = some place ↔ ∃ v, j = .accepted v ∧ v.placeId? = some place := by
  cases j <;> simp [Judgement.place?]

theorem Report.isAt_iff {r : Report} {place : PlaceId} :
    r.isAt place = true ↔ ∃ v, r.judgement = .accepted v ∧ v.placeId? = some place := by
  rw [isAt, beq_iff_eq, Judgement.place?_eq_some]

theorem Venue.isSamePlace_iff {v w : Venue} :
    w.isSamePlace v = true ↔ w.provider = v.provider ∧ w.id = v.id := by
  simp [Venue.isSamePlace, Venue.isKnownAs]

/-- At the place of a venue are the venues that are the same place. -/
theorem Report.isAt_iff_meets (r : Report) {v : Venue} {place : PlaceId}
    (hv : v.placeId? = some place) : r.isAt place = true ↔ r.Meets v := by
  obtain ⟨hne, rfl⟩ := Venue.placeId?_eq_some.1 hv
  rw [Report.isAt_iff]
  simp only [Venue.placeId?_eq_some, PlaceId.mk.injEq]
  refine exists_congr fun w => and_congr_right fun _ => ?_
  rw [Venue.isSamePlace_iff]
  constructor
  · rintro ⟨-, h⟩
    exact h
  · -- a venue with the name of `v` has a name
    rintro ⟨hprovider, hid⟩
    refine ⟨?_, hprovider, hid⟩
    rwa [hprovider, hid]

/-- Being the same place is transitive from report to report. -/
theorem Report.Meets.trans {r : Report} {v w : Venue} (hr : r.Meets w)
    (h : w.isSamePlace v = true) : r.Meets v := by
  obtain ⟨u, hu, hw⟩ := hr
  rw [Venue.isSamePlace_iff] at h hw
  exact ⟨u, hu, Venue.isSamePlace_iff.2 ⟨hw.1.trans h.1, hw.2.trans h.2⟩⟩

/-- The first report, at `j`, on an accepted venue that is the same place as `v`. -/
structure IsFirst (reports : List Report) (v : Venue) (j : Nat) (r : Report) : Prop where
  get : reports[j]? = some r
  meets : r.Meets v
  not_before : ∀ i < j, ∀ q, reports[i]? = some q → ¬q.Meets v

/-- The first in a part from the start is the first. -/
theorem IsFirst.of_take {reports : List Report} {v : Venue} {j k : Nat} {r : Report}
    (h : IsFirst (reports.take k) v j r) : IsFirst reports v j r := by
  have hj := (List.getElem?_eq_some_iff.1 h.get).1
  rw [List.length_take] at hj
  have hget : ∀ i ≤ j, (reports.take k)[i]? = reports[i]? := by
    intro i hi
    exact List.getElem?_take_of_lt (by omega)
  refine ⟨?_, h.meets, ?_⟩
  · rw [← hget j le_rfl]
    exact h.get
  · intro i hi q hq
    exact h.not_before i hi q ((hget i hi.le).trans hq)

/-- The line of a place is that of the first report that is the same place. -/
theorem firstLine_eq_some {v : Venue} {place : PlaceId} (hv : v.placeId? = some place)
    {reports : List Report} {m : Nat} :
    firstLine place reports = some m ↔ ∃ j r, IsFirst reports v j r ∧ r.line = m := by
  simp only [firstLine, Option.map_eq_some_iff, List.find?_eq_some_iff_getElem]
  constructor
  · rintro ⟨r, ⟨hat, j, hj, hr, hbefore⟩, hline⟩
    have hget : reports[j]? = some r := by rw [List.getElem?_eq_getElem hj, hr]
    refine ⟨j, r, ⟨hget, (r.isAt_iff_meets hv).1 hat, ?_⟩, hline⟩
    intro i hi q hq
    obtain ⟨hi', rfl⟩ := List.getElem?_eq_some_iff.1 hq
    rw [← Report.isAt_iff_meets _ hv]
    simpa using hbefore i hi
  · rintro ⟨j, r, hfirst, hline⟩
    obtain ⟨hj, rfl⟩ := List.getElem?_eq_some_iff.1 hfirst.get
    have hat := (Report.isAt_iff_meets _ hv).2 hfirst.meets
    refine ⟨reports[j], ⟨hat, j, hj, rfl, ?_⟩, hline⟩
    intro i hi
    have := hfirst.not_before i hi _ (List.getElem?_eq_getElem (hi.trans hj))
    rw [← Report.isAt_iff_meets _ hv] at this
    simpa using this

/-- A place that is met has a line. -/
theorem isSome_firstLine {place : PlaceId} {reports : List Report} {r : Report}
    (hr : r ∈ reports) (hat : r.isAt place = true) : (firstLine place reports).isSome = true := by
  rw [firstLine, Option.isSome_map, List.find?_isSome]
  exact ⟨r, hr, hat⟩

namespace Checker

variable {settings : Settings} {lines : List (Bytes × Nat)} {k : Nat} {r : Report}

/-- On a new checker, a report looks its place up among those before it. -/
theorem samePlaceAs_new (hr : ((new settings).checkAll lines).1[k]? = some r) :
    r.samePlaceAs =
      r.judgement.place?.bind fun place =>
        firstLine place (((new settings).checkAll lines).1.take k) := by
  obtain ⟨hk, rfl⟩ := List.getElem?_eq_some_iff.1 hr
  have hsplit := List.take_append_drop k ((new settings).checkAll lines).1
  rw [List.drop_eq_getElem_cons hk] at hsplit
  rw [samePlaceAs_of_split _ hsplit.symm]
  rfl

/-- A report that names a line is on an accepted venue with a name, and the line is that of the
first venue accepted before it as the same place. -/
theorem exists_first_of_samePlaceAs (hr : ((new settings).checkAll lines).1[k]? = some r) {m : Nat}
    (hm : r.samePlaceAs = some m) :
    ∃ v, r.judgement = .accepted v ∧ ¬(v.provider = [] ∧ v.id = []) ∧
      ∃ j < k, ∃ s, IsFirst ((new settings).checkAll lines).1 v j s ∧ s.line = m := by
  rw [samePlaceAs_new hr, Option.bind_eq_some_iff] at hm
  obtain ⟨place, hplace, hm⟩ := hm
  obtain ⟨v, hv, hid⟩ := Judgement.place?_eq_some.1 hplace
  obtain ⟨j, s, hs, hline⟩ := (firstLine_eq_some hid).1 hm
  have hj : j < k := by
    have := (List.getElem?_eq_some_iff.1 hs.get).1
    rw [List.length_take] at this
    omega
  exact ⟨v, hv, (Venue.placeId?_eq_some.1 hid).1, j, hj, s, hs.of_take, hline⟩

/-- An accepted venue with a name names a line when its place was accepted before. -/
theorem isSome_samePlaceAs_of_named (hr : ((new settings).checkAll lines).1[k]? = some r)
    {v : Venue} (hv : r.judgement = .accepted v) (hne : ¬(v.provider = [] ∧ v.id = [])) {j : Nat}
    (hj : j < k) {s : Report} (hs : ((new settings).checkAll lines).1[j]? = some s)
    (hmeets : s.Meets v) : r.samePlaceAs.isSome = true := by
  have hplace : v.placeId? = some ⟨v.provider, v.id⟩ := Venue.placeId?_eq_some.2 ⟨hne, rfl⟩
  rw [samePlaceAs_new hr, hv, Judgement.place?, hplace, Option.bind_some]
  refine isSome_firstLine ?_ ((s.isAt_iff_meets hplace).2 hmeets)
  exact List.mem_of_getElem? (by rwa [List.getElem?_take_of_lt hj])

/-- An accepted venue with an identifier names a line when its place was accepted before. -/
theorem isSome_samePlaceAs (hr : ((new settings).checkAll lines).1[k]? = some r) {v : Venue}
    (hv : r.judgement = .accepted v) (hid : v.id ≠ []) {j : Nat} (hj : j < k) {s : Report}
    (hs : ((new settings).checkAll lines).1[j]? = some s) (hmeets : s.Meets v) :
    r.samePlaceAs.isSome = true :=
  isSome_samePlaceAs_of_named hr hv (fun h => hid h.2) hj hs hmeets

/-! ### Single runs -/

theorem pairwise_numberedLines (text : Bytes) :
    (numberedLines text).Pairwise fun a b => a.2 < b.2 := by
  refine List.Pairwise.filter _ ?_
  have := List.pairwise_lt_range' (s := 1) (n := (Bytes.lines text).length)
  rwa [← List.zipIdx_map_snd, List.pairwise_map] at this

/-- The reports of a run come in the order of their lines. -/
theorem pairwise_line_run (c : Checker) (text : Bytes) :
    (c.run text).1.Pairwise fun r s => r.line < s.line := by
  have := pairwise_numberedLines text
  rw [← List.pairwise_map (R := (· < ·)), ← c.map_line_checkAll, List.pairwise_map] at this
  exact this

/-- A first report names no line itself. -/
theorem samePlaceAs_of_isFirst {v : Venue}
    (h : IsFirst ((new settings).checkAll lines).1 v k r) : r.samePlaceAs = none := by
  rw [← Option.not_isSome_iff_eq_none, Option.isSome_iff_exists]
  rintro ⟨m, hm⟩
  obtain ⟨w, hw, -, i, hi, q, hq, -⟩ := exists_first_of_samePlaceAs h.get hm
  obtain ⟨w', hw', hsame⟩ := h.meets
  obtain rfl : w = w' := Judgement.accepted.inj (hw.symm.trans hw')
  exact h.not_before i hi q hq.get (hq.meets.trans hsame)

/-- The line that a report names is the one that its record shows. -/
theorem member?_samePlaceAs_checkAll (hr : ((new settings).checkAll lines).1[k]? = some r) :
    r.toJson.member? "same_place_as" = r.samePlaceAs.map fun n => Json.int n := by
  by_cases h : ∃ v, r.judgement = .accepted v
  · obtain ⟨v, hv⟩ := h
    exact r.member?_samePlaceAs hv
  · have hnone : ∀ v, r.judgement ≠ .accepted v := by
      intro v hv
      exact h ⟨v, hv⟩
    rw [r.member?_samePlaceAs_of_not_accepted hnone]
    cases hm : r.samePlaceAs with
    | none => rfl
    | some m =>
      obtain ⟨v, hv, -⟩ := exists_first_of_samePlaceAs hr hm
      exact absurd hv (hnone v)

/-- In a run on a new checker, a report names the line of an earlier one, which is on a venue
accepted as the same place and names no line. -/
theorem exists_of_samePlaceAs_run {text : Bytes} (hr : r ∈ ((new settings).run text).1) {m : Nat}
    (hm : r.samePlaceAs = some m) :
    m < r.line ∧ ∃ s ∈ ((new settings).run text).1, s.line = m ∧ s.samePlaceAs = none ∧
      ∃ v, r.judgement = .accepted v ∧ s.Meets v := by
  obtain ⟨k, hk⟩ := List.getElem?_of_mem hr
  obtain ⟨v, hv, -, j, hj, s, hs, rfl⟩ := exists_first_of_samePlaceAs hk hm
  refine ⟨?_, s, List.mem_of_getElem? hs.get, rfl, samePlaceAs_of_isFirst hs, v, hv, hs.meets⟩
  have hlines := (new settings).pairwise_line_run text
  obtain ⟨hk', rfl⟩ := List.getElem?_eq_some_iff.1 hk
  obtain ⟨hj', rfl⟩ := List.getElem?_eq_some_iff.1 hs.get
  exact List.pairwise_iff_getElem.1 hlines j k hj' hk' hj

/-- **Duplicates are reported exactly.**  A report of a history on a new checker carries the number
of a line only for an accepted venue with a name, and then that of the first venue accepted before
it as the same place; with an identifier and such a venue before it, it does carry one.  In a run,
the line comes before, and its own report, on a venue with the same provider and identifier,
carries none. -/
theorem samePlaceAs_exact (settings : Settings) :
    (∀ lines k r, ((new settings).checkAll lines).1[k]? = some r →
      (r.toJson.member? "same_place_as" = r.samePlaceAs.map fun n => Json.int n) ∧
      (∀ m, r.samePlaceAs = some m →
        ∃ v, r.judgement = .accepted v ∧ ¬(v.provider = [] ∧ v.id = []) ∧
          ∃ j < k, (∃ s, IsFirst ((new settings).checkAll lines).1 v j s) ∧
            lines[j]?.map Prod.snd = some m) ∧
      ∀ v, r.judgement = .accepted v → v.id ≠ [] →
        (∃ j < k, ∃ s, ((new settings).checkAll lines).1[j]? = some s ∧ s.Meets v) →
          r.samePlaceAs.isSome = true) ∧
    ∀ text, ((new settings).run text).1.Pairwise (fun r s => r.line < s.line) ∧
      ∀ r ∈ ((new settings).run text).1, ∀ m, r.samePlaceAs = some m →
        m < r.line ∧ ∃ s ∈ ((new settings).run text).1, s.line = m ∧ s.samePlaceAs = none ∧
          ∃ v w, r.judgement = .accepted v ∧ s.judgement = .accepted w ∧
            w.provider = v.provider ∧ w.id = v.id := by
  constructor
  · intro lines k r hr
    refine ⟨member?_samePlaceAs_checkAll hr, ?_, ?_⟩
    · intro m hm
      obtain ⟨v, hv, hne, j, hj, s, hs, hline⟩ := exists_first_of_samePlaceAs hr hm
      -- the line of a report is the number that it was asked for with
      have hnumber := congrArg (·[j]?) (map_line_checkAll (new settings) lines)
      simp only [List.getElem?_map, hs.get, Option.map_some, hline] at hnumber
      exact ⟨v, hv, hne, j, hj, ⟨s, hs⟩, hnumber.symm⟩
    · rintro v hv hid ⟨j, hj, s, hs, hmeets⟩
      exact isSome_samePlaceAs hr hv hid hj hs hmeets
  · intro text
    refine ⟨pairwise_line_run _ text, ?_⟩
    intro r hr m hm
    obtain ⟨hlt, s, hs, hline, hnone, v, hv, w, hw, hsame⟩ := exists_of_samePlaceAs_run hr hm
    exact ⟨hlt, s, hs, hline, hnone, v, w, hv, hw, Venue.isSamePlace_iff.1 hsame⟩

/-- The third line is at the place of the first, under numbers that do not follow each other. -/
theorem samePlaceAs_exact_third :
    let line := Bytes.ofString
      "\x7b\"latitude\":1,\"longitude\":2.5,\"provider\":\"p\",\"id\":\" 7\"\x7d"
    let lines := [(line, 3), (Bytes.ofString "[1", 4), (line ++ [Ascii.carriageReturn], 9)]
    ∃ r, ((new Settings.default).checkAll lines).1[2]? = some r ∧ r.samePlaceAs = some 3 ∧
      ∃ v, r.judgement = .accepted v ∧ ¬(v.provider = [] ∧ v.id = []) ∧
        ∃ j < 2, (∃ s, IsFirst ((new Settings.default).checkAll lines).1 v j s) ∧
          lines[j]?.map Prod.snd = some 3 := by
  intro line lines
  have h : (((new Settings.default).checkAll lines).1[2]?).map Report.samePlaceAs
      = some (some 3) := by decide +kernel
  obtain ⟨r, hr, hm⟩ := Option.map_eq_some_iff.1 h
  exact ⟨r, hr, hm, ((samePlaceAs_exact Settings.default).1 lines 2 r hr).2.1 3 hm⟩

end Checker

end PlaceFeed
