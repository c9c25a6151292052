import PlaceFeed.Proofs.Accounting

/-!
# Venues without an identifier

The name of a venue is its provider together with its identifier, and a checker leaves out only the
venues that have neither.  A venue with a provider alone is therefore at a place like any other, and
all venues of one provider that come without an identifier are at the same one.

* `Checker.namesLine_iff_exists_meets` : an accepted venue names a line exactly when it has a name
  and its place was accepted before;
* `Checker.unidentified_exact` : so **a venue without an identifier is known by its provider, and
  not at all without one**.
-/

namespace PlaceFeed

namespace Checker

variable {settings : Settings} {lines : List (Bytes × Nat)} {k : Nat} {r : Report} {v : Venue}

/-- An accepted venue names a line exactly when it has a name and its place was accepted before. -/
theorem namesLine_iff_exists_meets (hr : ((new settings).checkAll lines).1[k]? = some r)
    (hv : r.judgement = .accepted v) :
    r.namesLine = true ↔ ¬(v.provider = [] ∧ v.id = []) ∧
      ∃ j < k, ∃ s, ((new settings).checkAll lines).1[j]? = some s ∧ s.Meets v := by
  rw [r.namesLine_of_accepted hv]
  constructor
  · rw [Option.isSome_iff_exists]
    rintro ⟨m, hm⟩
    obtain ⟨w, hw, hne, j, hj, s, hs, -⟩ := exists_first_of_samePlaceAs hr hm
    obtain rfl : v = w := Judgement.accepted.inj (hv.symm.trans hw)
    exact ⟨hne, j, hj, s, hs.get, hs.meets⟩
  · rintro ⟨hne, j, hj, s, hs, hmeets⟩
    exact isSome_samePlaceAs_of_named hr hv hne hj hs hmeets

/-- Only a venue with a name names a line. -/
theorem isSome_place?_of_namesLine (hr : r ∈ ((new settings).checkAll lines).1)
    (h : r.namesLine = true) : r.judgement.place?.isSome = true := by
  obtain ⟨k, hk⟩ := List.getElem?_of_mem hr
  obtain ⟨m, hm⟩ := r.namesLine_iff.1 h
  obtain ⟨v, hv, -⟩ := r.member?_samePlaceAs_eq_some.1 hm
  have hne := ((namesLine_iff_exists_meets hk hv).1 h).1
  rw [hv, Judgement.place?, Venue.placeId?_eq_some.2 ⟨hne, rfl⟩, Option.isSome_some]

/-- **A venue without an identifier is known by its provider, and not at all without one.**  After
every history on a new checker, the record of an accepted venue without an identifier names a line
exactly when the venue has a provider and an earlier venue was accepted with the same provider and
no identifier.  A line that a record names is that of the first venue accepted with the same name,
which is not empty; the empty name is no known place, and no record without a name is among the
duplicates. -/
theorem unidentified_exact (settings : Settings) (calls : List Call) :
    let after := (new settings).performAll calls
    (∀ (k : Nat) r v, after.1[k]? = some r → r.judgement = .accepted v → v.id = [] →
      (r.namesLine = true ↔
        v.provider ≠ [] ∧ ∃ j < k, ∃ s, after.1[j]? = some s ∧ s.Meets v)) ∧
    (∀ (k m : Nat) r, after.1[k]? = some r →
      r.toJson.member? "same_place_as" = some (.int m) →
        ∃ v, r.judgement = .accepted v ∧ ¬(v.provider = [] ∧ v.id = []) ∧
          ∃ j < k, ∃ s w, IsFirst after.1 v j s ∧ s.line = m ∧ s.judgement = .accepted w ∧
            w.provider = v.provider ∧ w.id = v.id) ∧
    (∀ place ∈ after.2.registry.places, ¬(place.provider = [] ∧ place.id = [])) ∧
    after.2.summary.duplicates =
      after.1.countP fun r => r.namesLine && r.judgement.place?.isSome := by
  intro after
  have hafter : after = (new settings).checkAll (calls.flatMap Call.lines) := performAll_eq _ calls
  rw [hafter]
  refine ⟨?_, ?_, ?_, ?_⟩
  · intro k r v hr hv hid
    rw [namesLine_iff_exists_meets hr hv]
    simp [hid]
  · intro k m r hr hm
    obtain ⟨-, -, hm⟩ := r.member?_samePlaceAs_eq_some.1 hm
    obtain ⟨v, hv, hne, j, hj, s, hs, hline⟩ := exists_first_of_samePlaceAs hr hm
    obtain ⟨w, hw, hsame⟩ := hs.meets
    obtain ⟨hprovider, hid⟩ := Venue.isSamePlace_iff.1 hsame
    exact ⟨v, hv, hne, j, hj, s, w, hs, hline, hw, hprovider, hid⟩
  · intro place hplace
    exact named_of_mem_places hplace
  · rw [(accounts_checkAll settings _).duplicates]
    refine List.countP_congr fun r hr => ?_
    rw [Bool.and_eq_true]
    exact ⟨fun h => ⟨h, isSome_place?_of_namesLine hr h⟩, And.left⟩

/-- Of two venues with a provider alone and two without a name, only the second with a provider
names a line, that of the first. -/
theorem unidentified_exact_in_a_run :
    let unnamed := Bytes.ofString "\x7b\"latitude\":1,\"longitude\":2,\"id\":\" \"\x7d\n"
    let provided := Bytes.ofString "\x7b\"latitude\":1,\"longitude\":2,\"provider\":\"p\"\x7d\n"
    let after := (new Settings.default).performAll
      [.check 7 unnamed, .run (unnamed ++ provided ++ provided)]
    after.1.map Report.namesLine = [false, false, false, true] ∧
      ∃ r v, after.1[3]? = some r ∧ r.judgement = .accepted v ∧ v.id = [] ∧ v.provider ≠ [] ∧
        (∃ j < 3, ∃ s, after.1[j]? = some s ∧ s.Meets v) ∧
        r.toJson.member? "same_place_as" = some (.int 2) ∧
        ∃ j < 3, ∃ s w, IsFirst after.1 v j s ∧ s.line = 2 ∧ s.judgement = .accepted w ∧
          w.provider = v.provider ∧ w.id = v.id := by
  intro unnamed provided after
  have hnames : after.1.map Report.namesLine = [false, false, false, true] := by decide +kernel
  have hlast : after.1[3]?.map (fun r => (r.judgement.place?, r.samePlaceAs)) =
      some (some ⟨Bytes.ofString "p", []⟩, some 2) := by decide +kernel
  obtain ⟨r, hr, hfields⟩ := Option.map_eq_some_iff.1 hlast
  obtain ⟨hplace, hm⟩ := Prod.mk.inj hfields
  obtain ⟨v, hv, hvplace⟩ := Judgement.place?_eq_some.1 hplace
  have hid : v.id = [] := congrArg PlaceId.id (Venue.placeId?_eq_some.1 hvplace).2
  have hmember : r.toJson.member? "same_place_as" = some (.int 2) :=
    r.member?_samePlaceAs_eq_some.2 ⟨v, hv, hm⟩
  obtain ⟨hnamed, hrefers, -⟩ := unidentified_exact Settings.default
    [.check 7 unnamed, .run (unnamed ++ provided ++ provided)]
  obtain ⟨hprovider, hmet⟩ := (hnamed 3 r v hr hv hid).1 (r.namesLine_iff.2 ⟨2, hmember⟩)
  obtain ⟨w, hw, -, hfirst⟩ := hrefers 3 2 r hr hmember
  obtain rfl : v = w := Judgement.accepted.inj (hv.symm.trans hw)
  exact ⟨hnames, r, v, hr, hv, hid, hprovider, hmet, hmember, hfirst⟩

/-- An accepted venue whose identifier is empty once it is clean names the line of another without
one, and counts as a duplicate. -/
theorem unidentified_known :
    let bare := Bytes.ofString "\x7b\"latitude\":1,\"longitude\":2,\"provider\":\"p\"\x7d"
    let blank := Bytes.ofString
      "\x7b\"latitude\":3,\"longitude\":4,\"provider\":\"p\",\"id\":\" \"\x7d"
    let after := (new Settings.default).performAll [.check 1 bare, .check 2 blank]
    after.1.map (·.hasStatus "ok") = [true, true] ∧
      after.1.map (fun r => r.judgement.place?.map PlaceId.id) = [some [], some []] ∧
      after.1.map Report.namesLine = [false, true] ∧
      after.1.map Report.samePlaceAs = [none, some 1] ∧ after.2.summary.duplicates = 1 := by
  decide +kernel

end Checker

end PlaceFeed
