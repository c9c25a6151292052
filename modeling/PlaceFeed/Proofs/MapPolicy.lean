import PlaceFeed.Proofs.Accounting

/-!
# The policy on map points

Settings may refuse the venues that a Mercator map does not show.  The strict checker of a feed,
which refuses them, and the lenient one then judge some lines differently, and from there on know
other places.

* `Judgement.ofLine_true` : on a single line, the policy turns **some acceptances into rejections**
  and changes nothing else (`Judgement.onMap`);
* `Checker.Covers` : the places of the strict checker are known to the lenient one, by lines that
  are no later; `Checker.Covers.check` and `Checker.Covers.checkAll` keep this along a feed;
* `Checker.map_policy_monotone` : so **the policy only ever removes acceptances**, in the records as
  in the counts.
-/

namespace PlaceFeed

/-! ### Judgements -/

namespace Judgement

/-- The judgement when only points on the map are wanted. -/
def onMap : Judgement → Judgement
  | accepted v => if v.location.isMapPoint then accepted v else rejected .notMapPoint
  | j => j

theorem ofLine_true (line : Bytes) : ofLine true line = (ofLine false line).onMap := by
  unfold ofLine
  cases Record.parse line with
  | error f => rfl
  | ok r =>
    simp only [ofRecord]
    cases r.validate with
    | error f => rfl
    | ok v =>
      simp only [Bool.true_and, Bool.false_and, Bool.false_eq_true, ↓reduceIte, onMap]
      cases v.location.isMapPoint <;> rfl

variable {j : Judgement}

theorem onMap_eq_accepted {v : Venue} :
    j.onMap = .accepted v ↔ j = .accepted v ∧ v.location.isMapPoint = true := by
  cases j with
  | malformed f | rejected e => simp [onMap]
  | accepted w =>
    rw [onMap, accepted.injEq]
    split
    · next hmap =>
      rw [accepted.injEq, iff_self_and]
      rintro rfl
      exact hmap
    · next hmap =>
      refine iff_of_false (by simp) ?_
      rintro ⟨rfl, h⟩
      exact hmap h

theorem onMap_eq_malformed {f : Record.Fault} : j.onMap = .malformed f ↔ j = .malformed f := by
  cases j with
  | malformed g | rejected e => rfl
  | accepted v =>
    rw [onMap]
    split <;> simp

end Judgement

/-! ### Reports on one line -/

namespace Report

/-- The reports of a strict and a lenient checker on one line. -/
structure Tightens (strict lenient : Report) : Prop where
  line : strict.line = lenient.line
  judgement : strict.judgement = lenient.judgement.onMap
  samePlaceAs : ∀ m, strict.samePlaceAs = some m → ∃ m' ≤ m, lenient.samePlaceAs = some m'

/-- What the records of a strict and a lenient checker on one line have in common. -/
structure RecordTightens (strict lenient : Report) : Prop where
  line : strict.toJson.member? "line" = lenient.toJson.member? "line"
  malformed : strict.hasStatus "malformed" = lenient.hasStatus "malformed"
  ok : strict.hasStatus "ok" = true → lenient.hasStatus "ok" = true ∧
    ∀ key ∈ ["input_media_venue", "venue"], strict.toJson.member? key = lenient.toJson.member? key
  same_place_as : ∀ m : Nat, strict.toJson.member? "same_place_as" = some (.int m) →
    ∃ m' : Nat, m' ≤ m ∧ lenient.toJson.member? "same_place_as" = some (.int m')

variable {strict lenient : Report}

theorem Tightens.accepted (h : strict.Tightens lenient) {v : Venue}
    (hv : strict.judgement = .accepted v) : lenient.judgement = .accepted v := by
  rw [h.judgement] at hv
  exact (Judgement.onMap_eq_accepted.1 hv).1

theorem Tightens.isAt (h : strict.Tightens lenient) {place : PlaceId}
    (hat : strict.isAt place = true) : lenient.isAt place = true := by
  obtain ⟨v, hv, hplace⟩ := Report.isAt_iff.1 hat
  exact Report.isAt_iff.2 ⟨v, h.accepted hv, hplace⟩

theorem Tightens.record (h : strict.Tightens lenient) : strict.RecordTightens lenient := by
  constructor
  case line => rw [member?_line, member?_line, h.line]
  case malformed =>
    rw [Bool.eq_iff_iff, hasStatus_malformed_iff, hasStatus_malformed_iff, h.judgement]
    simp only [Judgement.onMap_eq_malformed]
  case ok =>
    rw [hasStatus_ok_iff, hasStatus_ok_iff]
    rintro ⟨v, hv⟩
    have hv' := h.accepted hv
    refine ⟨⟨v, hv'⟩, ?_⟩
    intro key hkey
    simp only [List.mem_cons, List.not_mem_nil, or_false] at hkey
    rcases hkey with rfl | rfl
    · rw [member?_inputMediaVenue _ hv, member?_inputMediaVenue _ hv']
    · rw [member?_venue _ hv, member?_venue _ hv']
  case same_place_as =>
    intro m hm
    obtain ⟨v, hv, hm⟩ := (member?_samePlaceAs_eq_some _).1 hm
    obtain ⟨m', hle, hm'⟩ := h.samePlaceAs m hm
    exact ⟨m', hle, (member?_samePlaceAs_eq_some _).2 ⟨v, h.accepted hv, hm'⟩⟩

theorem RecordTightens.namesLine (h : strict.RecordTightens lenient)
    (hnames : strict.namesLine = true) : lenient.namesLine = true := by
  rw [namesLine_iff] at hnames ⊢
  obtain ⟨m, hm⟩ := hnames
  obtain ⟨m', -, hm'⟩ := h.same_place_as m hm
  exact ⟨m', hm'⟩

end Report

/-! ### Checkers along a feed -/

namespace Checker

variable {strict lenient : Checker} {number : Nat}

/-- The lenient checker **covers** the strict one: it knows every place that the strict one knows,
by a line that is no later, and it knows places by lines before `number` only. -/
structure Covers (lenient strict : Checker) (number : Nat) : Prop where
  strict_policy : strict.settings.requireMapPoint = true
  lenient_policy : lenient.settings.requireMapPoint = false
  find? : ∀ place m, strict.registry.find? place = some m →
    ∃ m' ≤ m, lenient.registry.find? place = some m'
  before : ∀ place m, lenient.registry.find? place = some m → m < number

theorem Covers.report_check (h : lenient.Covers strict number) (k : Nat) (line : Bytes) :
    (strict.check k line).1.Tightens (lenient.check k line).1 := by
  have hjudgement :
      (strict.check k line).1.judgement = (lenient.check k line).1.judgement.onMap := by
    rw [check_judgement, check_judgement, h.strict_policy, h.lenient_policy, Judgement.ofLine_true]
  refine ⟨rfl, hjudgement, ?_⟩
  intro m hm
  rw [check_samePlaceAs, Option.bind_eq_some_iff] at hm
  obtain ⟨place, hplace, hm⟩ := hm
  obtain ⟨m', hle, hm'⟩ := h.find? place m hm
  refine ⟨m', hle, ?_⟩
  obtain ⟨v, hv, hplace⟩ := Judgement.place?_eq_some.1 hplace
  rw [hjudgement, Judgement.onMap_eq_accepted] at hv
  rw [check_samePlaceAs, hv.1, Judgement.place?, hplace, Option.bind_some, hm']

/-- **A line keeps the strict checker covered**, if its number is none of those before. -/
theorem Covers.check (h : lenient.Covers strict number) {k : Nat} (hk : number ≤ k) (line : Bytes) :
    (lenient.check k line).2.Covers (strict.check k line).2 (k + 1) := by
  have hreport := h.report_check k line
  refine ⟨h.strict_policy, h.lenient_policy, ?_, ?_⟩
  · intro place m hm
    rw [find?_check, Option.or_eq_some_iff] at hm
    rw [find?_check]
    obtain hm | ⟨-, hm⟩ := hm
    · obtain ⟨m', hle, hm'⟩ := h.find? place m hm
      exact ⟨m', hle, by rw [hm', Option.some_or]⟩
    · -- a place that is new to the strict checker may be known to the lenient one
      rw [firstLine_singleton, Option.ite_none_right_eq_some] at hm
      obtain ⟨hat, rfl⟩ : _ ∧ k = m := ⟨hm.1, Option.some.inj hm.2⟩
      cases hknown : lenient.registry.find? place with
      | some m' => exact ⟨m', (h.before place m' hknown).le.trans hk, rfl⟩
      | none =>
        refine ⟨k, le_rfl, ?_⟩
        rw [Option.none_or, firstLine_singleton, if_pos (hreport.isAt hat)]
        rfl
  · intro place m hm
    rw [find?_check, Option.or_eq_some_iff] at hm
    obtain hm | ⟨-, hm⟩ := hm
    · exact (h.before place m hm).trans_le (hk.trans k.le_succ)
    · rw [firstLine_singleton, Option.ite_none_right_eq_some] at hm
      obtain rfl : k = m := Option.some.inj hm.2
      exact k.lt_succ_self

theorem Covers.checkAll (h : lenient.Covers strict number) {lines : List (Bytes × Nat)}
    (hlines : lines.Pairwise fun a b => a.2 < b.2) (hle : ∀ l ∈ lines, number ≤ l.2) :
    List.Forall₂ Report.Tightens (strict.checkAll lines).1 (lenient.checkAll lines).1 := by
  induction lines generalizing strict lenient number with
  | nil => exact .nil
  | cons l lines ih =>
    obtain ⟨line, k⟩ := l
    obtain ⟨hfirst, hrest⟩ := List.pairwise_cons.1 hlines
    rw [checkAll_cons, checkAll_cons]
    refine .cons (h.report_check k line) (ih (h.check (hle _ List.mem_cons_self) line) hrest ?_)
    intro l hl
    exact hfirst l hl

/-! ### Counts -/

theorem countP_le_of_forall₂ {α : Type} {R : α → α → Prop} {p : α → Bool} {l₁ l₂ : List α}
    (h : List.Forall₂ R l₁ l₂) (hp : ∀ a b, R a b → p a = true → p b = true) :
    l₁.countP p ≤ l₂.countP p := by
  induction h with
  | nil => exact le_rfl
  | @cons a b l₁ l₂ hab _ ih =>
    have hhead : (if p a = true then 1 else 0) ≤ if p b = true then 1 else 0 := by
      split
      · next ha => rw [if_pos (hp a b hab ha)]
      · exact Nat.zero_le _
    rw [List.countP_cons, List.countP_cons]
    exact Nat.add_le_add ih hhead

/-- **The policy on map points only ever removes acceptances.**  Of two checkers that differ in the
policy alone, and check the same lines under increasing numbers, the strict one accepts what the
lenient one accepts less the venues that it rejects instead; the records of what both accept are the
same, but for the lines of duplicates, which the lenient one finds where the strict one does, and no
later. -/
theorem map_policy_monotone (settings : Settings) (lines : List (Bytes × Nat))
    (h : lines.Pairwise fun a b => a.2 < b.2) :
    let strict := (new { settings with requireMapPoint := true }).checkAll lines
    let lenient := (new { settings with requireMapPoint := false }).checkAll lines
    let s := strict.2.summary
    let l := lenient.2.summary
    s.total = l.total ∧ s.malformed = l.malformed ∧ s.accepted ≤ l.accepted ∧
      s.rejected = l.rejected + l.accepted - s.accepted ∧ s.duplicates ≤ l.duplicates ∧
      List.Forall₂ Report.RecordTightens strict.1 lenient.1 := by
  intro strict lenient s l
  have hstart : (new { settings with requireMapPoint := false }).Covers
      (new { settings with requireMapPoint := true }) 0 := by
    refine ⟨rfl, rfl, ?_, ?_⟩
    · intro place m hm
      cases hm
    · intro place m hm
      cases hm
  have hreports := hstart.checkAll h fun l _ => Nat.zero_le l.2
  have hrecords : List.Forall₂ Report.RecordTightens strict.1 lenient.1 :=
    hreports.imp fun _ _ => Report.Tightens.record
  have hlenient : List.Forall₂ (flip Report.RecordTightens) lenient.1 strict.1 := .flip hrecords
  have haccepted := countP_le_of_forall₂ hrecords (p := (·.hasStatus "ok"))
    fun _ _ hrecord hok => (hrecord.ok hok).1
  have hmalformed := countP_le_of_forall₂ hrecords (p := (·.hasStatus "malformed"))
    fun _ _ hrecord hstatus => hrecord.malformed ▸ hstatus
  have hmalformed' := countP_le_of_forall₂ hlenient (p := (·.hasStatus "malformed"))
    fun _ _ hrecord hstatus => (Report.RecordTightens.malformed hrecord).trans hstatus
  have hduplicates := countP_le_of_forall₂ hrecords (p := (·.namesLine))
    fun _ _ hrecord => hrecord.namesLine
  have hlength := hrecords.length_eq
  rw [length_eq_countP_status, length_eq_countP_status] at hlength
  obtain ⟨hstotal, hsaccepted, hsrejected, hsmalformed, hsduplicates, -⟩ :=
    accounts_checkAll { settings with requireMapPoint := true } lines
  obtain ⟨hltotal, hlaccepted, hlrejected, hlmalformed, hlduplicates, -⟩ :=
    accounts_checkAll { settings with requireMapPoint := false } lines
  dsimp only [s, l, strict, lenient] at *
  refine ⟨by omega, by omega, by omega, by omega, by omega, hrecords⟩

/-- The first venue is beyond the map, so the duplicates of the lenient checker start one line
earlier. -/
theorem map_policy_monotone_beyond_map :
    let far := Bytes.ofString "\x7b\"latitude\":89,\"longitude\":2,\"id\":\"7\"\x7d"
    let near := Bytes.ofString "\x7b\"latitude\":1,\"longitude\":2,\"id\":\"7\"\x7d"
    let lines := [(far, 2), (near, 3), (near, 5)]
    let strict := (new { Settings.default with requireMapPoint := true }).checkAll lines
    let lenient := (new { Settings.default with requireMapPoint := false }).checkAll lines
    let s := strict.2.summary
    let l := lenient.2.summary
    lines.Pairwise (fun a b => a.2 < b.2) ∧
      strict.1.map Report.samePlaceAs = [none, none, some 3] ∧
      lenient.1.map Report.samePlaceAs = [none, some 2, some 2] ∧
      s.total = l.total ∧ s.malformed = l.malformed ∧ s.accepted ≤ l.accepted ∧
      s.rejected = l.rejected + l.accepted - s.accepted ∧ s.duplicates ≤ l.duplicates ∧
      List.Forall₂ Report.RecordTightens strict.1 lenient.1 := by
  intro far near lines strict lenient s l
  have hincreasing : lines.Pairwise fun a b => a.2 < b.2 := by simp [lines]
  have hstrict : strict.1.map Report.samePlaceAs = [none, none, some 3] := by decide +kernel
  have hlenient : lenient.1.map Report.samePlaceAs = [none, some 2, some 2] := by decide +kernel
  refine ⟨hincreasing, hstrict, hlenient, ?_⟩
  dsimp only [s, l, strict, lenient]
  exact map_policy_monotone Settings.default lines hincreasing

end Checker

end PlaceFeed
