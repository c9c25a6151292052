import PlaceFeed.Feed.Report

/-!
# What acceptance means

A line is accepted exactly when it is a record whose coordinates are on the globe, whose five texts
have clean forms, and whose point is on the map if the settings ask for that
(`Judgement.ofLine_eq_accepted`).  The venue then has the location of the record and the clean texts
(`Venue.validate_eq_ok`), each in its own field.
-/

namespace PlaceFeed

/-! ### Validation -/

theorem bind_eq_ok {ε α β : Type} {x : Except ε α} {f : α → Except ε β} {b : β} :
    (x >>= f) = .ok b ↔ ∃ a, x = .ok a ∧ f a = .ok b := by
  cases x <;> simp [bind, Except.bind]

namespace Venue

theorem cleanField_eq_ok {e : Fault} {text out : Bytes} :
    cleanField e text = .ok out ↔ Clean.clean text = some out := by
  unfold cleanField
  cases Clean.clean text <;> simp

/-- A venue has the location that it was given, and the clean form of each of its texts. -/
theorem validate_eq_ok {location : Location} {title address provider id kind : Bytes} {v : Venue} :
    validate location title address provider id kind = .ok v ↔
      location.isEmpty = false ∧ v.location = location ∧ Clean.clean title = some v.title ∧
        Clean.clean address = some v.address ∧ Clean.clean provider = some v.provider ∧
        Clean.clean id = some v.id ∧ Clean.clean kind = some v.kind := by
  unfold validate
  cases location.isEmpty with
  | true => simp [throw, throwThe, MonadExceptOf.throw, bind, Except.bind]
  | false =>
    simp only [Bool.false_eq_true, ↓reduceIte, bind_eq_ok, cleanField_eq_ok]
    constructor
    · rintro ⟨t, ht, a, ha, p, hp, i, hi, k, hk, h⟩
      cases h
      exact ⟨trivial, rfl, ht, ha, hp, hi, hk⟩
    · rintro ⟨-, rfl, ht, ha, hp, hi, hk⟩
      exact ⟨_, ht, _, ha, _, hp, _, hi, _, hk, rfl⟩

/-- A validated venue has a point. -/
theorem exists_point_of_validate {location : Location} {title address provider id kind : Bytes}
    {v : Venue} (h : validate location title address provider id kind = .ok v) :
    ∃ p, v.location = .point p := by
  obtain ⟨hempty, hlocation, -⟩ := validate_eq_ok.1 h
  rw [hlocation]
  cases location with
  | empty => cases hempty
  | point p => exact ⟨p, rfl⟩

/-- The texts of a venue. -/
def texts (v : Venue) : List Bytes := [v.title, v.address, v.provider, v.id, v.kind]

/-- Every text of a validated venue is the clean form of another. -/
theorem exists_clean_of_validate {location : Location} {title address provider id kind : Bytes}
    {v : Venue} (h : validate location title address provider id kind = .ok v) :
    ∀ text ∈ v.texts, ∃ raw, Clean.clean raw = some text := by
  obtain ⟨-, -, ht, ha, hp, hi, hk⟩ := validate_eq_ok.1 h
  intro text htext
  simp only [texts, List.mem_cons, List.not_mem_nil, or_false] at htext
  rcases htext with rfl | rfl | rfl | rfl | rfl
  · exact ⟨_, ht⟩
  · exact ⟨_, ha⟩
  · exact ⟨_, hp⟩
  · exact ⟨_, hi⟩
  · exact ⟨_, hk⟩

end Venue

/-! ### Judgements -/

namespace Judgement

variable {requireMapPoint : Bool} {v : Venue}

theorem ofRecord_eq_accepted {r : Record} :
    ofRecord requireMapPoint r = .accepted v ↔
      r.validate = .ok v ∧ (requireMapPoint = true → v.location.isMapPoint = true) := by
  unfold ofRecord
  cases r.validate with
  | error e => simp
  | ok w =>
    dsimp only
    split
    · next hmap =>
      simp only [Bool.and_eq_true, Bool.not_eq_true'] at hmap
      simp only [reduceCtorEq, Except.ok.injEq, false_iff, not_and]
      rintro rfl h
      rw [h hmap.1] at hmap
      exact absurd hmap.2 (by decide)
    · next hmap =>
      simp only [accepted.injEq, Except.ok.injEq, iff_self_and]
      rintro rfl hreq
      simpa [hreq] using hmap

/-- A line is accepted for a record with a venue that the settings do not refuse. -/
theorem ofLine_eq_accepted {line : Bytes} :
    ofLine requireMapPoint line = .accepted v ↔
      ∃ r, Record.parse line = .ok r ∧ r.validate = .ok v ∧
        (requireMapPoint = true → v.location.isMapPoint = true) := by
  unfold ofLine
  cases Record.parse line with
  | error f => simp
  | ok r => simp [ofRecord_eq_accepted]

end Judgement

end PlaceFeed
