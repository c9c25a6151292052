import PlaceFeed.Proofs.Acceptance
import PlaceFeed.Proofs.OutboundForms

/-!
# Equality

Locations are compared number by number (`Location.same`), and numerical equality is no equality of
bits: it takes the two zeros for one, and a NaN for nothing.  The numbers of a location are finite,
so that on locations it is the equality of exact values (`Location.values`).

* `Location.same_iff`, `Venue.same_iff` : **the same** locations are those with the same values, and
  the same venues have the same texts as well;
* `Location.looksLike_of_values_eq` : whatever a location shows is a function of its values, up to
  the sign of a zero;
* `equality_lawful` : equality is therefore an **equivalence that no observation refines**.
-/

namespace PlaceFeed

/-- Two finite numbers with one value. -/
def Binary64.SameNumber (x y : Binary64) : Prop :=
  x.isFinite = true ∧ y.isFinite = true ∧ x.value = y.value

/-- Coordinates that are numerically equal. -/
structure Coordinates.SameNumbers (c d : Coordinates) : Prop where
  latitude : c.latitude.SameNumber d.latitude
  longitude : c.longitude.SameNumber d.longitude
  accuracy : c.accuracy.SameNumber d.accuracy

namespace Location

variable {l m : Location}

/-! ### Values -/

/-- The components with their numbers in another form. -/
def Components.map {α β : Type} (f : α → β) (c : Components α) : Components β :=
  ⟨c.isEmpty, f c.latitude, f c.longitude, f c.accuracy, c.accessHash⟩

/-- The components of a location by the exact values of its numbers. -/
def values (l : Location) : Components ℚ := l.components.map Binary64.value

theorem isFinite_latitude (l : Location) : l.latitude.isFinite = true := by
  cases l with
  | empty => rfl
  | point p => exact p.latitude_within.1

theorem isFinite_longitude (l : Location) : l.longitude.isFinite = true := by
  cases l with
  | empty => rfl
  | point p => exact p.longitude_within.1

theorem isFinite_accuracy (l : Location) : l.accuracy.isFinite = true :=
  (bounds_of_clamped l.clampAccuracy_accuracy).1

theorem values_ne (h : l.isEmpty ≠ m.isEmpty) : l.values ≠ m.values := by
  intro hvalues
  exact h (congrArg Components.isEmpty hvalues)

/-- The same locations are those with the same values. -/
theorem same_iff : l.same m = true ↔ l.values = m.values := by
  cases l with
  | empty =>
    cases m with
    | empty => exact iff_of_true rfl rfl
    | point q => exact iff_of_false Bool.false_ne_true (values_ne Bool.false_ne_true.symm)
  | point p =>
    cases m with
    | empty => exact iff_of_false Bool.false_ne_true (values_ne Bool.false_ne_true)
    | point q =>
      have hlatitude := Binary64.sameValue_iff (point p).isFinite_latitude
        (point q).isFinite_latitude
      have hlongitude := Binary64.sameValue_iff (point p).isFinite_longitude
        (point q).isFinite_longitude
      have haccuracy := Binary64.sameValue_iff (point p).isFinite_accuracy
        (point q).isFinite_accuracy
      simp only [latitude, longitude, accuracy] at hlatitude hlongitude haccuracy
      simp [same, hlatitude, hlongitude, haccuracy, values, components, Components.map, isEmpty,
        latitude, longitude, accuracy, accessHash, and_assoc]

theorem same_self (l : Location) : l.same l = true := same_iff.2 rfl

theorem equivalence_same : Equivalence fun l m : Location => l.same m = true := by
  simp only [same_iff]
  exact eq_equivalence.comap values

theorem same_empty_iff : l.same empty = true ↔ l.isEmpty = true := by
  cases l with
  | empty => exact iff_of_true rfl rfl
  | point p => exact iff_of_false Bool.false_ne_true Bool.false_ne_true

/-! ### Observations -/

/-- Two locations **look alike** when they show the same, but for the sign of a zero. -/
structure LooksLike (l m : Location) : Prop where
  isEmpty : l.isEmpty = m.isEmpty
  isMapPoint : l.isMapPoint = m.isMapPoint
  accessHash : l.accessHash = m.accessHash
  flags : l.toGeoPoint.parts.flags = m.toGeoPoint.parts.flags
  accuracyRadius : l.toGeoPoint.parts.accuracyRadius = m.toGeoPoint.parts.accuracyRadius
  latitude : l.toGeoPoint.parts.latitude.SameNumber m.toGeoPoint.parts.latitude
  longitude : l.toGeoPoint.parts.longitude.SameNumber m.toGeoPoint.parts.longitude
  coordinates : Option.Rel Coordinates.SameNumbers l.toCoordinates m.toCoordinates

theorem isMapPoint_iff :
    l.isMapPoint = true ↔ l.isEmpty = false ∧ |l.latitude.value| ≤ |mapLimit.value| := by
  cases l with
  | empty => exact iff_of_false Bool.false_ne_true fun h => nomatch h.1
  | point p => simp [isMapPoint, isEmpty, latitude, Binary64.abs_value_le_abs_value_iff]

/-- What a location shows depends on its values only. -/
theorem looksLike_of_values_eq (h : l.values = m.values) : l.LooksLike m := by
  have hempty : l.isEmpty = m.isEmpty := congrArg Components.isEmpty h
  have hlatitude : l.latitude.SameNumber m.latitude :=
    ⟨l.isFinite_latitude, m.isFinite_latitude, congrArg Components.latitude h⟩
  have hlongitude : l.longitude.SameNumber m.longitude :=
    ⟨l.isFinite_longitude, m.isFinite_longitude, congrArg Components.longitude h⟩
  have haccuracy : l.accuracy.SameNumber m.accuracy :=
    ⟨l.isFinite_accuracy, m.isFinite_accuracy, congrArg Components.accuracy h⟩
  constructor
  case isEmpty => exact hempty
  case isMapPoint =>
    rw [Bool.eq_iff_iff, isMapPoint_iff, isMapPoint_iff, hempty, hlatitude.2.2]
  case accessHash => exact congrArg Components.accessHash h
  case flags => rw [flags_toGeoPoint, flags_toGeoPoint, haccuracy.2.2]
  case accuracyRadius =>
    rw [accuracyRadius_toGeoPoint, accuracyRadius_toGeoPoint, haccuracy.2.2]
  case latitude => rwa [latitude_toGeoPoint, latitude_toGeoPoint]
  case longitude => rwa [longitude_toGeoPoint, longitude_toGeoPoint]
  case coordinates =>
    rw [toCoordinates_eq, toCoordinates_eq, hempty]
    split
    · exact .none
    · exact .some ⟨hlatitude, hlongitude, haccuracy⟩

end Location

/-! ### Venues -/

namespace Venue

variable {v w : Venue}

/-- The same venues are those with the same values and texts. -/
theorem same_iff :
    v.same w = true ↔ v.location.values = w.location.values ∧ v.texts = w.texts := by
  simp [same, texts, Location.same_iff, and_assoc]

theorem same_self (v : Venue) : v.same v = true := same_iff.2 ⟨rfl, rfl⟩

theorem equivalence_same : Equivalence fun v w : Venue => v.same w = true := by
  simp only [same_iff, ← Prod.mk.injEq]
  exact eq_equivalence.comap fun v : Venue => (v.location.values, v.texts)

/-- Two venues look alike when their locations do, and their texts are the same; no third venue is
the same place as one of them and not as the other. -/
structure LooksLike (v w : Venue) : Prop where
  location : v.location.LooksLike w.location
  isEmpty : v.isEmpty = w.isEmpty
  texts : v.texts = w.texts
  isSamePlace : ∀ u, v.isSamePlace u = w.isSamePlace u
  isSamePlace_right : ∀ u : Venue, u.isSamePlace v = u.isSamePlace w

theorem looksLike_of_same (h : v.same w = true) : v.LooksLike w := by
  obtain ⟨hvalues, htexts⟩ := same_iff.1 h
  have hlocation := Location.looksLike_of_values_eq hvalues
  have hplace : v.provider = w.provider ∧ v.id = w.id := by
    simp only [texts, List.cons.injEq] at htexts
    exact ⟨htexts.2.2.1, htexts.2.2.2.1⟩
  refine ⟨hlocation, hlocation.isEmpty, htexts, ?_, ?_⟩
  · intro u
    rw [isSamePlace, isSamePlace, isKnownAs, isKnownAs, hplace.1, hplace.2]
  · intro u
    rw [isSamePlace, isSamePlace, hplace.1, hplace.2]

end Venue

/-! ### Laws -/

/-- **Equality is an equivalence that no observation refines.**  On locations and on venues it is
reflexive, symmetric and transitive, and being different is its negation.  The locations that are
the same as the empty one are the empty ones, and what is the same looks alike. -/
theorem equality_lawful :
    (Equivalence fun l m : Location => l.same m = true) ∧
    (Equivalence fun v w : Venue => v.same w = true) ∧
    (∀ l m : Location, l.differs m = true ↔ ¬l.same m = true) ∧
    (∀ v w : Venue, v.differs w = true ↔ ¬v.same w = true) ∧
    (∀ l : Location, l.same .empty = true ↔ l.isEmpty = true) ∧
    (∀ l m : Location, l.same m = true → l.LooksLike m) ∧
    ∀ v w : Venue, v.same w = true → v.LooksLike w := by
  refine ⟨Location.equivalence_same, Venue.equivalence_same, ?_, ?_,
    fun l => Location.same_empty_iff, ?_, fun v w h => Venue.looksLike_of_same h⟩
  · intro l m
    simp [Location.differs]
  · intro v w
    simp [Venue.differs]
  · intro l m h
    exact Location.looksLike_of_values_eq (Location.same_iff.1 h)

/-- Two locations that differ in the sign of a zero and in how their accuracy is no number. -/
theorem equality_lawful_signed_zeros :
    let l := Location.build Binary64.zero ⟨0xC004000000000000⟩ Binary64.nan 7
    let m := Location.build ⟨0x8000000000000000⟩ ⟨0xC004000000000000⟩ ⟨0xFFF0000000000000⟩ 7
    l.components ≠ m.components ∧ l.same m = true ∧ l.LooksLike m ∧
      Venue.LooksLike ⟨l, [0x61], [], [0x70], [0x37], []⟩ ⟨m, [0x61], [], [0x70], [0x37], []⟩ := by
  intro l m
  have hne : l.components ≠ m.components := by decide +kernel
  have hsame : l.same m = true := by decide +kernel
  obtain ⟨-, -, -, -, -, hlocations, hvenues⟩ := equality_lawful
  refine ⟨hne, hsame, hlocations l m hsame, hvenues _ _ ?_⟩
  decide +kernel

end PlaceFeed
