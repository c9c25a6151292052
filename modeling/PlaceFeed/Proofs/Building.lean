import PlaceFeed.Proofs.ExactValues

/-!
# What is built of four numbers

`Location.Components` is all that can be read of a location.  What building makes is said here by
exact values (`Binary64.value`): which coordinates are off the globe, and what becomes of an
accuracy.  A NaN fails every comparison, and is off the globe or no accuracy because it is not
finite.

* `Location.components_build` : the components of what is built, in both cases;
* `Location.isClamped_clampAccuracy` : an accuracy is kept, or moved to the nearer end of its range;
* `Location.exists_build` : every location is built of some numbers;
* `Location.build_exact` : **building is exact**, and the components of a location build it again.
-/

namespace PlaceFeed

namespace Location

open Binary64 (value)

variable {l : Location}

/-! ### Components -/

/-- The components of a location, with its three numbers in one form or another. -/
structure Components (α : Type) where
  isEmpty : Bool
  latitude : α
  longitude : α
  accuracy : α
  accessHash : Int64
deriving DecidableEq

/-- The components of a location, bit for bit. -/
def components (l : Location) : Components Binary64 :=
  ⟨l.isEmpty, l.latitude, l.longitude, l.accuracy, l.accessHash⟩

/-- The components of the empty location. -/
def Components.zero : Components Binary64 :=
  ⟨true, Binary64.zero, Binary64.zero, Binary64.zero, 0⟩

theorem exists_point_of_not_isEmpty (h : l.isEmpty = false) : ∃ p, l = point p := by
  cases l with
  | empty => cases h
  | point p => exact ⟨p, rfl⟩

/-! ### Coordinates -/

/-- The coordinates are those of no place: one of them is not finite, or too large. -/
def IsOffGlobe (latitude longitude : Binary64) : Prop :=
  latitude.isFinite = false ∨ longitude.isFinite = false ∨ 90 < |latitude.value| ∨
    180 < |longitude.value|

theorem isOffGlobe_iff {latitude longitude : Binary64} :
    IsOffGlobe latitude longitude ↔ ¬(latitude.Within 90 ∧ longitude.Within 180) := by
  simp only [IsOffGlobe, Binary64.within_iff, Nat.cast_ofNat, ← not_le, ← Bool.not_eq_true]
  tauto

/-- The components of what is built: those of the empty location for coordinates of no place, and
otherwise the numbers that were given, but for the accuracy. -/
theorem components_build (latitude longitude accuracy : Binary64) (accessHash : Int64) :
    (IsOffGlobe latitude longitude ∧
        (build latitude longitude accuracy accessHash).components = .zero) ∨
      (¬IsOffGlobe latitude longitude ∧
        (build latitude longitude accuracy accessHash).components =
          ⟨false, latitude, longitude, clampAccuracy accuracy, accessHash⟩) := by
  rw [isOffGlobe_iff, not_not, build]
  split
  · next h => exact .inr ⟨h, rfl⟩
  · next h => exact .inl ⟨h, rfl⟩

/-! ### Accuracy -/

/-- What becomes of an accuracy.  The one that is kept is a number from zero to 1500 without a sign,
so it is no negative zero. -/
structure IsClamped (given kept : Binary64) : Prop where
  isFinite : kept.isFinite = true
  isNegative : kept.isNegative = false
  nonneg : 0 ≤ kept.value
  le : kept.value ≤ 1500
  of_nonpos : given.isFinite = false ∨ given.value ≤ 0 → kept = Binary64.zero
  of_le : given.isFinite = true → 1500 ≤ given.value → kept = maxAccuracy
  of_between : given.isFinite = true → 0 < given.value → given.value < 1500 → kept = given

theorem value_maxAccuracy : maxAccuracy.value = 1500 := by
  have hunits : maxAccuracy.units = 1500 * Binary64.one := by
    rw [Binary64.units_eq_absUnits rfl, absUnits_maxAccuracy]
    exact_mod_cast rfl
  rw [← mul_left_inj' Binary64.cast_one_pos.ne', Binary64.value_mul_one, hunits]
  push_cast
  rfl

/-- An accuracy that is clamped is a number from zero to 1500 without a sign. -/
theorem bounds_of_clamped {accuracy : Binary64} (h : clampAccuracy accuracy = accuracy) :
    accuracy.isFinite = true ∧ accuracy.isNegative = false ∧ 0 ≤ accuracy.value ∧
      accuracy.value ≤ 1500 := by
  obtain ⟨hwithin, hsign⟩ := within_of_clamped h
  obtain ⟨hfinite, hle⟩ := Binary64.within_iff.1 hwithin
  have hnonneg := Binary64.value_nonneg hsign
  rw [abs_of_nonneg hnonneg, Nat.cast_ofNat] at hle
  exact ⟨hfinite, hsign, hnonneg, hle⟩

/-- Clamping compares exact values. -/
theorem clampAccuracy_eq (given : Binary64) :
    clampAccuracy given =
      if given.isFinite = false ∨ given.value ≤ 0 then Binary64.zero
      else if 1500 ≤ given.value then maxAccuracy
      else given := by
  have hnonpos : (!given.isFinite || given.units ≤ 0) = true ↔
      given.isFinite = false ∨ given.value ≤ 0 := by
    simp [Binary64.value_nonpos_iff]
  unfold clampAccuracy
  split
  · next h => rw [if_pos (hnonpos.1 h)]
  · next h =>
    have hpos : 0 < given.value := not_le.1 fun hle => h (hnonpos.2 (.inr hle))
    rw [if_neg fun h' => h (hnonpos.2 h')]
    simp only [← Binary64.abs_value_le_abs_value_iff, value_maxAccuracy, abs_of_pos hpos]
    norm_num

theorem isClamped_clampAccuracy (given : Binary64) : IsClamped given (clampAccuracy given) := by
  obtain ⟨hfinite, hsign, hnonneg, hle⟩ := bounds_of_clamped (clampAccuracy_clampAccuracy given)
  have hpositive : given.isFinite = true → 0 < given.value →
      ¬(given.isFinite = false ∨ given.value ≤ 0) := by
    rintro h hpos (hinfinite | hnonpos)
    · rw [h] at hinfinite
      cases hinfinite
    · exact absurd hpos (not_lt.2 hnonpos)
  refine ⟨hfinite, hsign, hnonneg, hle, ?_, ?_, ?_⟩
  · intro h
    rw [clampAccuracy_eq, if_pos h]
  · intro h hmax
    have hpos : 0 < given.value := by linarith
    rw [clampAccuracy_eq, if_neg (hpositive h hpos), if_pos hmax]
  · intro h hpos hmax
    rw [clampAccuracy_eq, if_neg (hpositive h hpos), if_neg (not_le.2 hmax)]

/-! ### Building again -/

/-- The numbers of a point give the point back, under any access hash. -/
theorem build_point (p : Point) (accessHash : Int64) :
    build p.latitude p.longitude p.accuracy accessHash = .point { p with accessHash } := by
  rw [build, dif_pos ⟨p.latitude_within, p.longitude_within⟩]
  simp only [p.accuracy_clamped]

theorem build_components (h : l.isEmpty = false) :
    build l.latitude l.longitude l.accuracy l.accessHash = l := by
  obtain ⟨p, rfl⟩ := exists_point_of_not_isEmpty h
  exact build_point p p.accessHash

/-- The coordinates of a location are built to the same location without its access hash. -/
theorem exists_toCoordinates (h : l.isEmpty = false) :
    ∃ c, l.toCoordinates = some c ∧
      (ofCoordinates c).components = { l.components with accessHash := 0 } := by
  obtain ⟨p, rfl⟩ := exists_point_of_not_isEmpty h
  refine ⟨⟨p.latitude, p.longitude, p.accuracy⟩, rfl, ?_⟩
  rw [ofCoordinates, build_point p 0]
  rfl

/-- Every location is built of some numbers. -/
theorem exists_build (l : Location) :
    ∃ latitude longitude accuracy accessHash,
      build latitude longitude accuracy accessHash = l := by
  cases l with
  | empty => exact ⟨Binary64.nan, Binary64.nan, Binary64.nan, 0, by decide⟩
  | point p => exact ⟨p.latitude, p.longitude, p.accuracy, p.accessHash, build_point p p.accessHash⟩

/-- **Building is exact.**  Coordinates of no place give the empty location, with all its numbers
zero.  Any others are kept bit for bit with the access hash, and the accuracy is clamped.  Every
location is built of some numbers, and one that is not empty is built again of its components, and
of its coordinates but for the access hash. -/
theorem build_exact :
    (∀ latitude longitude accuracy accessHash,
      let built := build latitude longitude accuracy accessHash
      (built.components = .zero ↔ IsOffGlobe latitude longitude) ∧
        (¬IsOffGlobe latitude longitude → ∃ kept, IsClamped accuracy kept ∧
          built.components = ⟨false, latitude, longitude, kept, accessHash⟩)) ∧
    maxAccuracy.value = 1500 ∧
    ∀ l : Location,
      (∃ latitude longitude accuracy accessHash,
        build latitude longitude accuracy accessHash = l) ∧
      (l.isEmpty = false →
        build l.latitude l.longitude l.accuracy l.accessHash = l ∧
        ∃ c, l.toCoordinates = some c ∧
          (ofCoordinates c).components = { l.components with accessHash := 0 }) := by
  refine ⟨?_, value_maxAccuracy, ?_⟩
  · intro latitude longitude accuracy accessHash built
    obtain ⟨hoff, hzero⟩ | ⟨hon, hbuilt⟩ :=
      components_build latitude longitude accuracy accessHash
    · exact ⟨iff_of_true hzero hoff, fun hon => absurd hoff hon⟩
    · have hne : built.components ≠ .zero := by
        rw [hbuilt]
        exact fun h => Bool.false_ne_true (congrArg Components.isEmpty h)
      exact ⟨iff_of_false hne hon, fun _ => ⟨_, isClamped_clampAccuracy accuracy, hbuilt⟩⟩
  · intro l
    exact ⟨exists_build l, fun h => ⟨build_components h, exists_toCoordinates h⟩⟩

/-- A negative zero and a bound of the globe are kept as they are, and a NaN for the accuracy
becomes zero. -/
theorem build_exact_signed_zero :
    let latitude : Binary64 := ⟨0x8000000000000000⟩
    let longitude : Binary64 := ⟨0xC066800000000000⟩
    let built := build latitude longitude Binary64.nan (-7)
    ¬IsOffGlobe latitude longitude ∧ built.isEmpty = false ∧
      (∃ kept, IsClamped Binary64.nan kept ∧
        built.components = ⟨false, latitude, longitude, kept, -7⟩) ∧
      build built.latitude built.longitude built.accuracy built.accessHash = built ∧
      ∃ c, built.toCoordinates = some c ∧
        (ofCoordinates c).components = { built.components with accessHash := 0 } := by
  intro latitude longitude built
  have hon : ¬IsOffGlobe latitude longitude := by
    rw [isOffGlobe_iff, not_not]
    decide +kernel
  have hempty : built.isEmpty = false := by decide +kernel
  obtain ⟨hbuild, -, hagain⟩ := build_exact
  obtain ⟨-, hcomponents⟩ := hbuild latitude longitude Binary64.nan (-7)
  obtain ⟨-, hrebuild⟩ := hagain built
  exact ⟨hon, hempty, hcomponents hon, hrebuild hempty⟩

end Location

end PlaceFeed
