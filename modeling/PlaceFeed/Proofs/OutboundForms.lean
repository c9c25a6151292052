import PlaceFeed.Proofs.Building
import PlaceFeed.Proofs.Members

/-!
# The two forms of a location

A location leaves as the coordinates of a listing (`Location.toCoordinates`) and as the geo point of
a message (`Location.toGeoPoint`).  Both are functions of its components: the coordinates repeat the
three numbers, and the geo point has a flag and a radius that depend on the exact value of the
accuracy (`Location.parts_toGeoPoint`).

* `Location.radius_spec` : the radius is **the only whole number that the accuracy rounds up to**,
  from 1 to 1500, so it fits into its 32 bits;
* `GeoPoint.member?_accuracyRadius` : a geo point shows its radius when it has one;
* `Location.forms_agree` : **the two forms agree** with each other and with the location.
-/

namespace PlaceFeed

/-! ### The parts of a geo point -/

/-- All that can be read of a geo point.  The empty one shows zeros and no radius. -/
structure GeoPoint.Parts where
  isEmpty : Bool
  flags : Int32
  latitude : Binary64
  longitude : Binary64
  accuracyRadius : Option Int32
deriving DecidableEq

/-- The parts of a geo point, bit for bit. -/
def GeoPoint.parts : GeoPoint → Parts
  | empty => ⟨true, 0, Binary64.zero, Binary64.zero, none⟩
  | point flags latitude longitude accuracyRadius =>
    ⟨false, flags, latitude, longitude, accuracyRadius⟩

/-- A geo point shows its radius when it has one. -/
theorem GeoPoint.member?_accuracyRadius (geo : GeoPoint) :
    geo.toJson.member? "accuracy_radius" =
      geo.parts.accuracyRadius.map fun r => Json.int r.toInt := by
  cases geo with
  | empty =>
    rw [toJson, Json.member?_object]
    rfl
  | point flags latitude longitude accuracyRadius =>
    obtain ⟨-, -, -, -, hradius⟩ := members flags latitude longitude accuracyRadius
    exact hradius

namespace Location

variable {l : Location}

theorem clampAccuracy_accuracy (l : Location) : clampAccuracy l.accuracy = l.accuracy := by
  cases l with
  | empty => decide +kernel
  | point p => exact p.accuracy_clamped

/-! ### Forms by components -/

theorem toCoordinates_eq (l : Location) :
    l.toCoordinates =
      if l.isEmpty then none else some ⟨l.latitude, l.longitude, l.accuracy⟩ := by
  cases l <;> rfl

/-- The geo point has a flag and a radius for an accuracy above zero. -/
theorem parts_toGeoPoint (l : Location) :
    l.toGeoPoint.parts =
      ⟨l.isEmpty, if 0 < l.accuracy.value then accuracyRadiusFlag else 0, l.latitude, l.longitude,
        if 0 < l.accuracy.value then some (Int32.ofInt ⌈l.accuracy.value⌉) else none⟩ := by
  cases l with
  | empty =>
    have hzero : ¬0 < (empty : Location).accuracy.value := by
      rw [Binary64.value_pos_iff rfl]
      decide
    rw [if_neg hzero, if_neg hzero]
    rfl
  | point p =>
    have hsign := (within_of_clamped p.accuracy_clamped).2
    rw [accuracy, Binary64.ceil_value hsign, Int32.ofInt_eq_ofNat]
    simp only [Binary64.value_pos_iff hsign]
    obtain ⟨hzero, h⟩ | ⟨hpos, -, h⟩ := toGeoPoint_point p
    · rw [h, hzero]
      rfl
    · rw [h, if_pos hpos, if_pos hpos]
      rfl

theorem latitude_toGeoPoint (l : Location) : l.toGeoPoint.parts.latitude = l.latitude :=
  congrArg GeoPoint.Parts.latitude l.parts_toGeoPoint

theorem longitude_toGeoPoint (l : Location) : l.toGeoPoint.parts.longitude = l.longitude :=
  congrArg GeoPoint.Parts.longitude l.parts_toGeoPoint

/-! ### Flags and radius -/

theorem flags_toGeoPoint (l : Location) :
    l.toGeoPoint.parts.flags = if 0 < l.accuracy.value then accuracyRadiusFlag else 0 :=
  congrArg GeoPoint.Parts.flags l.parts_toGeoPoint

theorem accuracyRadius_toGeoPoint (l : Location) :
    l.toGeoPoint.parts.accuracyRadius =
      if 0 < l.accuracy.value then some (Int32.ofInt ⌈l.accuracy.value⌉) else none :=
  congrArg GeoPoint.Parts.accuracyRadius l.parts_toGeoPoint

theorem hasRadiusFlag_iff (l : Location) :
    l.toGeoPoint.parts.flags &&& accuracyRadiusFlag ≠ 0 ↔ 0 < l.accuracy.value := by
  rw [flags_toGeoPoint]
  split
  · next h => exact iff_of_true (by decide) h
  · next h => exact iff_of_false (by decide) h

theorem otherFlags_eq_zero (l : Location) :
    l.toGeoPoint.parts.flags &&& ~~~accuracyRadiusFlag = 0 := by
  rw [flags_toGeoPoint]
  split <;> decide

theorem isSome_accuracyRadius_iff (l : Location) :
    l.toGeoPoint.parts.accuracyRadius.isSome = true ↔ 0 < l.accuracy.value := by
  rw [accuracyRadius_toGeoPoint]
  split
  · next h => exact iff_of_true rfl h
  · next h => exact iff_of_false Bool.false_ne_true h

/-- The radius is the accuracy rounded up. -/
theorem radius_spec {r : Int32} (h : l.toGeoPoint.parts.accuracyRadius = some r) :
    1 ≤ r.toInt ∧ r.toInt ≤ 1500 ∧
      ∀ n : ℤ, n - 1 < l.accuracy.value ∧ l.accuracy.value ≤ n ↔ n = r.toInt := by
  have hpos : 0 < l.accuracy.value := by
    rw [← isSome_accuracyRadius_iff, h]
    rfl
  obtain ⟨-, -, -, hmax⟩ := bounds_of_clamped l.clampAccuracy_accuracy
  have hle : ⌈l.accuracy.value⌉ ≤ 1500 := Int.ceil_le.2 (by exact_mod_cast hmax)
  have hceil : 0 < ⌈l.accuracy.value⌉ := Int.ceil_pos.2 hpos
  rw [accuracyRadius_toGeoPoint, if_pos hpos, Option.some.injEq] at h
  -- from 1 to 1500, so that 32 bits hold it
  have hr : r.toInt = ⌈l.accuracy.value⌉ := by
    rw [← h, Int32.toInt_ofInt_of_le (by omega) (by omega)]
  rw [hr]
  refine ⟨hceil, hle, ?_⟩
  intro n
  rw [eq_comm, Int.ceil_eq_iff]

/-! ### Agreement -/

/-- **The two forms agree.**  Both are absent for the empty location only, and have the bits of its
coordinates otherwise.  The flag says whether there is a radius, which is so for an accuracy above
zero, and no other flag is set.  A radius is the accuracy rounded up, and the printed geo point has
it when the flag is set. -/
theorem forms_agree (l : Location) :
    let geo := l.toGeoPoint.parts
    (l.toCoordinates = none ↔ geo.isEmpty = true) ∧
    (geo.isEmpty = true ↔ l.isEmpty = true) ∧
    (l.isEmpty = false →
      ∃ c, l.toCoordinates = some c ∧
        c.latitude = l.latitude ∧ geo.latitude = l.latitude ∧
        c.longitude = l.longitude ∧ geo.longitude = l.longitude) ∧
    (geo.flags &&& accuracyRadiusFlag ≠ 0 ↔ geo.accuracyRadius.isSome = true) ∧
    (geo.accuracyRadius.isSome = true ↔ 0 < l.accuracy.value) ∧
    geo.flags &&& ~~~accuracyRadiusFlag = 0 ∧
    (∀ r, geo.accuracyRadius = some r → 1 ≤ r.toInt ∧ r.toInt ≤ 1500 ∧
      ∀ n : ℤ, n - 1 < l.accuracy.value ∧ l.accuracy.value ≤ n ↔ n = r.toInt) ∧
    ((l.toGeoPoint.toJson.member? "accuracy_radius").isSome = true ↔
      geo.flags &&& accuracyRadiusFlag ≠ 0) := by
  intro geo
  have hempty : geo.isEmpty = l.isEmpty := congrArg GeoPoint.Parts.isEmpty l.parts_toGeoPoint
  have hflag := hasRadiusFlag_iff l
  have hradius := isSome_accuracyRadius_iff l
  refine ⟨?_, by rw [hempty], ?_, hflag.trans hradius.symm, hradius, otherFlags_eq_zero l,
    fun r h => radius_spec h, ?_⟩
  · rw [hempty, toCoordinates_eq]
    cases l.isEmpty <;> simp
  · intro h
    refine ⟨⟨l.latitude, l.longitude, l.accuracy⟩, ?_, rfl, l.latitude_toGeoPoint, rfl,
      l.longitude_toGeoPoint⟩
    rw [toCoordinates_eq, h]
    rfl
  · rw [GeoPoint.member?_accuracyRadius, Option.isSome_map]
    exact hradius.trans hflag.symm

/-- The least accuracy above zero gives a radius of one metre. -/
theorem forms_agree_least_accuracy :
    let l := build ⟨0x3FF0000000000000⟩ ⟨0x8000000000000000⟩ ⟨1⟩ 5
    l.isEmpty = false ∧
      (∃ c, l.toCoordinates = some c ∧
        c.latitude = l.latitude ∧ l.toGeoPoint.parts.latitude = l.latitude ∧
        c.longitude = l.longitude ∧ l.toGeoPoint.parts.longitude = l.longitude) ∧
      l.toGeoPoint.parts.accuracyRadius = some 1 ∧
      ∀ n : ℤ, n - 1 < l.accuracy.value ∧ l.accuracy.value ≤ n ↔ n = 1 := by
  intro l
  have hempty : l.isEmpty = false := by decide +kernel
  have hradius : l.toGeoPoint.parts.accuracyRadius = some 1 := by decide +kernel
  obtain ⟨-, -, hcoordinates, -, -, -, hceil, -⟩ := forms_agree l
  obtain ⟨-, -, hunique⟩ := hceil 1 hradius
  exact ⟨hempty, hcoordinates hempty, hradius, hunique⟩

end Location

end PlaceFeed
