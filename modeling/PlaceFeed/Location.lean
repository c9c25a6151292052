import PlaceFeed.Json.Basic
import PlaceFeed.Log

/-!
# Locations

A `Location` is either empty or a `Point` with finite coordinates on the globe and an accuracy
between 0 and 1500 metres.  `Location.build` makes one of any four numbers: bad coordinates give
the empty location, and an accuracy out of range is moved to the nearer end
(`Location.clampAccuracy`).  The invariant is part of the type, so no other value exists.

A location leaves in two forms.  `Location.toCoordinates` is the listing's, and
`Location.toGeoPoint` is the one of the outbound message, whose accuracy is a whole number of
metres, rounded up and left out when it is zero.
-/

namespace PlaceFeed

namespace Location

/-! ### Accuracy -/

/-- The greatest accuracy, 1500 metres. -/
def maxAccuracy : Binary64 := ⟨0x4097700000000000⟩

/-- An accuracy that is not finite or not positive becomes zero, one above the limit becomes the
limit. -/
def clampAccuracy (accuracy : Binary64) : Binary64 :=
  if !accuracy.isFinite || accuracy.units ≤ 0 then Binary64.zero
  else if maxAccuracy.absUnits ≤ accuracy.absUnits then maxAccuracy
  else accuracy

theorem clampAccuracy_clampAccuracy (accuracy : Binary64) :
    clampAccuracy (clampAccuracy accuracy) = clampAccuracy accuracy := by
  have hzero : clampAccuracy Binary64.zero = Binary64.zero := by decide +kernel
  have hmax : clampAccuracy maxAccuracy = maxAccuracy := by decide +kernel
  have h : clampAccuracy accuracy = Binary64.zero ∨ clampAccuracy accuracy = maxAccuracy ∨
      clampAccuracy accuracy = accuracy := by
    unfold clampAccuracy
    split
    · exact .inl rfl
    · split
      · exact .inr (.inl rfl)
      · exact .inr (.inr rfl)
  obtain h | h | h := h
  · rw [h, hzero]
  · rw [h, hmax]
  · rw [h, h]

end Location

/-! ### Points and locations -/

/-- A point on the globe, in degrees, with its accuracy in metres and the token that its source
knows it by. -/
structure Point where
  latitude : Binary64
  longitude : Binary64
  accuracy : Binary64
  accessHash : Int64
  latitude_within : latitude.Within 90
  longitude_within : longitude.Within 180
  accuracy_clamped : Location.clampAccuracy accuracy = accuracy
deriving DecidableEq

/-- A place on the globe, or none. -/
inductive Location
  | empty
  | point (p : Point)
deriving DecidableEq

/-- The coordinates of a location as a listing shows them. -/
structure Coordinates where
  latitude : Binary64
  longitude : Binary64
  accuracy : Binary64
deriving DecidableEq

/-- The location part of an outbound message. -/
inductive GeoPoint
  | empty
  | point (flags : Int32) (latitude longitude : Binary64) (accuracyRadius : Option Int32)
deriving DecidableEq

namespace Location

/-- The **location with these components**, or the empty one when the coordinates are not finite
or not on the globe. -/
def build (latitude longitude accuracy : Binary64) (accessHash : Int64) : Location :=
  if h : latitude.Within 90 ∧ longitude.Within 180 then
    .point {
      latitude, longitude, accessHash
      accuracy := clampAccuracy accuracy
      latitude_within := h.1
      longitude_within := h.2
      accuracy_clamped := clampAccuracy_clampAccuracy accuracy }
  else .empty

/-- The location of a listing's coordinates, which carry no access hash. -/
def ofCoordinates (c : Coordinates) : Location := build c.latitude c.longitude c.accuracy 0

/-- What `build` has to say: that it made the empty location. -/
def remarks (latitude longitude : Binary64) : List Log.Message :=
  if latitude.Within 90 ∧ longitude.Within 180 then []
  else [⟨.trace, Bytes.ofString "Location (" ++ latitude.toBytes ++ Bytes.ofString ", "
    ++ longitude.toBytes ++ Bytes.ofString ") out of range, using empty location"⟩]

/-! ### Components -/

/-- No place at all. -/
def isEmpty : Location → Bool
  | empty => true
  | point _ => false

/-- The latitude, zero for the empty location. -/
def latitude : Location → Binary64
  | empty => Binary64.zero
  | point p => p.latitude

/-- The longitude, zero for the empty location. -/
def longitude : Location → Binary64
  | empty => Binary64.zero
  | point p => p.longitude

/-- The accuracy, zero for the empty location. -/
def accuracy : Location → Binary64
  | empty => Binary64.zero
  | point p => p.accuracy

/-- The access hash, zero for the empty location. -/
def accessHash : Location → Int64
  | empty => 0
  | point p => p.accessHash

/-- The greatest latitude that a Mercator map shows, 85.05112877 degrees. -/
def mapLimit : Binary64 := ⟨0x40554345B19AC239⟩

/-- A point that a Mercator map shows. -/
def isMapPoint : Location → Bool
  | empty => false
  | point p => p.latitude.absUnits ≤ mapLimit.absUnits

/-- The same access hash and numerically equal coordinates and accuracy. -/
def same : Location → Location → Bool
  | empty, empty => true
  | point p, point q =>
    p.latitude.sameValue q.latitude && p.longitude.sameValue q.longitude &&
      p.accuracy.sameValue q.accuracy && p.accessHash == q.accessHash
  | _, _ => false

/-- Not the same. -/
def differs (l m : Location) : Bool := !l.same m

/-! ### Outbound forms -/

/-- The flag of a geo point that has an accuracy radius. -/
def accuracyRadiusFlag : Int32 := 1

/-- The coordinates, unless there are none. -/
def toCoordinates : Location → Option Coordinates
  | empty => none
  | point p => some ⟨p.latitude, p.longitude, p.accuracy⟩

/-- The location part of an outbound message. -/
def toGeoPoint : Location → GeoPoint
  | empty => .empty
  | point p =>
    if 0 < p.accuracy.units then
      .point accuracyRadiusFlag p.latitude p.longitude (some (Int32.ofNat p.accuracy.ceilAbs))
    else .point 0 p.latitude p.longitude none

end Location

/-- The coordinates as a member of a listing. -/
def Coordinates.toJson (c : Coordinates) : Json :=
  .object [
    ("latitude", .float c.latitude),
    ("longitude", .float c.longitude),
    ("horizontal_accuracy", .float c.accuracy)]

/-- The geo point as a member of an outbound message. -/
def GeoPoint.toJson : GeoPoint → Json
  | empty => .object [("_", .string "inputGeoPointEmpty")]
  | point flags latitude longitude radius =>
    .object ([
      ("_", .string "inputGeoPoint"),
      ("flags", .int flags.toInt),
      ("lat", .float latitude),
      ("long", .float longitude)]
      ++ (radius.map fun r => ("accuracy_radius", Json.int r.toInt)).toList)

end PlaceFeed
