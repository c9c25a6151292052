import PlaceFeed.Location
import PlaceFeed.Text.Clean

/-!
# Venues

A `Venue` is a named place: a location with five texts.  `Venue.validate` makes one of a location
and any five byte strings.  It refuses the empty location, then cleans the texts in a fixed order,
and the first fault is the answer; nothing is built before every part is good.

A venue leaves in two forms, as the part of an outbound message (`Venue.toMedia`) and as a listing
(`Venue.toListing`), which only a venue with a location has.
-/

namespace PlaceFeed

/-- A named place. -/
structure Venue where
  location : Location
  title : Bytes
  address : Bytes
  /-- The directory that the identifier belongs to. -/
  provider : Bytes
  id : Bytes
  /-- The kind of place, in the directory's words. -/
  kind : Bytes
deriving DecidableEq

/-- What is wrong with the parts of a venue. -/
inductive Venue.Fault
  | emptyLocation
  | title
  | address
  | provider
  | id
  | kind
deriving DecidableEq

namespace Venue.Fault

/-- The name of an error in a report. -/
def name : Fault → String
  | emptyLocation => "INVALID_LOCATION"
  | title => "INVALID_TITLE"
  | address => "INVALID_ADDRESS"
  | provider => "INVALID_PROVIDER"
  | id => "INVALID_ID"
  | kind => "INVALID_TYPE"

/-- The reason that a report gives. -/
def reason : Fault → String
  | emptyLocation => "Venue must be non-empty"
  | title => "Venue title: Strings must be encoded in UTF-8"
  | address => "Venue address: Strings must be encoded in UTF-8"
  | provider => "Venue provider: Strings must be encoded in UTF-8"
  | id => "Venue id: Strings must be encoded in UTF-8"
  | kind => "Venue type: Strings must be encoded in UTF-8"

/-- The name of an outcome, which may be no error at all. -/
def outcomeName : Option Fault → String
  | none => "NONE"
  | some e => e.name

/-- The outcomes in the order of their numbers. -/
def outcomes : List (Option Fault) :=
  [none, some emptyLocation, some title, some address, some provider, some id, some kind]

/-- The name of the outcome with a number. -/
def nameOfNumber (number : Nat) : String :=
  match outcomes[number]? with
  | some outcome => outcomeName outcome
  | none => "UNKNOWN"

end Venue.Fault

namespace Venue

/-! ### Building -/

/-- The venue without a location and with empty texts. -/
def empty : Venue := ⟨.empty, [], [], [], [], []⟩

/-- A cleaned text, or the error of its field. -/
def cleanField (error : Fault) (text : Bytes) : Except Fault Bytes :=
  match Clean.clean text with
  | some t => .ok t
  | none => .error error

/-- The **venue with these parts**, its texts cleaned, or the first fault among them. -/
def validate (location : Location) (title address provider id kind : Bytes) :
    Except Fault Venue := do
  if location.isEmpty then throw .emptyLocation
  let title ← cleanField .title title
  let address ← cleanField .address address
  let provider ← cleanField .provider provider
  let id ← cleanField .id id
  let kind ← cleanField .kind kind
  return { location, title, address, provider, id, kind }

/-- What `validate` has to say: which fault it found. -/
def remarks : Except Fault Venue → List Log.Message
  | .ok _ => []
  | .error e => [⟨.debug, Bytes.ofString "Venue rejected: " ++ Bytes.ofString e.name
      ++ Bytes.ofString " (" ++ Bytes.ofString e.reason ++ Bytes.ofString ")"⟩]

/-! ### Comparing -/

/-- The venue has no location. -/
def isEmpty (v : Venue) : Bool := v.location.isEmpty

/-- Equal texts at the same location. -/
def same (v w : Venue) : Bool :=
  v.location.same w.location && v.title == w.title && v.address == w.address &&
    v.provider == w.provider && v.id == w.id && v.kind == w.kind

/-- Not the same. -/
def differs (v w : Venue) : Bool := !v.same w

/-- The venue is known to `provider` as `id`. -/
def isKnownAs (v : Venue) (provider id : Bytes) : Bool := v.provider == provider && v.id == id

/-- Both venues are one place to one provider. -/
def isSamePlace (v w : Venue) : Bool := v.isKnownAs w.provider w.id

end Venue

/-! ### Outbound forms -/

/-- The venue part of an outbound message. -/
structure Media where
  geoPoint : GeoPoint
  title : Bytes
  address : Bytes
  provider : Bytes
  venueId : Bytes
  venueType : Bytes
deriving DecidableEq

/-- A venue as an entry of a list of places. -/
structure Listing where
  location : Coordinates
  title : Bytes
  address : Bytes
  provider : Bytes
  id : Bytes
  kind : Bytes
deriving DecidableEq

/-- The venue part of an outbound message. -/
def Venue.toMedia (v : Venue) : Media :=
  ⟨v.location.toGeoPoint, v.title, v.address, v.provider, v.id, v.kind⟩

/-- The listing of a venue with a location. -/
def Venue.toListing (v : Venue) : Option Listing :=
  v.location.toCoordinates.map fun c => ⟨c, v.title, v.address, v.provider, v.id, v.kind⟩

/-- The media as it is printed. -/
def Media.toJson (m : Media) : Json :=
  .object [
    ("_", .string "inputMediaVenue"),
    ("geo_point", m.geoPoint.toJson),
    ("title", .str m.title),
    ("address", .str m.address),
    ("provider", .str m.provider),
    ("venue_id", .str m.venueId),
    ("venue_type", .str m.venueType)]

/-- The listing as it is printed. -/
def Listing.toJson (l : Listing) : Json :=
  .object [
    ("location", l.location.toJson),
    ("title", .str l.title),
    ("address", .str l.address),
    ("provider", .str l.provider),
    ("id", .str l.id),
    ("type", .str l.kind)]

end PlaceFeed
