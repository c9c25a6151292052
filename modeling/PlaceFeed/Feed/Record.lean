import PlaceFeed.Json.Parser
import PlaceFeed.Venue

/-!
# Feed records

A line of a feed is a JSON object with up to nine members that matter.  `Record.parse` decodes it,
and `Record.Fault` says why a line is no record.  An absent coordinate is a NaN, an absent accuracy
or access hash is zero, and an absent text is empty.  A member of the wrong kind is a fault, `null`
included, and of several faults the first in the order of the members counts.
-/

namespace PlaceFeed

/-- Why a line is not a record. -/
inductive Record.Fault
  | notJson
  | notObject
  | wrongKind
  | accessHashNotInteger
  | accessHashOutOfRange
deriving DecidableEq

/-- The reason that a report gives. -/
def Record.Fault.reason : Record.Fault → String
  | notJson => "<json error>"
  | notObject => "record must be a JSON object"
  | wrongKind => "<json error>"
  | accessHashNotInteger => "access_hash must be an integer"
  | accessHashOutOfRange => "access_hash is out of range"

/-- The venue that a line of a feed describes, before any check. -/
structure Record where
  latitude : Binary64
  longitude : Binary64
  accuracy : Binary64
  accessHash : Int64
  title : Bytes
  address : Bytes
  provider : Bytes
  id : Bytes
  kind : Bytes
deriving DecidableEq

namespace Record

/-- A member read as one kind, with a default for an absent one. -/
def member (read : Json → Option α) (default : α) (members : Json.Members) (key : String) :
    Except Fault α :=
  match Json.read read default members key with
  | some a => .ok a
  | none => .error .wrongKind

/-- The access hash: an integer of 64 bits with a sign. -/
def accessHashMember (members : Json.Members) : Except Fault Int64 :=
  match Json.lookup members (Bytes.ofString "access_hash") with
  | none => .ok 0
  | some (.int n) =>
    if -0x8000000000000000 ≤ n ∧ n < 0x8000000000000000 then .ok (Int64.ofInt n)
    else .error .accessHashOutOfRange
  | some _ => .error .accessHashNotInteger

/-- The record with an object's members. -/
def ofMembers (members : Json.Members) : Except Fault Record := do
  let latitude ← member Json.number? Binary64.nan members "latitude"
  let longitude ← member Json.number? Binary64.nan members "longitude"
  let accuracy ← member Json.number? Binary64.zero members "horizontal_accuracy"
  let accessHash ← accessHashMember members
  let title ← member Json.string? [] members "title"
  let address ← member Json.string? [] members "address"
  let provider ← member Json.string? [] members "provider"
  let id ← member Json.string? [] members "id"
  let kind ← member Json.string? [] members "type"
  return { latitude, longitude, accuracy, accessHash, title, address, provider, id, kind }

/-- The **record in a line**. -/
def parse (line : Bytes) : Except Fault Record :=
  match Json.parse? line with
  | none => .error .notJson
  | some (.obj members) => ofMembers members
  | some _ => .error .notObject

/-- The location of a record. -/
def location (r : Record) : Location :=
  Location.build r.latitude r.longitude r.accuracy r.accessHash

/-- The venue of a record, or the first fault among its parts. -/
def validate (r : Record) : Except Venue.Fault Venue :=
  Venue.validate r.location r.title r.address r.provider r.id r.kind

/-- What there is to say about a line beside its report. -/
def remarks (number : Nat) (line : Bytes) : List Log.Message :=
  match parse line with
  | .error f => [⟨.warning, Bytes.ofString "⚠️ Line " ++ Bytes.ofNat number
      ++ Bytes.ofString ": malformed record: " ++ Bytes.ofString f.reason⟩]
  | .ok r => Location.remarks r.latitude r.longitude ++ Venue.remarks r.validate

end Record

end PlaceFeed
