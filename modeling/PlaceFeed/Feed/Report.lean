import PlaceFeed.Feed.Record
import PlaceFeed.Feed.Registry
import PlaceFeed.Json.Printer

/-!
# Reports

A line is judged on its own (`Judgement.ofLine`): it is no record, or a record whose venue is
rejected, or it has a venue.  A `Report` is the judgement on a numbered line, and for a venue at a
place that was met before, the line where that was.
-/

namespace PlaceFeed

/-- Why a record has no acceptable venue. -/
inductive Rejection
  | invalid (f : Venue.Fault)
  | notMapPoint
deriving DecidableEq

namespace Rejection

/-- The name of the error in a report. -/
def name : Rejection → String
  | invalid f => f.name
  | notMapPoint => "NOT_A_MAP_POINT"

/-- The reason that a report gives. -/
def reason : Rejection → String
  | invalid f => f.reason
  | notMapPoint => "Latitude is beyond the map projection limit"

end Rejection

/-- The judgement on a line, whatever came before it. -/
inductive Judgement
  | malformed (f : Record.Fault)
  | rejected (r : Rejection)
  | accepted (v : Venue)
deriving DecidableEq

namespace Judgement

/-- The judgement on a record. -/
def ofRecord (requireMapPoint : Bool) (r : Record) : Judgement :=
  match r.validate with
  | .error f => .rejected (.invalid f)
  | .ok v =>
    if requireMapPoint && !v.location.isMapPoint then .rejected .notMapPoint else .accepted v

/-- The **judgement on a line**. -/
def ofLine (requireMapPoint : Bool) (line : Bytes) : Judgement :=
  match Record.parse line with
  | .error f => .malformed f
  | .ok r => ofRecord requireMapPoint r

/-- The place that an accepted venue is at. -/
def place? : Judgement → Option PlaceId
  | accepted v => v.placeId?
  | _ => none

end Judgement

/-- The judgement on a numbered line, with the line of the first venue at the same place. -/
structure Report where
  line : Nat
  judgement : Judgement
  samePlaceAs : Option Nat
deriving DecidableEq

namespace Report

/-- The members of a report besides its line and status. -/
def details (r : Report) : List (String × Json) :=
  match r.judgement with
  | .malformed f => [("reason", .string f.reason)]
  | .rejected e => [("error", .string e.name), ("reason", .string e.reason)]
  | .accepted v =>
    [("input_media_venue", v.toMedia.toJson)]
      ++ (v.toListing.map fun l => ("venue", l.toJson)).toList
      ++ (r.samePlaceAs.map fun n => ("same_place_as", Json.int n)).toList

/-- The status of a report. -/
def status (r : Report) : String :=
  match r.judgement with
  | .malformed _ => "malformed"
  | .rejected _ => "rejected"
  | .accepted _ => "ok"

/-- The report as it is printed. -/
def toJson (r : Report) : Json :=
  .object ([("line", .int r.line), ("status", .string r.status)] ++ r.details)

end Report

end PlaceFeed
