import PlaceFeed.Proofs.Acceptance
import PlaceFeed.Proofs.Cleaning
import PlaceFeed.Proofs.GeoPoints
import PlaceFeed.Proofs.History
import PlaceFeed.Proofs.Members

/-!
# What may leave

A report on an accepted venue holds two forms of it, a message and a listing, and both go on to
other programs.  `Json.IsSafeRecord` says what these may rely on, in terms of the printed members
alone: the numbers of the point (`IsSafePoint`), the radius of the geo point (`Json.IsGeoPoint`),
and that each text is safe (`Scalars.IsSafe`) and the same in both forms.

* `isSafeRecord_of_accepted` : the report on a line that is accepted is such a record;
* `isSafeRecord_of_status_ok` : **nothing unsafe leaves**: after any history of a checker, a record
  with the status `ok` is one.

The proof goes from the line to the record.  A venue is accepted only with a point, whose type
carries its bounds, and only with texts that are the clean forms of others; what is left is to read
the members of the printed forms.
-/

namespace PlaceFeed

/-! ### What may leave -/

/-- Numbers of a point that may leave: on the globe, on the map if that is required, and with an
accuracy from zero to 1500 metres. -/
structure IsSafePoint (requireMapPoint : Bool) (latitude longitude accuracy : Binary64) : Prop where
  latitude_within : latitude.Within 90
  longitude_within : longitude.Within 180
  on_map : requireMapPoint = true → latitude.absUnits ≤ Location.mapLimit.absUnits
  accuracy_within : accuracy.Within 1500
  accuracy_nonneg : accuracy.isNegative = false

namespace Json

/-- A geo point with these coordinates.  The flags say whether it has a radius, and the radius is
the accuracy rounded up, a whole number from 1 to 1500. -/
structure IsGeoPoint (geo : Json) (latitude longitude accuracy : Binary64) : Prop where
  populated : geo.member? "_" = some (.string "inputGeoPoint")
  latitude : geo.member? "lat" = some (.float latitude)
  longitude : geo.member? "long" = some (.float longitude)
  radius :
    (geo.member? "flags" = some (.int 0) ∧ geo.member? "accuracy_radius" = none ∧
        accuracy.units = 0) ∨
      ∃ n : Nat, geo.member? "flags" = some (.int 1) ∧
        geo.member? "accuracy_radius" = some (.int n) ∧ 1 ≤ n ∧ n ≤ 1500 ∧
        (n - 1 : Int) * Binary64.one < accuracy.units ∧ accuracy.units ≤ n * Binary64.one

/-- The names of the texts of a venue, in a message and in a listing. -/
def textKeys : List (String × String) :=
  [("title", "title"), ("address", "address"), ("provider", "provider"), ("venue_id", "id"),
    ("venue_type", "type")]

/-- A record on an accepted venue that may leave.  The message and the listing agree on the point
and on the five texts, and both are safe. -/
structure IsSafeRecord (requireMapPoint : Bool) (record : Json) : Prop where
  point : ∃ latitude longitude accuracy geo,
    IsSafePoint requireMapPoint latitude longitude accuracy ∧
      record.at? ["input_media_venue", "geo_point"] = some geo ∧
      geo.IsGeoPoint latitude longitude accuracy ∧
      record.at? ["venue", "location", "latitude"] = some (.float latitude) ∧
      record.at? ["venue", "location", "longitude"] = some (.float longitude) ∧
      record.at? ["venue", "location", "horizontal_accuracy"] = some (.float accuracy)
  texts : ∀ keys ∈ textKeys, ∃ text,
    record.at? ["input_media_venue", keys.1] = some (.str text) ∧
      record.at? ["venue", keys.2] = some (.str text) ∧ Scalars.IsSafe text

end Json

/-! ### Points -/

/-- The numbers of a point may leave, by its type. -/
theorem isSafePoint_of_isMapPoint {p : Point} {requireMapPoint : Bool}
    (h : requireMapPoint = true → (Location.point p).isMapPoint = true) :
    IsSafePoint requireMapPoint p.latitude p.longitude p.accuracy := by
  obtain ⟨hacc, hneg⟩ := Location.within_of_clamped p.accuracy_clamped
  have hmap : requireMapPoint = true → p.latitude.absUnits ≤ Location.mapLimit.absUnits := by
    intro hreq
    exact of_decide_eq_true (h hreq)
  exact ⟨p.latitude_within, p.longitude_within, hmap, hacc, hneg⟩

/-- A point is printed as a geo point with its coordinates. -/
theorem isGeoPoint_toGeoPoint (p : Point) :
    (Location.point p).toGeoPoint.toJson.IsGeoPoint p.latitude p.longitude p.accuracy := by
  have hunits := Binary64.units_eq_absUnits (Location.within_of_clamped p.accuracy_clamped).2
  rcases Location.toGeoPoint_point p with ⟨hzero, h⟩ | ⟨hpos, hle, h⟩
  · obtain ⟨hkind, hflags, hlatitude, hlongitude, hradius⟩ :=
      GeoPoint.members 0 p.latitude p.longitude none
    rw [h]
    exact ⟨hkind, hlatitude, hlongitude, .inl ⟨hflags, hradius, by omega⟩⟩
  · obtain ⟨hkind, hflags, hlatitude, hlongitude, hradius⟩ :=
      GeoPoint.members 1 p.latitude p.longitude (some (Int32.ofNat p.accuracy.ceilAbs))
    rw [Option.map_some, Location.toInt_radius hle] at hradius
    obtain ⟨hup, hdown⟩ := p.accuracy.ceilAbs_spec
    rw [h]
    refine ⟨hkind, hlatitude, hlongitude, .inr ⟨p.accuracy.ceilAbs, hflags, hradius,
      Binary64.ceilAbs_pos hpos, hle, ?_, ?_⟩⟩
    · rw [hunits, Int.sub_mul, Int.one_mul]
      omega
    · rw [hunits]
      omega

/-! ### Reports -/

section Reports

variable {r : Report} {v : Venue} {p : Point}

/-- The listing of a venue at a point. -/
theorem toListing_of_point (hp : v.location = .point p) :
    v.toListing = some ⟨⟨p.latitude, p.longitude, p.accuracy⟩, v.title, v.address, v.provider,
      v.id, v.kind⟩ := by
  rw [Venue.toListing, hp]
  rfl

theorem at?_geoPoint (hr : r.judgement = .accepted v) :
    r.toJson.at? ["input_media_venue", "geo_point"] = some v.location.toGeoPoint.toJson := by
  rw [Json.at?_of_member? (r.member?_inputMediaVenue hr), Json.at?_singleton, Media.toJson,
    Json.member?_object]
  rfl

theorem at?_location (hr : r.judgement = .accepted v) (hp : v.location = .point p) (key : String) :
    r.toJson.at? ["venue", "location", key] =
      (Coordinates.toJson ⟨p.latitude, p.longitude, p.accuracy⟩).member? key := by
  have hvenue := r.member?_venue hr
  rw [toListing_of_point hp, Option.map_some] at hvenue
  have hlocation : ∀ l : Listing, l.toJson.member? "location" = some l.location.toJson := by
    intro l
    rw [Listing.toJson, Json.member?_object]
    rfl
  rw [Json.at?_of_member? hvenue, Json.at?_of_member? (hlocation _), Json.at?_singleton]

/-- The texts of a venue stand in its message and in its listing. -/
theorem exists_text_of_textKeys {l : Listing} (hl : v.toListing = some l) :
    ∀ keys ∈ Json.textKeys, ∃ text ∈ v.texts,
      v.toMedia.toJson.member? keys.1 = some (.str text) ∧
        l.toJson.member? keys.2 = some (.str text) := by
  obtain ⟨c, -, rfl⟩ := Option.map_eq_some_iff.1 hl
  intro keys hkeys
  simp only [Json.textKeys, List.mem_cons, List.not_mem_nil, or_false] at hkeys
  rw [Media.toJson, Listing.toJson, Json.member?_object, Json.member?_object]
  rcases hkeys with rfl | rfl | rfl | rfl | rfl
  · exact ⟨v.title, by simp [Venue.texts], rfl, rfl⟩
  · exact ⟨v.address, by simp [Venue.texts], rfl, rfl⟩
  · exact ⟨v.provider, by simp [Venue.texts], rfl, rfl⟩
  · exact ⟨v.id, by simp [Venue.texts], rfl, rfl⟩
  · exact ⟨v.kind, by simp [Venue.texts], rfl, rfl⟩

/-- The report on a line that is accepted may leave. -/
theorem isSafeRecord_of_accepted {requireMapPoint : Bool} {line : Bytes}
    (hline : Judgement.ofLine requireMapPoint line = .accepted v) (hr : r.judgement = .accepted v) :
    r.toJson.IsSafeRecord requireMapPoint := by
  obtain ⟨record, -, hvalid, hmap⟩ := Judgement.ofLine_eq_accepted.1 hline
  obtain ⟨p, hp⟩ := Venue.exists_point_of_validate hvalid
  constructor
  · rw [hp] at hmap
    have hgeo := at?_geoPoint hr
    rw [hp] at hgeo
    have hlocation := at?_location hr hp
    simp only [Coordinates.toJson, Json.member?_object] at hlocation
    exact ⟨p.latitude, p.longitude, p.accuracy, (Location.point p).toGeoPoint.toJson,
      isSafePoint_of_isMapPoint hmap, hgeo, isGeoPoint_toGeoPoint p, hlocation _, hlocation _,
      hlocation _⟩
  · intro keys hkeys
    have hlisting := toListing_of_point hp
    have hvenue := r.member?_venue hr
    rw [hlisting, Option.map_some] at hvenue
    obtain ⟨text, htext, hmessage, hlist⟩ := exists_text_of_textKeys hlisting keys hkeys
    -- each of the five is the clean form of a text of the record
    obtain ⟨raw, hraw⟩ := Venue.exists_clean_of_validate hvalid text htext
    refine ⟨text, ?_, ?_, Scalars.isSafe_of_clean hraw⟩
    · rw [Json.at?_of_member? (r.member?_inputMediaVenue hr), Json.at?_singleton, hmessage]
    · rw [Json.at?_of_member? hvenue, Json.at?_singleton, hlist]

end Reports

/-! ### Checkers -/

/-- A record that a checker reports as accepted may leave. -/
theorem isSafeRecord_check (c : Checker) {number : Nat} {line : Bytes}
    (hok : (c.check number line).1.toJson.member? "status" = some (.string "ok")) :
    (c.check number line).1.toJson.IsSafeRecord c.settings.requireMapPoint := by
  have hstatus : (c.check number line).1.status = "ok" := by
    rw [Report.member?_status, Option.some.injEq] at hok
    exact Bytes.ofString_injective (Json.str.inj hok)
  obtain ⟨v, hv⟩ := (c.check number line).1.status_eq_ok.1 hstatus
  -- the judgement in the report is that of the line, whatever the state
  have hline : Judgement.ofLine c.settings.requireMapPoint line = .accepted v := hv
  exact isSafeRecord_of_accepted hline hv

/-- **Nothing unsafe leaves.**  Whatever a checker was asked to do before, a record that it reports
as accepted holds a point that may leave and five clean texts, in the message and in the listing. -/
theorem isSafeRecord_of_status_ok (settings : Settings) (history : List Checker.Call) (number : Nat)
    (line : Bytes) :
    let record := (((Checker.new settings).performAll history).2.check number line).1.toJson
    record.member? "status" = some (.string "ok") →
      record.IsSafeRecord settings.requireMapPoint := by
  intro record hok
  have := isSafeRecord_check _ hok
  rwa [Checker.performAll_settings] at this

/-- A line that is accepted a second time, after one that is not. -/
theorem isSafeRecord_of_status_ok_after_run :
    let line := Bytes.ofString "\x7b\"latitude\":1,\"longitude\":2.5,\"title\":\" Cafe \"\x7d"
    let record := (((Checker.new { Settings.default with requireMapPoint := true }).performAll
      [.check 7 (Bytes.ofString "[]"), .run line]).2.check 3 line).1.toJson
    record.member? "status" = some (.string "ok") ∧ record.IsSafeRecord true := by
  let settings := { Settings.default with requireMapPoint := true }
  intro line record
  have hok : record.member? "status" = some (.string "ok") := by
    rw [Report.member?_status]
    exact congrArg (fun s => some (Json.string s)) (by decide +kernel)
  exact ⟨hok, isSafeRecord_of_status_ok settings _ _ _ hok⟩

end PlaceFeed
