import PlaceFeed.Proofs.Encoding
import PlaceFeed.Feed.Report

/-!
# The members of a report

What a report prints is an object, and a reader of it looks its members up by their names.
`Json.member?` is that reader, and `Json.at?` follows a path of names.  The names are strings and
the keys bytes, which comes to the same because no two strings have one encoding
(`Bytes.ofString_injective`).

The lemmas on `Report` give each member that the report on an accepted venue has, and
`GeoPoint.members` those of a geo point.
-/

namespace PlaceFeed

/-! ### Reading an object -/

theorem Bytes.ofString_injective : Function.Injective Bytes.ofString := by
  intro s t h
  exact String.toList_injective (Scalars.encode_injective h)

namespace Json

/-- The value of a key, in an object. -/
def member? (v : Json) (key : String) : Option Json :=
  match v with
  | obj members => lookup members (Bytes.ofString key)
  | _ => none

/-- The value at the end of a path of keys. -/
def at? (v : Json) : List String → Option Json
  | [] => some v
  | key :: path => (v.member? key).bind fun w => w.at? path

theorem at?_singleton (v : Json) (key : String) : v.at? [key] = v.member? key := by
  rw [at?]
  cases v.member? key <;> rfl

theorem at?_of_member? {v w : Json} {key : String} (h : v.member? key = some w)
    (path : List String) : v.at? (key :: path) = w.at? path := by
  rw [at?, h, Option.bind_some]

theorem lookup_ofString (members : List (String × Json)) (key : String) :
    (members.map fun m => (Bytes.ofString m.1, m.2)).lookup (Bytes.ofString key) =
      members.lookup key := by
  induction members with
  | nil => rfl
  | cons m members ih =>
    rw [List.map_cons, List.lookup_cons, List.lookup_cons, ih]
    by_cases h : key = m.1
    · subst h; simp
    · rw [beq_false_of_ne h, beq_false_of_ne (Bytes.ofString_injective.ne h)]

/-- An object read by a string, the last member first. -/
theorem member?_object (members : List (String × Json)) (key : String) :
    (object members).member? key = members.reverse.lookup key := by
  rw [object, member?, lookup, ← List.map_reverse, lookup_ofString]

end Json

/-! ### Geo points -/

/-- The members of a geo point, of which only the radius can be left out. -/
theorem GeoPoint.members (flags : Int32) (latitude longitude : Binary64)
    (accuracyRadius : Option Int32) :
    let geo := (point flags latitude longitude accuracyRadius).toJson
    geo.member? "_" = some (.string "inputGeoPoint") ∧
      geo.member? "flags" = some (.int flags.toInt) ∧
      geo.member? "lat" = some (.float latitude) ∧
      geo.member? "long" = some (.float longitude) ∧
      geo.member? "accuracy_radius" = accuracyRadius.map fun r => Json.int r.toInt := by
  simp only [toJson, Json.member?_object]
  cases accuracyRadius <;> exact ⟨rfl, rfl, rfl, rfl, rfl⟩

/-! ### Reports -/

namespace Report

variable (r : Report)

theorem details_of_accepted {v : Venue} (h : r.judgement = .accepted v) :
    r.details = [("input_media_venue", v.toMedia.toJson)]
      ++ (v.toListing.map fun l => ("venue", l.toJson)).toList
      ++ (r.samePlaceAs.map fun n => ("same_place_as", Json.int n)).toList := by
  rw [details, h]

/-- The line and the status are not among the details. -/
theorem lookup_details {key : String} (h : key = "line" ∨ key = "status") :
    r.details.reverse.lookup key = none := by
  rcases h with rfl | rfl <;> cases h : r.judgement with
  | malformed f => rw [details, h]; rfl
  | rejected e => rw [details, h]; rfl
  | accepted v =>
    rw [r.details_of_accepted h]
    cases v.toListing <;> cases r.samePlaceAs <;> rfl

theorem member?_line : r.toJson.member? "line" = some (.int r.line) := by
  rw [toJson, Json.member?_object, List.reverse_append, List.lookup_append,
    r.lookup_details (.inl rfl)]
  rfl

theorem member?_status : r.toJson.member? "status" = some (.string r.status) := by
  rw [toJson, Json.member?_object, List.reverse_append, List.lookup_append,
    r.lookup_details (.inr rfl)]
  rfl

theorem member?_inputMediaVenue {v : Venue} (h : r.judgement = .accepted v) :
    r.toJson.member? "input_media_venue" = some v.toMedia.toJson := by
  rw [toJson, Json.member?_object, r.details_of_accepted h]
  cases v.toListing <;> cases r.samePlaceAs <;> rfl

theorem member?_venue {v : Venue} (h : r.judgement = .accepted v) :
    r.toJson.member? "venue" = v.toListing.map Listing.toJson := by
  rw [toJson, Json.member?_object, r.details_of_accepted h]
  cases v.toListing <;> cases r.samePlaceAs <;> rfl

theorem member?_samePlaceAs {v : Venue} (h : r.judgement = .accepted v) :
    r.toJson.member? "same_place_as" = r.samePlaceAs.map fun n => Json.int n := by
  rw [toJson, Json.member?_object, r.details_of_accepted h]
  cases v.toListing <;> cases r.samePlaceAs <;> rfl

theorem member?_samePlaceAs_of_not_accepted (h : ∀ v, r.judgement ≠ .accepted v) :
    r.toJson.member? "same_place_as" = none := by
  rw [toJson, Json.member?_object, details]
  cases hj : r.judgement with
  | malformed f => rfl
  | rejected e => rfl
  | accepted v => exact absurd hj (h v)

theorem member?_samePlaceAs_eq_some {m : Nat} :
    r.toJson.member? "same_place_as" = some (.int m) ↔
      ∃ v, r.judgement = .accepted v ∧ r.samePlaceAs = some m := by
  by_cases hv : ∃ v, r.judgement = .accepted v
  · obtain ⟨v, hv⟩ := hv
    rw [r.member?_samePlaceAs hv]
    cases r.samePlaceAs with
    | none => simp
    | some n =>
      change some (Json.int n) = some (Json.int m) ↔ _
      rw [Option.some.injEq, Json.int.injEq, Int.natCast_inj]
      simp [hv]
  · rw [r.member?_samePlaceAs_of_not_accepted (not_exists.1 hv)]
    refine iff_of_false (Option.some_ne_none _).symm ?_
    rintro ⟨v, h, -⟩
    exact hv ⟨v, h⟩

theorem status_eq_ok : r.status = "ok" ↔ ∃ v, r.judgement = .accepted v := by
  unfold status
  cases r.judgement <;> simp

theorem status_eq_rejected : r.status = "rejected" ↔ ∃ e, r.judgement = .rejected e := by
  unfold status
  cases r.judgement <;> simp

theorem status_eq_malformed : r.status = "malformed" ↔ ∃ f, r.judgement = .malformed f := by
  unfold status
  cases r.judgement <;> simp

end Report

end PlaceFeed
