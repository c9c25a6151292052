import PlaceFeed.Proofs.Accounting
import PlaceFeed.Proofs.Equality
import PlaceFeed.Proofs.WireSafety

/-!
# Accepted data, checked again

A listing holds all that a venue needs but the access hash, so it can be fed back as a record
(`Record.ofListing`).  Nothing drifts when that is done:

* `Venue.validate_of_isClean` : the parts of a validated venue are normal (`Venue.IsClean`), and
  **validating normal parts changes nothing**;
* `Record.exists_validate_ofListing` : the record of a listing therefore has a venue with the same
  listing and the same message;
* `Checker.check_of_parse` : a checker takes a line by its record alone (`Checker.checkRecord`);
* `Checker.accepted_stable` : so **accepted data is a fixed point of the validator**.
-/

namespace PlaceFeed

/-! ### Normal parts -/

namespace Venue

/-- The venue has a point, and its texts are as cleaning leaves them. -/
structure IsClean (v : Venue) : Prop where
  located : v.location.isEmpty = false
  texts : ∀ text ∈ v.texts, Clean.clean text = some text

variable {v : Venue}

theorem isClean_of_validate {location : Location} {title address provider id kind : Bytes}
    (h : validate location title address provider id kind = .ok v) : v.IsClean := by
  obtain ⟨hempty, hlocation, -⟩ := validate_eq_ok.1 h
  refine ⟨hlocation ▸ hempty, ?_⟩
  intro text htext
  obtain ⟨raw, hraw⟩ := exists_clean_of_validate h text htext
  exact Scalars.clean_of_isSafe (Scalars.isSafe_of_clean hraw)

/-- **Validating normal parts changes nothing.** -/
theorem validate_of_isClean (h : v.IsClean) {location : Location}
    (hlocation : location.isEmpty = false) :
    validate location v.title v.address v.provider v.id v.kind = .ok { v with location } := by
  have htexts := h.texts
  simp only [texts, List.forall_mem_cons] at htexts
  obtain ⟨htitle, haddress, hprovider, hid, hkind, -⟩ := htexts
  exact validate_eq_ok.2 ⟨hlocation, rfl, htitle, haddress, hprovider, hid, hkind⟩

end Venue

/-! ### Records of listings -/

namespace Record

/-- The record with the numbers and texts of a listing. -/
def ofListing (l : Listing) (accessHash : Int64) : Record where
  latitude := l.location.latitude
  longitude := l.location.longitude
  accuracy := l.location.accuracy
  accessHash
  title := l.title
  address := l.address
  provider := l.provider
  id := l.id
  kind := l.kind

/-- The record has the numbers and texts of a printed listing. -/
structure IsOfListing (r : Record) (listing : Json) : Prop where
  latitude : listing.at? ["location", "latitude"] = some (.float r.latitude)
  longitude : listing.at? ["location", "longitude"] = some (.float r.longitude)
  accuracy : listing.at? ["location", "horizontal_accuracy"] = some (.float r.accuracy)
  title : listing.member? "title" = some (.str r.title)
  address : listing.member? "address" = some (.str r.address)
  provider : listing.member? "provider" = some (.str r.provider)
  id : listing.member? "id" = some (.str r.id)
  kind : listing.member? "type" = some (.str r.kind)

variable {r : Record} {v : Venue} {l : Listing}

/-- The records of a printed listing differ in the access hash only. -/
theorem isOfListing_iff : r.IsOfListing l.toJson ↔ r = ofListing l r.accessHash := by
  have hlocation : ∀ key, l.toJson.at? ["location", key] = l.location.toJson.member? key := by
    intro key
    have hmember : l.toJson.member? "location" = some l.location.toJson := by
      rw [Listing.toJson, Json.member?_object]
      rfl
    rw [Json.at?_of_member? hmember, Json.at?_singleton]
  constructor
  · rintro ⟨hlatitude, hlongitude, haccuracy, htitle, haddress, hprovider, hid, hkind⟩
    rw [hlocation, Coordinates.toJson, Json.member?_object] at hlatitude hlongitude haccuracy
    rw [Listing.toJson, Json.member?_object] at htitle haddress hprovider hid hkind
    obtain ⟨latitude, longitude, accuracy, accessHash, title, address, provider, id, kind⟩ := r
    obtain ⟨⟨latitude', longitude', accuracy'⟩, title', address', provider', id', kind'⟩ := l
    cases hlatitude
    cases hlongitude
    cases haccuracy
    cases htitle
    cases haddress
    cases hprovider
    cases hid
    cases hkind
    rfl
  · intro h
    rw [h]
    constructor
    case latitude | longitude | accuracy =>
      rw [hlocation, Coordinates.toJson, Json.member?_object]
      rfl
    all_goals
      rw [Listing.toJson, Json.member?_object]
      rfl

/-- The record of a listing has a venue with the same listing and the same message. -/
theorem exists_validate_ofListing (h : r.validate = .ok v) (hl : v.toListing = some l)
    (accessHash : Int64) :
    ∃ w, (ofListing l accessHash).validate = .ok w ∧ w.toListing = v.toListing ∧
      w.toMedia = v.toMedia ∧ w.location.isMapPoint = v.location.isMapPoint := by
  obtain ⟨p, hp⟩ := Venue.exists_point_of_validate h
  obtain ⟨c, hc, rfl⟩ := Option.map_eq_some_iff.1 hl
  rw [hp] at hc
  obtain rfl := Option.some.inj hc
  have hlocation : (ofListing ⟨⟨p.latitude, p.longitude, p.accuracy⟩, v.title, v.address,
      v.provider, v.id, v.kind⟩ accessHash).location = .point { p with accessHash } :=
    Location.build_point p accessHash
  refine ⟨{ v with location := .point { p with accessHash } }, ?_, ?_, ?_, ?_⟩
  · rw [validate, hlocation]
    exact Venue.validate_of_isClean (Venue.isClean_of_validate h) rfl
  · rw [Venue.toListing, Venue.toListing, hp]
    rfl
  · rw [Venue.toMedia, Venue.toMedia, hp]
    rfl
  · rw [hp]
    rfl

end Record

/-- The record of an accepted venue's listing is accepted under the same policy. -/
theorem Judgement.exists_ofRecord_ofListing {requireMapPoint : Bool} {r : Record} {v : Venue}
    {l : Listing} (h : ofRecord requireMapPoint r = .accepted v) (hl : v.toListing = some l)
    (accessHash : Int64) :
    ∃ w, ofRecord requireMapPoint (Record.ofListing l accessHash) = .accepted w ∧
      w.toListing = v.toListing ∧ w.toMedia = v.toMedia := by
  obtain ⟨hvalid, hmap⟩ := ofRecord_eq_accepted.1 h
  obtain ⟨w, hw, hlisting, hmedia, hpoint⟩ := Record.exists_validate_ofListing hvalid hl accessHash
  exact ⟨w, ofRecord_eq_accepted.2 ⟨hw, hpoint ▸ hmap⟩, hlisting, hmedia⟩

/-! ### Checkers -/

namespace Checker

/-- The report on a record, and the checker after it. -/
def checkRecord (c : Checker) (number : Nat) (r : Record) : Report × Checker :=
  c.record number (Judgement.ofRecord c.settings.requireMapPoint r)

/-- A line is checked by its record. -/
theorem check_of_parse (c : Checker) (number : Nat) {line : Bytes} {r : Record}
    (h : Record.parse line = .ok r) : c.check number line = c.checkRecord number r := by
  rw [check, Judgement.ofLine, h]
  rfl

/-- **Accepted data is a fixed point of the validator.**  The records of a listing that a checker
printed are accepted by every checker with the same settings, whatever both were asked to do before,
and printed with the same listing and the same message, bit for bit.  The parts of a validated venue
have a venue, which is that venue again. -/
theorem accepted_stable (settings : Settings) (history₁ history₂ : List Call) :
    let first := ((new settings).performAll history₁).2
    let second := ((new settings).performAll history₂).2
    (∀ number₁ number₂ record,
      let printed := (first.checkRecord number₁ record).1
      printed.hasStatus "ok" = true →
        ∃ listing, printed.toJson.member? "venue" = some listing ∧
          (∀ accessHash, ∃ again : Record,
            again.accessHash = accessHash ∧ again.IsOfListing listing) ∧
          ∀ again : Record, again.IsOfListing listing →
            let reprinted := (second.checkRecord number₂ again).1
            reprinted.hasStatus "ok" = true ∧
              ∀ key ∈ ["venue", "input_media_venue"],
                reprinted.toJson.member? key = printed.toJson.member? key) ∧
    ∀ location title address provider id kind v,
      Venue.validate location title address provider id kind = .ok v →
        ∃ w, Venue.validate v.location v.title v.address v.provider v.id v.kind = .ok w ∧
          w = v ∧ w.same v = true ∧
          w.same ⟨v.location, v.title, v.address, v.provider, v.id, v.kind⟩ = true := by
  intro first second
  have hfirst : first.settings = settings := performAll_settings (new settings) history₁
  have hsecond : second.settings = settings := performAll_settings (new settings) history₂
  constructor
  · intro number₁ number₂ record printed hok
    obtain ⟨v, hv⟩ := printed.hasStatus_ok_iff.1 hok
    have haccepted : Judgement.ofRecord settings.requireMapPoint record = .accepted v := by
      rw [← hfirst]
      exact hv
    obtain ⟨hvalid, -⟩ := Judgement.ofRecord_eq_accepted.1 haccepted
    obtain ⟨p, hp⟩ := Venue.exists_point_of_validate hvalid
    have hlisting := toListing_of_point hp
    refine ⟨_, by rw [printed.member?_venue hv, hlisting, Option.map_some], ?_, ?_⟩
    · intro accessHash
      exact ⟨Record.ofListing _ accessHash, rfl, Record.isOfListing_iff.2 rfl⟩
    · intro again hagain reprinted
      rw [Record.isOfListing_iff] at hagain
      obtain ⟨w, hw, hlisting', hmedia⟩ :=
        Judgement.exists_ofRecord_ofListing haccepted hlisting again.accessHash
      have hreprinted : reprinted.judgement = .accepted w := by
        rw [← hagain, ← hsecond] at hw
        exact hw
      refine ⟨reprinted.hasStatus_ok_iff.2 ⟨w, hreprinted⟩, ?_⟩
      intro key hkey
      simp only [List.mem_cons, List.not_mem_nil, or_false] at hkey
      rcases hkey with rfl | rfl
      · rw [reprinted.member?_venue hreprinted, printed.member?_venue hv, hlisting']
      · rw [reprinted.member?_inputMediaVenue hreprinted, printed.member?_inputMediaVenue hv,
          hmedia]
  · intro location title address provider id kind v h
    have hclean := Venue.isClean_of_validate h
    exact ⟨v, Venue.validate_of_isClean hclean hclean.located, rfl, v.same_self, v.same_self⟩

/-- A record with an accuracy out of range and a title to clean, and the record of its listing,
which a checker that has met the place accepts as well. -/
theorem accepted_stable_clamped_and_cleaned :
    let record : Record :=
      ⟨⟨0x3FF0000000000000⟩, ⟨0xC004000000000000⟩, ⟨0x40B3880000000000⟩, 7,
        Bytes.ofString "  Ca\x01fe\t", [], Bytes.ofString "p", Bytes.ofString "7\n", []⟩
    let listing : Listing :=
      ⟨⟨record.latitude, record.longitude, Location.maxAccuracy⟩, Bytes.ofString "Ca fe", [],
        Bytes.ofString "p", Bytes.ofString "7", []⟩
    let history :=
      [Call.check 5 (Bytes.ofString
        "\x7b\"latitude\":1,\"longitude\":2,\"provider\":\"p\",\"id\":\"7\"\x7d")]
    let printed := ((new Settings.default).checkRecord 1 record).1
    let second := ((new Settings.default).performAll history).2
    let reprinted := (second.checkRecord 2 (Record.ofListing listing (-1))).1
    printed.hasStatus "ok" = true ∧ printed.toJson.member? "venue" = some listing.toJson ∧
      printed.samePlaceAs = none ∧ reprinted.samePlaceAs = some 5 ∧
      (reprinted.hasStatus "ok" = true ∧
        ∀ key ∈ ["venue", "input_media_venue"],
          reprinted.toJson.member? key = printed.toJson.member? key) ∧
      ∃ v w, record.validate = .ok v ∧
        Venue.validate v.location v.title v.address v.provider v.id v.kind = .ok w ∧ w = v := by
  intro record listing history printed second reprinted
  have hok : printed.hasStatus "ok" = true := by decide +kernel
  have hplace : reprinted.samePlaceAs = some 5 := by decide +kernel
  have hlisting : record.validate.toOption.bind Venue.toListing = some listing := by
    decide +kernel
  obtain ⟨v, hv, hvlisting⟩ := Option.bind_eq_some_iff.1 hlisting
  have hvalid : record.validate = .ok v := by
    cases hr : record.validate with
    | error e => simp [hr, Except.toOption] at hv
    | ok w =>
      rw [hr] at hv
      exact congrArg Except.ok (Option.some.inj hv)
  have hvenue : printed.toJson.member? "venue" = some listing.toJson := by
    rw [printed.member?_venue (Judgement.ofRecord_eq_accepted.2 ⟨hvalid, nofun⟩), hvlisting]
    rfl
  obtain ⟨hrecords, hvenues⟩ := accepted_stable Settings.default [] history
  obtain ⟨listing', hlisting', -, hagain⟩ := hrecords 1 2 record hok
  obtain rfl := Option.some.inj (hvenue.symm.trans hlisting')
  obtain ⟨w, hw, hwv, -⟩ := hvenues _ _ _ _ _ _ v hvalid
  exact ⟨hok, hvenue, by decide +kernel, hplace, hagain _ (Record.isOfListing_iff.2 rfl), v,
    w, hvalid, hw, hwv⟩

end Checker

end PlaceFeed
