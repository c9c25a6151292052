import PlaceFeed.Proofs.Accounting
import PlaceFeed.Proofs.Records

/-!
# The classification of a line

What becomes of a line is said here in terms of its text alone: whether it is malformed
(`Record.IsMalformed`), whether its coordinates are on the globe (`Record.IsOnGlobe`), and whether
they are beyond what a map shows (`Record.IsBeyondMap`).  Nothing else about a line matters, and
nothing that was checked before.

* `Judgement.ofLine_of_isMalformed`, `Judgement.ofLine_of_not_isOnGlobe`,
  `Judgement.ofLine_of_isBeyondMap`, `Judgement.ofLine_of_isOnGlobe` : the judgement on a line,
  for each outcome;
* `Record.parse_congr` : members with other keys change nothing;
* `Checker.classification` : **the printed record of every line, after every history**.
-/

namespace PlaceFeed

namespace Record

open Json (Members IsText lookup read_eq_some)

variable {members : Members} {line : Bytes} {r : Record}

/-! ### The text of a line -/

/-- What makes a line malformed.  A numeral has the value of an integer only when it is written as
one (`Json.Literal.Means`). -/
inductive IsMalformed (line : Bytes) : Prop
  | notText (h : ∀ v, ¬IsText line v)
  | notObject {v : Json} (h : IsText line v) (hv : ∀ members, v ≠ .obj members)
  | number {members : Members} {key : String} {v : Json} (h : IsText line (.obj members))
    (hkey : key ∈ numberKeys) (hv : lookup members (Bytes.ofString key) = some v)
    (hkind : ¬v.IsNumber)
  | accessHash {members : Members} {v : Json} (h : IsText line (.obj members))
    (hv : lookup members (Bytes.ofString "access_hash") = some v)
    (hkind : ∀ n, v = .int n → n < -0x8000000000000000 ∨ 0x7FFFFFFFFFFFFFFF < n)
  | text {members : Members} {key : String} {v : Json} (h : IsText line (.obj members))
    (hkey : key ∈ textKeys) (hv : lookup members (Bytes.ofString key) = some v)
    (hkind : ∀ s, v ≠ .str s)

/-- The line is an object with the value of a numeral at this key, and this is the binary64 number
nearest to the one that is written. -/
def HasNumber (line : Bytes) (key : String) (x : Binary64) : Prop :=
  ∃ members v, ∃ l : Json.Literal, IsText line (.obj members) ∧
    lookup members (Bytes.ofString key) = some v ∧ l.Means v ∧ x.IsNearest l.number

/-- The line has both coordinates, and they are on the globe. -/
def IsOnGlobe (line : Bytes) : Prop :=
  (∃ x, HasNumber line "latitude" x ∧ |x.value| ≤ 90) ∧
    ∃ x, HasNumber line "longitude" x ∧ |x.value| ≤ 180

/-- The latitude of the line is greater than 85.05112877, north or south, both as binary64
numbers. -/
def IsBeyondMap (line : Bytes) : Prop :=
  ∃ x limit : Binary64, HasNumber line "latitude" x ∧ limit.IsNearest 85.05112877 ∧
    limit.value < |x.value|

theorem fits_iff (h : IsText line (.obj members)) : Fits members ↔ ¬IsMalformed line := by
  constructor
  · intro hfits hmalformed
    cases hmalformed with
    | notText hnone => exact hnone _ h
    | notObject hv hne => exact hne members (hv.unique h)
    | number hobj hkey hv hkind =>
      obtain rfl := Json.obj.inj (hobj.unique h)
      exact hkind (hfits.numbers _ hkey _ hv)
    | accessHash hobj hv hkind =>
      obtain rfl := Json.obj.inj (hobj.unique h)
      obtain ⟨n, rfl, hlo, hhi⟩ := hfits.access_hash _ hv
      have := hkind n rfl
      omega
    | text hobj hkey hv hkind =>
      obtain rfl := Json.obj.inj (hobj.unique h)
      obtain ⟨s, rfl⟩ := hfits.texts _ hkey _ hv
      exact hkind s rfl
  · intro hmalformed
    constructor
    · intro key hkey v hv
      by_contra hkind
      exact hmalformed (.number h hkey hv hkind)
    · intro v hv
      by_contra hkind
      refine hmalformed (.accessHash h hv ?_)
      rintro n rfl
      by_contra hbounds
      exact hkind ⟨n, rfl, by omega, by omega⟩
    · intro key hkey v hv
      by_contra hkind
      refine hmalformed (.text h hkey hv ?_)
      rintro s rfl
      exact hkind ⟨s, rfl⟩

/-- The lines that are not malformed are the records. -/
theorem exists_parse_eq_ok : (∃ r, parse line = .ok r) ↔ ¬IsMalformed line := by
  simp only [parse_eq_ok]
  constructor
  · rintro ⟨r, members, htext, hr⟩
    rw [← fits_iff htext, ← exists_ofMembers_eq_ok htext]
    exact ⟨r, hr⟩
  · intro hmalformed
    have htext : ∃ members, IsText line (.obj members) := by
      by_contra hobj
      by_cases hany : ∃ v, IsText line v
      · obtain ⟨v, hv⟩ := hany
        refine hmalformed (.notObject hv ?_)
        rintro members rfl
        exact hobj ⟨members, hv⟩
      · exact hmalformed (.notText (not_exists.1 hany))
    obtain ⟨members, htext⟩ := htext
    rw [← fits_iff htext, ← exists_ofMembers_eq_ok htext] at hmalformed
    obtain ⟨r, hr⟩ := hmalformed
    exact ⟨r, members, htext, hr⟩

/-! ### Coordinates -/

/-- The number that is decoded is one of those that the line has. -/
theorem hasNumber_of_number? (h : IsText line (.obj members)) {key : String} {v : Json}
    {x : Binary64} (hv : lookup members (Bytes.ofString key) = some v) (hx : v.number? = some x) :
    HasNumber line key x := by
  have hnumber : v.IsNumber := by
    rw [← isSome_number?_iff h hv, hx]
    rfl
  obtain ⟨l, hl⟩ := h.exists_means_of_lookup hv hnumber
  obtain ⟨y, hy, hnear, -⟩ := hl.exists_number?
  obtain rfl := Option.some.inj (hx.symm.trans hy)
  exact ⟨members, v, l, h, hv, hl, hnear⟩

/-- All of them have its value. -/
theorem HasNumber.exists_number? {key : String} {x : Binary64} (hx : HasNumber line key x)
    (h : IsText line (.obj members)) :
    ∃ v y, lookup members (Bytes.ofString key) = some v ∧ v.number? = some y ∧
      y.isFinite = true ∧ x.value = y.value := by
  obtain ⟨other, v, l, hother, hv, hl, hx⟩ := hx
  obtain rfl := Json.obj.inj (hother.unique h)
  obtain ⟨y, hy, hnear, hlt⟩ := hl.exists_number?
  exact ⟨v, y, hv, hy, hnear.isFinite, hx.value_unique hnear hlt⟩

theorem not_within_nan (limit : Nat) : ¬Binary64.nan.Within limit := by
  rintro ⟨hfinite, -⟩
  revert hfinite
  decide

theorem value_eq_of_read (h : IsText line (.obj members)) {key : String} {x y default : Binary64}
    (hx : Json.read Json.number? default members key = some x) (hy : HasNumber line key y) :
    x.isFinite = true ∧ y.value = x.value := by
  obtain ⟨v, z, hv, hz, hfinite, hvalue⟩ := hy.exists_number? h
  obtain ⟨hnone, -⟩ | ⟨w, hw, hnumber⟩ := read_eq_some.1 hx
  · rw [hnone] at hv
    cases hv
  · obtain rfl := Option.some.inj (hw.symm.trans hv)
    obtain rfl := Option.some.inj (hnumber.symm.trans hz)
    exact ⟨hfinite, hvalue⟩

/-- A coordinate is in its range when it is there, with a value in the range. -/
theorem within_iff (h : IsText line (.obj members)) {key : String} {x : Binary64}
    (hx : Json.read Json.number? Binary64.nan members key = some x) (limit : Nat) :
    x.Within limit ↔ ∃ y, HasNumber line key y ∧ |y.value| ≤ limit := by
  constructor
  · intro hwithin
    obtain ⟨-, rfl⟩ | ⟨v, hv, hnumber⟩ := read_eq_some.1 hx
    · exact absurd hwithin (not_within_nan limit)
    · exact ⟨x, hasNumber_of_number? h hv hnumber, (Binary64.within_iff.1 hwithin).2⟩
  · rintro ⟨y, hy, hle⟩
    obtain ⟨hfinite, hvalue⟩ := value_eq_of_read h hx hy
    rw [Binary64.within_iff, ← hvalue]
    exact ⟨hfinite, hle⟩

theorem within_and_within_iff (h : IsText line (.obj members)) (hr : ofMembers members = .ok r) :
    r.latitude.Within 90 ∧ r.longitude.Within 180 ↔ IsOnGlobe line := by
  obtain ⟨hlat, hlong, -⟩ := ofMembers_eq_ok.1 hr
  rw [within_iff h hlat, within_iff h hlong, IsOnGlobe, Nat.cast_ofNat, Nat.cast_ofNat]

theorem isEmpty_location_iff (h : parse line = .ok r) :
    r.location.isEmpty = false ↔ IsOnGlobe line := by
  obtain ⟨members, htext, hmembers⟩ := parse_eq_ok.1 h
  rw [← within_and_within_iff htext hmembers, location, Location.build]
  split
  · next hwithin => simp [Location.isEmpty, hwithin]
  · next hwithin => simp [Location.isEmpty, hwithin]

/-- The limit of the map is the binary64 number nearest to 85.05112877. -/
theorem isNearest_mapLimit : Location.mapLimit.IsNearest 85.05112877 := by
  have hread : Binary64.ofDecimal? false 8505112877 (-8) = some Location.mapLimit := by
    decide +kernel
  have hnumber : Binary64.signed false ((8505112877 : ℕ) * 10 ^ (-8 : ℤ)) = 85.05112877 := by
    rw [Binary64.signed]
    norm_num
  rw [← hnumber]
  exact (Binary64.ofDecimal?_eq_some_iff.1 hread).2.2

theorem lt_overflow_mapLimit : |(85.05112877 : ℚ)| < Binary64.overflow := by
  have hlt : |(85.05112877 : ℚ)| < 2 ^ 7 := by norm_num [abs_of_pos]
  exact hlt.trans_le (Binary64.two_pow_le_overflow (by decide))

theorem isMapPoint_location_iff (h : parse line = .ok r) (hglobe : IsOnGlobe line) :
    r.location.isMapPoint = false ↔ IsBeyondMap line := by
  obtain ⟨members, htext, hmembers⟩ := parse_eq_ok.1 h
  obtain ⟨hlat, -⟩ := ofMembers_eq_ok.1 hmembers
  have hbuild := (within_and_within_iff htext hmembers).2 hglobe
  have hlimit : |Location.mapLimit.value| = Location.mapLimit.value :=
    abs_of_nonneg (Binary64.value_nonneg (by decide))
  have hpoint : r.location.isMapPoint = false ↔ Location.mapLimit.value < |r.latitude.value| := by
    rw [location, Location.build, dif_pos hbuild, Location.isMapPoint, decide_eq_false_iff_not,
      ← Binary64.abs_value_le_abs_value_iff, not_le, hlimit]
  rw [hpoint]
  obtain ⟨⟨x, hx, -⟩, -⟩ := hglobe
  constructor
  · intro hlt
    refine ⟨x, Location.mapLimit, hx, isNearest_mapLimit, ?_⟩
    rwa [(value_eq_of_read htext hlat hx).2]
  · rintro ⟨y, limit, hy, hnearest, hlt⟩
    rwa [← (value_eq_of_read htext hlat hy).2,
      isNearest_mapLimit.value_unique hnearest lt_overflow_mapLimit]

/-! ### Other members -/

/-- The keys of a record. -/
def keys : List String := numberKeys ++ "access_hash" :: textKeys

theorem member_congr {α : Type} {kind : Json → Option α} {default : α} {key : String}
    {others : Members}
    (h : lookup others (Bytes.ofString key) = lookup members (Bytes.ofString key)) :
    member kind default others key = member kind default members key := by
  rw [member, member, Json.read_congr h]

theorem ofMembers_congr {others : Members}
    (h : ∀ key ∈ keys, lookup others (Bytes.ofString key) = lookup members (Bytes.ofString key)) :
    ofMembers others = ofMembers members := by
  have hhash : accessHashMember others = accessHashMember members := by
    rw [accessHashMember, accessHashMember, h "access_hash" (by decide)]
  rw [ofMembers, ofMembers, hhash, member_congr (h "latitude" (by decide)),
    member_congr (h "longitude" (by decide)), member_congr (h "horizontal_accuracy" (by decide)),
    member_congr (h "title" (by decide)), member_congr (h "address" (by decide)),
    member_congr (h "provider" (by decide)), member_congr (h "id" (by decide)),
    member_congr (h "type" (by decide))]

/-- Objects that agree on the nine members are decoded alike. -/
theorem parse_congr {other : Bytes} {others : Members} (hline : IsText line (.obj members))
    (hother : IsText other (.obj others))
    (h : ∀ key ∈ keys, lookup others (Bytes.ofString key) = lookup members (Bytes.ofString key)) :
    parse other = parse line := by
  rw [← Json.parse?_eq_some_iff] at hline hother
  rw [parse, parse, hline, hother]
  exact ofMembers_congr h

end Record

/-! ### Judgements -/

namespace Judgement

open Record

variable {requireMapPoint : Bool} {line : Bytes}

theorem ofLine_of_parse {r : Record} (h : parse line = .ok r) :
    ofLine requireMapPoint line = ofRecord requireMapPoint r := by
  rw [ofLine, h]

theorem ofLine_of_isMalformed (requireMapPoint : Bool) (h : IsMalformed line) :
    ∃ f, ofLine requireMapPoint line = .malformed f := by
  unfold ofLine
  cases hparse : parse line with
  | error f => exact ⟨f, rfl⟩
  | ok r => exact absurd h (exists_parse_eq_ok.1 ⟨r, hparse⟩)

theorem ofLine_of_not_isOnGlobe (h : ¬IsMalformed line) (hglobe : ¬IsOnGlobe line) :
    ofLine requireMapPoint line = .rejected (.invalid .emptyLocation) := by
  obtain ⟨r, hr⟩ := exists_parse_eq_ok.2 h
  rw [← isEmpty_location_iff hr] at hglobe
  obtain ⟨-, herror⟩ | ⟨hlocation, -⟩ := validate_of_parse hr
  · rw [ofLine_of_parse hr, ofRecord, herror]
  · exact absurd hlocation hglobe

/-- A record on the globe has a venue, which only the map can refuse. -/
theorem exists_venue {r : Record} (hr : parse line = .ok r) (hglobe : IsOnGlobe line) :
    ∃ v, r.validate = .ok v ∧ (v.location.isMapPoint = false ↔ IsBeyondMap line) := by
  obtain ⟨hempty, -⟩ | ⟨-, v, hv, hlocation⟩ := validate_of_parse hr
  · rw [(isEmpty_location_iff hr).2 hglobe] at hempty
    cases hempty
  · exact ⟨v, hv, by rw [hlocation, isMapPoint_location_iff hr hglobe]⟩

theorem ofLine_of_isBeyondMap (h : ¬IsMalformed line) (hglobe : IsOnGlobe line)
    (hmap : IsBeyondMap line) : ofLine true line = .rejected .notMapPoint := by
  obtain ⟨r, hr⟩ := exists_parse_eq_ok.2 h
  obtain ⟨v, hv, hbeyond⟩ := exists_venue hr hglobe
  rw [ofLine_of_parse hr, ofRecord, hv]
  simp [hbeyond.2 hmap]

theorem ofLine_of_isOnGlobe (h : ¬IsMalformed line) (hglobe : IsOnGlobe line)
    (hmap : ¬(requireMapPoint = true ∧ IsBeyondMap line)) :
    ∃ v, ofLine requireMapPoint line = .accepted v := by
  obtain ⟨r, hr⟩ := exists_parse_eq_ok.2 h
  obtain ⟨v, hv, hbeyond⟩ := exists_venue hr hglobe
  refine ⟨v, ?_⟩
  rw [ofLine_of_parse hr, ofRecord_eq_accepted]
  refine ⟨hv, ?_⟩
  intro hrequired
  rw [← Bool.not_eq_false, hbeyond]
  exact fun hbeyond => hmap ⟨hrequired, hbeyond⟩

end Judgement

/-! ### Printed records -/

namespace Report

theorem member?_error {r : Report} {e : Rejection} (h : r.judgement = .rejected e) :
    r.toJson.member? "error" = some (.string e.name) := by
  rw [toJson, Json.member?_object, details, h]
  rfl

/-- The printed record is a rejection with this error. -/
def isRejection (r : Report) (error : String) : Bool :=
  r.hasStatus "rejected" && r.shows "error" error

theorem isRejection_of_rejected {r : Report} {e : Rejection} (h : r.judgement = .rejected e)
    (error : String) : r.isRejection error = (e.name == error) := by
  rw [isRejection, hasStatus_eq, status, h, r.shows_of_member? (member?_error h)]
  rfl

theorem isRejection_of_not_rejected {r : Report} (h : ∀ e, r.judgement ≠ .rejected e)
    (error : String) : r.isRejection error = false := by
  rw [isRejection, hasStatus_eq, status]
  cases hj : r.judgement with
  | malformed f => rfl
  | rejected e => exact absurd hj (h e)
  | accepted v => rfl

/-- The printed record has the outcome that the text of the line calls for. -/
structure Classifies (record : Report) (requireMapPoint : Bool) (line : Bytes) : Prop where
  malformed : record.hasStatus "malformed" = true ↔ Record.IsMalformed line
  invalid_location : record.isRejection "INVALID_LOCATION" = true ↔
    ¬Record.IsMalformed line ∧ ¬Record.IsOnGlobe line
  not_map_point : record.isRejection "NOT_A_MAP_POINT" = true ↔
    ¬Record.IsMalformed line ∧ Record.IsOnGlobe line ∧
      requireMapPoint = true ∧ Record.IsBeyondMap line
  ok : record.hasStatus "ok" = true ↔
    ¬Record.IsMalformed line ∧ Record.IsOnGlobe line ∧
      ¬(requireMapPoint = true ∧ Record.IsBeyondMap line)

theorem classifies_of_judgement {r : Report} {requireMapPoint : Bool} {line : Bytes}
    (h : r.judgement = Judgement.ofLine requireMapPoint line) :
    r.Classifies requireMapPoint line := by
  -- the three questions about the line settle its judgement, and that settles all four fields
  by_cases hmalformed : Record.IsMalformed line
  · obtain ⟨f, hf⟩ := Judgement.ofLine_of_isMalformed requireMapPoint hmalformed
    rw [hf] at h
    have hrejection := isRejection_of_not_rejected (r := r) (by simp [h])
    constructor <;> simp [hasStatus_eq, status, h, hrejection, hmalformed]
  by_cases hglobe : Record.IsOnGlobe line
  · by_cases hmap : requireMapPoint = true ∧ Record.IsBeyondMap line
    · obtain ⟨rfl, hbeyond⟩ := hmap
      rw [Judgement.ofLine_of_isBeyondMap hmalformed hglobe hbeyond] at h
      have hrejection := isRejection_of_rejected h
      constructor <;>
        simp [hasStatus_eq, status, h, hrejection, hmalformed, hglobe, hbeyond, Rejection.name]
    · obtain ⟨v, hv⟩ := Judgement.ofLine_of_isOnGlobe hmalformed hglobe hmap
      rw [hv] at h
      have hrejection := isRejection_of_not_rejected (r := r) (by simp [h])
      constructor <;> simp [hasStatus_eq, status, h, hrejection, hmalformed, hglobe, hmap]
  · rw [Judgement.ofLine_of_not_isOnGlobe hmalformed hglobe] at h
    have hrejection := isRejection_of_rejected h
    constructor <;>
      simp [hasStatus_eq, status, h, hrejection, hmalformed, hglobe, Rejection.name,
        Venue.Fault.name]

end Report

/-! ### Checkers -/

namespace Checker

open Record

/-- Objects that agree on the nine members are reported alike, and change a checker alike. -/
theorem check_congr (c : Checker) (number : Nat) {line other : Bytes}
    {members others : Json.Members} (hline : Json.IsText line (.obj members))
    (hother : Json.IsText other (.obj others))
    (h : ∀ key ∈ keys, Json.lookup others (Bytes.ofString key) =
      Json.lookup members (Bytes.ofString key)) :
    c.check number other = c.check number line := by
  rw [check, check, Judgement.ofLine, Judgement.ofLine, parse_congr hline hother h]

/-- **The classification of a line**, whatever a checker was asked to do before: its outcome depends
on the text of the line alone, and of an object on the nine members alone, as does what the line
changes. -/
theorem classification (settings : Settings) (history : List Call) (number : Nat) (line : Bytes) :
    let checker := ((new settings).performAll history).2
    (checker.check number line).1.Classifies settings.requireMapPoint line ∧
      ∀ (other : Bytes) (members others : Json.Members),
        Json.IsText line (.obj members) → Json.IsText other (.obj others) →
        (∀ key ∈ keys, Json.lookup others (Bytes.ofString key) =
          Json.lookup members (Bytes.ofString key)) →
        checker.check number other = checker.check number line := by
  intro checker
  constructor
  · have hsettings : checker.settings = settings := performAll_settings (new settings) history
    rw [← hsettings]
    exact Report.classifies_of_judgement rfl
  · intro other members others hline hother h
    exact checker.check_congr number hline hother h

/-- Two lines with the same members that matter, in another order and with others among them.  The
place is the pole itself, which no map shows. -/
theorem classification_of_other_members :
    let line := Bytes.ofString "\x7b\"latitude\":90,\"longitude\":-7,\"title\":\"A\"\x7d"
    let other := Bytes.ofString
      "\x7b\"title\":null,\"note\":[],\"title\":\"A\",\"longitude\":-7,\"latitude\":90\x7d"
    let members := [(Bytes.ofString "latitude", Json.int 90),
      (Bytes.ofString "longitude", .int (-7)), (Bytes.ofString "title", .string "A")]
    let others := [(Bytes.ofString "title", Json.null), (Bytes.ofString "note", .arr []),
      (Bytes.ofString "title", .string "A"), (Bytes.ofString "longitude", .int (-7)),
      (Bytes.ofString "latitude", .int 90)]
    let checker := ((new Settings.default).performAll [.run line]).2
    (Json.IsText line (.obj members) ∧ IsOnGlobe line ∧
        (checker.check 5 line).1.hasStatus "ok" = true) ∧
      Json.IsText other (.obj others) ∧ checker.check 5 other = checker.check 5 line := by
  intro line other members others checker
  have hline : Json.parse? line = some (.obj members) := rfl
  have hother : Json.parse? other = some (.obj others) := rfl
  rw [Json.parse?_eq_some_iff] at hline hother
  obtain ⟨hclassifies, hcongr⟩ := classification Settings.default [.run line] 5 line
  let r : Record := ⟨⟨0x4056800000000000⟩, ⟨0xC01C000000000000⟩, .zero, 0, [0x41], [], [], [], []⟩
  have hr : parse line = .ok r := by decide +kernel
  have hglobe : IsOnGlobe line := (isEmpty_location_iff hr).1 (by decide +kernel)
  refine ⟨⟨hline, hglobe, ?_⟩, hother, ?_⟩
  · refine hclassifies.ok.2 ⟨exists_parse_eq_ok.1 ⟨r, hr⟩, hglobe, ?_⟩
    rintro ⟨⟨⟩, -⟩
  refine hcongr other _ _ hline hother ?_
  intro key hkey
  simp only [keys, numberKeys, textKeys, List.cons_append, List.nil_append, List.mem_cons,
    List.not_mem_nil, or_false] at hkey
  rcases hkey with rfl | rfl | rfl | rfl | rfl | rfl | rfl | rfl | rfl <;> rfl

end Checker

end PlaceFeed
