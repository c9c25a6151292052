import PlaceFeed.Proofs.Acceptance
import PlaceFeed.Proofs.ParsedValues

/-!
# Decoding a record

An object is a record exactly when its nine members, as far as they are there, have the right
kinds (`Record.exists_ofMembers_eq_ok`).  The record then holds their values
(`Record.ofMembers_eq_ok`). Its five texts are well-formed UTF-8 (`Record.isValid_of_mem_texts`),
so that **nothing but its location can be wrong with its venue** (`Record.validate_of_parse`).
-/

namespace PlaceFeed

theorem Clean.exists_clean {text : Bytes} (h : Utf8.isValid text = true) :
    ∃ out, clean text = some out := by
  rw [clean, if_pos h]
  exact ⟨_, rfl⟩

namespace Record

open Json (Members IsText lookup read_eq_some exists_read_eq_some isSome_string?_iff)

variable {members : Members} {line : Bytes} {r : Record}

/-! ### Members -/

/-- The keys of the numbers in a record. -/
def numberKeys : List String := ["latitude", "longitude", "horizontal_accuracy"]

/-- The keys of the texts in a record. -/
def textKeys : List String := ["title", "address", "provider", "id", "type"]

theorem member_eq_ok {α : Type} {kind : Json → Option α} {default a : α} {key : String} :
    member kind default members key = .ok a ↔ Json.read kind default members key = some a := by
  unfold member
  cases Json.read kind default members key <;> simp

/-- The access hash of an object is an integer with a sign and 64 bits, if it is there. -/
def HasAccessHash (members : Members) : Prop :=
  ∀ v, lookup members (Bytes.ofString "access_hash") = some v →
    ∃ n, v = .int n ∧ -0x8000000000000000 ≤ n ∧ n ≤ 0x7FFFFFFFFFFFFFFF

theorem exists_accessHashMember_eq_ok :
    (∃ n, accessHashMember members = .ok n) ↔ HasAccessHash members := by
  unfold accessHashMember HasAccessHash
  cases h : lookup members (Bytes.ofString "access_hash") with
  | none => simp
  | some v =>
    cases v with
    | int n =>
      by_cases hbounds : -0x8000000000000000 ≤ n ∧ n < 0x8000000000000000
      · have hle : n ≤ 0x7FFFFFFFFFFFFFFF := by omega
        simp [hbounds, hle]
      · simp only [if_neg hbounds, reduceCtorEq, exists_false, Option.some.injEq, forall_eq',
          Json.int.injEq, exists_eq_left', false_iff]
        omega
    | null | bool | float | str | arr | obj => simp

theorem ofMembers_eq_ok :
    ofMembers members = .ok r ↔
      Json.read Json.number? Binary64.nan members "latitude" = some r.latitude ∧
      Json.read Json.number? Binary64.nan members "longitude" = some r.longitude ∧
      Json.read Json.number? Binary64.zero members "horizontal_accuracy" = some r.accuracy ∧
      accessHashMember members = .ok r.accessHash ∧
      Json.read Json.string? [] members "title" = some r.title ∧
      Json.read Json.string? [] members "address" = some r.address ∧
      Json.read Json.string? [] members "provider" = some r.provider ∧
      Json.read Json.string? [] members "id" = some r.id ∧
      Json.read Json.string? [] members "type" = some r.kind := by
  unfold ofMembers
  simp only [bind_eq_ok, member_eq_ok]
  constructor
  · rintro ⟨lat, hlat, long, hlong, acc, hacc, hash, hhash, t, ht, a, ha, p, hp, i, hi, k, hk, h⟩
    cases h
    exact ⟨hlat, hlong, hacc, hhash, ht, ha, hp, hi, hk⟩
  · rintro ⟨hlat, hlong, hacc, hhash, ht, ha, hp, hi, hk⟩
    exact ⟨_, hlat, _, hlong, _, hacc, _, hhash, _, ht, _, ha, _, hp, _, hi, _, hk, rfl⟩

/-- The members that matter have the right kinds, as far as they are there. -/
structure Fits (members : Members) : Prop where
  numbers : ∀ key ∈ numberKeys, ∀ v, lookup members (Bytes.ofString key) = some v → v.IsNumber
  access_hash : HasAccessHash members
  texts : ∀ key ∈ textKeys, ∀ v, lookup members (Bytes.ofString key) = some v → ∃ s, v = .str s

theorem isSome_number?_iff (h : IsText line (.obj members)) {key : Bytes} {v : Json}
    (hv : lookup members key = some v) : v.number?.isSome = true ↔ v.IsNumber := by
  constructor
  · intro hnumber
    cases v with
    | int n => exact .inl ⟨n, rfl⟩
    | float x => exact .inr ⟨x, rfl⟩
    | null | bool | str | arr | obj => cases hnumber
  · intro hnumber
    refine h.isSome_number? (Json.value_mem_tokens_of_lookup hv ?_) hnumber
    obtain ⟨n, rfl⟩ | ⟨x, rfl⟩ := hnumber <;> rfl

/-- An object is a record when its members fit. -/
theorem exists_ofMembers_eq_ok (h : IsText line (.obj members)) :
    (∃ r, ofMembers members = .ok r) ↔ Fits members := by
  simp only [ofMembers_eq_ok]
  constructor
  · rintro ⟨r, hlat, hlong, hacc, hhash, ht, ha, hp, hi, hk⟩
    constructor
    · intro key hkey v hv
      rw [← isSome_number?_iff h hv]
      simp only [numberKeys, List.mem_cons, List.not_mem_nil, or_false] at hkey
      rcases hkey with rfl | rfl | rfl
      · exact exists_read_eq_some.1 ⟨_, hlat⟩ v hv
      · exact exists_read_eq_some.1 ⟨_, hlong⟩ v hv
      · exact exists_read_eq_some.1 ⟨_, hacc⟩ v hv
    · exact exists_accessHashMember_eq_ok.1 ⟨_, hhash⟩
    · intro key hkey v hv
      rw [← isSome_string?_iff]
      simp only [textKeys, List.mem_cons, List.not_mem_nil, or_false] at hkey
      rcases hkey with rfl | rfl | rfl | rfl | rfl
      · exact exists_read_eq_some.1 ⟨_, ht⟩ v hv
      · exact exists_read_eq_some.1 ⟨_, ha⟩ v hv
      · exact exists_read_eq_some.1 ⟨_, hp⟩ v hv
      · exact exists_read_eq_some.1 ⟨_, hi⟩ v hv
      · exact exists_read_eq_some.1 ⟨_, hk⟩ v hv
  · intro hfits
    have hnumber : ∀ key ∈ numberKeys, ∀ default,
        ∃ x, Json.read Json.number? default members key = some x := by
      intro key hkey default
      rw [exists_read_eq_some]
      intro v hv
      exact (isSome_number?_iff h hv).2 (hfits.numbers key hkey v hv)
    have htext : ∀ key ∈ textKeys, ∃ s, Json.read Json.string? [] members key = some s := by
      intro key hkey
      rw [exists_read_eq_some]
      intro v hv
      exact isSome_string?_iff.2 (hfits.texts key hkey v hv)
    obtain ⟨latitude, hlat⟩ := hnumber "latitude" (by decide) Binary64.nan
    obtain ⟨longitude, hlong⟩ := hnumber "longitude" (by decide) Binary64.nan
    obtain ⟨accuracy, hacc⟩ := hnumber "horizontal_accuracy" (by decide) Binary64.zero
    obtain ⟨accessHash, hhash⟩ := exists_accessHashMember_eq_ok.2 hfits.access_hash
    obtain ⟨title, ht⟩ := htext "title" (by decide)
    obtain ⟨address, ha⟩ := htext "address" (by decide)
    obtain ⟨provider, hp⟩ := htext "provider" (by decide)
    obtain ⟨id, hi⟩ := htext "id" (by decide)
    obtain ⟨kind, hk⟩ := htext "type" (by decide)
    exact ⟨⟨latitude, longitude, accuracy, accessHash, title, address, provider, id, kind⟩, hlat,
      hlong, hacc, hhash, ht, ha, hp, hi, hk⟩

/-! ### Lines -/

theorem parse_eq_ok :
    parse line = .ok r ↔ ∃ members, IsText line (.obj members) ∧ ofMembers members = .ok r := by
  unfold parse
  simp only [← Json.parse?_eq_some_iff]
  cases Json.parse? line with
  | none => simp
  | some v => cases v <;> simp

/-- The texts of a record. -/
def texts (r : Record) : List Bytes := [r.title, r.address, r.provider, r.id, r.kind]

theorem isValid_of_read (h : IsText line (.obj members)) {key : String} {s : Bytes}
    (hs : Json.read Json.string? [] members key = some s) : Utf8.isValid s = true := by
  obtain ⟨-, rfl⟩ | ⟨v, hv, hkind⟩ := read_eq_some.1 hs
  · rfl
  · cases v with
    | str t =>
      obtain rfl := Option.some.inj hkind
      exact h.isValid_str (Json.value_mem_tokens_of_lookup hv rfl)
    | null | bool | int | float | arr | obj => cases hkind

/-- The texts of a record are well-formed. -/
theorem isValid_of_mem_texts (h : parse line = .ok r) :
    ∀ text ∈ r.texts, Utf8.isValid text = true := by
  obtain ⟨members, htext, hmembers⟩ := parse_eq_ok.1 h
  obtain ⟨-, -, -, -, ht, ha, hp, hi, hk⟩ := ofMembers_eq_ok.1 hmembers
  intro text hmem
  simp only [texts, List.mem_cons, List.not_mem_nil, or_false] at hmem
  rcases hmem with rfl | rfl | rfl | rfl | rfl
  · exact isValid_of_read htext ht
  · exact isValid_of_read htext ha
  · exact isValid_of_read htext hp
  · exact isValid_of_read htext hi
  · exact isValid_of_read htext hk

/-- Nothing but its location can be wrong with a record. -/
theorem validate_of_parse (h : parse line = .ok r) :
    (r.location.isEmpty = true ∧ r.validate = .error .emptyLocation) ∨
      (r.location.isEmpty = false ∧ ∃ v, r.validate = .ok v ∧ v.location = r.location) := by
  cases hlocation : r.location.isEmpty with
  | true =>
    refine .inl ⟨rfl, ?_⟩
    rw [validate, Venue.validate, if_pos hlocation]
    rfl
  | false =>
    have hvalid := isValid_of_mem_texts h
    simp only [texts, List.forall_mem_cons] at hvalid
    obtain ⟨ht, ha, hp, hi, hk, -⟩ := hvalid
    obtain ⟨title, ht⟩ := Clean.exists_clean ht
    obtain ⟨address, ha⟩ := Clean.exists_clean ha
    obtain ⟨provider, hp⟩ := Clean.exists_clean hp
    obtain ⟨id, hi⟩ := Clean.exists_clean hi
    obtain ⟨kind, hk⟩ := Clean.exists_clean hk
    refine .inr ⟨rfl, ⟨r.location, title, address, provider, id, kind⟩, ?_, rfl⟩
    exact Venue.validate_eq_ok.2 ⟨hlocation, rfl, ht, ha, hp, hi, hk⟩

end Record

end PlaceFeed
