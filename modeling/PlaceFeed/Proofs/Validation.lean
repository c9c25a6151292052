import PlaceFeed.Proofs.Acceptance
import PlaceFeed.Proofs.Cleaning

/-!
# What is said of the parts of a venue

`Venue.Verdict` is all that validation says: the venue, if there is one, with the name and the
reason of an error.  What it has to say is given here without it, by the parts alone:
`Venue.Refused` is the error of the first part that is at fault, the location before the texts and
these in the order of their fields.

* `Venue.isFirstFault_of_validate` : a fault in a text is that of the first ill-formed one;
* `Venue.Refused.unique` : parts are refused in one way;
* `Venue.refused_iff` : validation fails on the parts that are refused, and says so;
* `Venue.validation_exact` : **the verdict on any parts**.
-/

namespace PlaceFeed

namespace Venue

variable {location : Location} {title address provider id kind : Bytes} {e : Fault}

/-! ### Texts as they are given -/

/-- A text as it is given, with the name of its field and that of the error when the text is
ill-formed. -/
structure Field where
  name : String
  error : String
  text : Bytes

/-- The text encodes Unicode scalar values. -/
def Field.IsWellFormed (f : Field) : Prop := ∃ cs, Scalars.encode cs = f.text

/-- The texts of a venue in the order in which they are checked. -/
def fields (title address provider id kind : Bytes) : List Field := [
  ⟨"title", "INVALID_TITLE", title⟩,
  ⟨"address", "INVALID_ADDRESS", address⟩,
  ⟨"provider", "INVALID_PROVIDER", provider⟩,
  ⟨"id", "INVALID_ID", id⟩,
  ⟨"type", "INVALID_TYPE", kind⟩]

/-- The reason that an ill-formed text gives. -/
def Field.reason (f : Field) : String := "Venue " ++ f.name ++ ": Strings must be encoded in UTF-8"

/-- The parts are **refused** with an error and a reason: the location is empty, or it is not and
this text is the first that is ill-formed. -/
inductive Refused (location : Location) (fields : List Field) : (error reason : String) → Prop
  | location (h : location.isEmpty = true) :
    Refused location fields "INVALID_LOCATION" "Venue must be non-empty"
  | field {before after : List Field} {f : Field} (h : location.isEmpty = false)
    (hfields : fields = before ++ f :: after) (hbefore : ∀ g ∈ before, g.IsWellFormed)
    (htext : ¬f.IsWellFormed) : Refused location fields f.error f.reason

/-! ### The first fault -/

/-- The text of a field is found to be ill-formed. -/
def Field.isIllFormed (f : Field) : Bool := !Utf8.isValid f.text

theorem Field.isIllFormed_iff {f : Field} : f.isIllFormed = true ↔ ¬f.IsWellFormed := by
  rw [Field.isIllFormed, Bool.not_eq_true', Field.IsWellFormed, ← Scalars.isValid_iff,
    Bool.not_eq_true]

theorem find?_isIllFormed_eq_some {fields : List Field} {f : Field} :
    fields.find? Field.isIllFormed = some f ↔
      ∃ before after, fields = before ++ f :: after ∧ (∀ g ∈ before, g.IsWellFormed) ∧
        ¬f.IsWellFormed := by
  have hwell (g : Field) : (!g.isIllFormed) = true ↔ g.IsWellFormed := by
    rw [Bool.not_eq_true', ← Bool.not_eq_true, Field.isIllFormed_iff, not_not]
  simp only [List.find?_eq_some_iff_append, Field.isIllFormed_iff, hwell]
  constructor
  · rintro ⟨htext, before, after, hfields, hbefore⟩
    exact ⟨before, after, hfields, hbefore, htext⟩
  · rintro ⟨before, after, hfields, hbefore, htext⟩
    exact ⟨htext, before, after, hfields, hbefore⟩

/-- The fault is that of the first ill-formed text. -/
def IsFirstFault (fields : List Field) (e : Fault) : Prop :=
  ∃ f, fields.find? Field.isIllFormed = some f ∧ e.name = f.error ∧ e.reason = f.reason

/-- One more text, which is cleaned before the others. -/
theorem IsFirstFault.cons {α : Type} {f : Field} {fields : List Field} {own : Fault}
    {next : Bytes → Except Fault α} (hname : own.name = f.error) (hreason : own.reason = f.reason)
    (h : (cleanField own f.text >>= next) = .error e)
    (hnext : ∀ out, next out = .error e → IsFirstFault fields e) :
    IsFirstFault (f :: fields) e := by
  rw [IsFirstFault, List.find?_cons, Field.isIllFormed]
  unfold cleanField Clean.clean at h
  cases hvalid : Utf8.isValid f.text with
  | true =>
    rw [if_pos hvalid] at h
    exact hnext _ h
  | false =>
    rw [hvalid] at h
    obtain rfl : own = e := Except.error.inj h
    exact ⟨f, rfl, hname, hreason⟩

theorem isFirstFault_of_validate (hlocation : location.isEmpty = false)
    (h : validate location title address provider id kind = .error e) :
    IsFirstFault (fields title address provider id kind) e := by
  rw [validate, hlocation] at h
  -- one text after the other, each only once those before it are clean
  refine .cons rfl rfl h fun title h => ?_
  refine .cons rfl rfl h fun address h => ?_
  refine .cons rfl rfl h fun provider h => ?_
  refine .cons rfl rfl h fun id h => ?_
  refine .cons rfl rfl h fun kind h => ?_
  cases h

/-! ### Refusals -/

variable {error reason : String}

/-- Parts are refused in one way. -/
theorem Refused.unique {fields : List Field} {error' reason' : String}
    (h : Refused location fields error reason) (h' : Refused location fields error' reason') :
    error = error' ∧ reason = reason' := by
  cases h with
  | location hempty =>
    cases h' with
    | location => exact ⟨rfl, rfl⟩
    | field hlocation =>
      rw [hempty] at hlocation
      cases hlocation
  | field hlocation hfields hbefore htext =>
    cases h' with
    | location hempty =>
      rw [hempty] at hlocation
      cases hlocation
    | field _ hfields' hbefore' htext' =>
      have hfirst := find?_isIllFormed_eq_some.2 ⟨_, _, hfields, hbefore, htext⟩
      have hfirst' := find?_isIllFormed_eq_some.2 ⟨_, _, hfields', hbefore', htext'⟩
      obtain rfl := Option.some.inj (hfirst.symm.trans hfirst')
      exact ⟨rfl, rfl⟩

/-- Something is wrong with parts that are refused. -/
theorem Refused.not_forall {fields : List Field} (h : Refused location fields error reason) :
    ¬(location.isEmpty = false ∧ ∀ f ∈ fields, f.IsWellFormed) := by
  rintro ⟨hlocation, htexts⟩
  cases h with
  | location hempty =>
    rw [hempty] at hlocation
    cases hlocation
  | field _ hfields _ htext =>
    refine htext (htexts _ ?_)
    rw [hfields]
    exact List.mem_append_cons_self

/-- A fault is what the parts are refused with. -/
theorem refused_of_validate (h : validate location title address provider id kind = .error e) :
    Refused location (fields title address provider id kind) e.name e.reason := by
  cases hlocation : location.isEmpty with
  | true =>
    rw [validate, hlocation] at h
    obtain rfl := Except.error.inj h
    exact .location hlocation
  | false =>
    obtain ⟨f, hfirst, hname, hreason⟩ := isFirstFault_of_validate hlocation h
    obtain ⟨before, after, hfields, hbefore, htext⟩ := find?_isIllFormed_eq_some.1 hfirst
    rw [hname, hreason]
    exact .field hlocation hfields hbefore htext

theorem exists_encode_of_clean {text out : Bytes} (h : Clean.clean text = some out) :
    ∃ cs, Scalars.encode cs = text := by
  by_contra hnone
  rw [Scalars.clean_eq_none_iff.2 (not_exists.1 hnone)] at h
  cases h

/-- There is a venue when the location is not empty and all texts are well-formed. -/
theorem exists_validate_eq_ok :
    (∃ v, validate location title address provider id kind = .ok v) ↔
      location.isEmpty = false ∧ ∀ f ∈ fields title address provider id kind, f.IsWellFormed := by
  constructor
  · rintro ⟨v, hv⟩
    obtain ⟨hlocation, -, ht, ha, hp, hi, hk⟩ := validate_eq_ok.1 hv
    refine ⟨hlocation, ?_⟩
    simp only [fields, List.forall_mem_cons]
    exact ⟨exists_encode_of_clean ht, exists_encode_of_clean ha, exists_encode_of_clean hp,
      exists_encode_of_clean hi, exists_encode_of_clean hk, List.forall_mem_nil _⟩
  · rintro ⟨hlocation, htexts⟩
    cases hresult : validate location title address provider id kind with
    | ok v => exact ⟨v, rfl⟩
    | error e => exact absurd ⟨hlocation, htexts⟩ (refused_of_validate hresult).not_forall

/-- Validation fails on the parts that are refused, and says so. -/
theorem refused_iff :
    Refused location (fields title address provider id kind) error reason ↔
      ∃ e, validate location title address provider id kind = .error e ∧ e.name = error ∧
        e.reason = reason := by
  constructor
  · intro h
    cases hresult : validate location title address provider id kind with
    | ok v => exact absurd (exists_validate_eq_ok.1 ⟨v, hresult⟩) h.not_forall
    | error e =>
      obtain ⟨hname, hreason⟩ := (refused_of_validate hresult).unique h
      exact ⟨e, rfl, hname, hreason⟩
  · rintro ⟨e, he, rfl, rfl⟩
    exact refused_of_validate he

/-! ### Verdicts -/

/-- All that is said of the parts of a venue. -/
structure Verdict where
  venue : Option Venue
  error : String
  reason : String
  success : Bool

/-- The verdict of a validation. -/
def Verdict.of : Except Fault Venue → Verdict
  | .ok v => ⟨some v, Fault.outcomeName none, "", true⟩
  | .error e => ⟨none, Fault.outcomeName (some e), e.reason, false⟩

theorem Fault.name_ne_none (e : Fault) : e.name ≠ Fault.outcomeName none := by
  cases e <;> decide

section Verdict

variable {result : Except Fault Venue}

theorem Verdict.success_iff : (Verdict.of result).success = true ↔ ∃ v, result = .ok v := by
  cases result <;> simp [Verdict.of]

theorem Verdict.isSome_venue (result : Except Fault Venue) :
    (Verdict.of result).venue.isSome = (Verdict.of result).success := by
  cases result <;> rfl

/-- There is an error exactly when there is no success. -/
theorem Verdict.error_eq_none_iff :
    (Verdict.of result).error = "NONE" ↔ (Verdict.of result).success = true := by
  cases result with
  | ok v => exact iff_of_true rfl rfl
  | error e => exact iff_of_false e.name_ne_none Bool.false_ne_true

/-- A verdict without a venue is that of a fault. -/
theorem Verdict.of_fault_iff :
    ((Verdict.of result).success = false ∧ (Verdict.of result).venue = none ∧
        (Verdict.of result).error = error ∧ (Verdict.of result).reason = reason) ↔
      ∃ e, result = .error e ∧ e.name = error ∧ e.reason = reason := by
  cases result with
  | ok v => simp [Verdict.of]
  | error e =>
    constructor
    · rintro ⟨-, -, rfl, rfl⟩
      exact ⟨e, rfl, rfl, rfl⟩
    · rintro ⟨_, ⟨⟩, rfl, rfl⟩
      exact ⟨rfl, rfl, rfl, rfl⟩

end Verdict

/-- **The verdict on any parts.**  There is a venue exactly when the location is not empty and all
five texts are well-formed, with no error.  It has the location that was given, and in each field
the clean form of the text for that field.  Otherwise there is none, and the error is that of the
first part at fault, whatever comes after it. -/
theorem validation_exact (location : Location) (title address provider id kind : Bytes) :
    let verdict := Verdict.of (validate location title address provider id kind)
    let texts := fields title address provider id kind
    (verdict.success = true ↔ location.isEmpty = false ∧ ∀ f ∈ texts, f.IsWellFormed) ∧
    (verdict.success = true → verdict.error = "NONE" ∧ verdict.reason = "" ∧
      ∃ v, verdict.venue = some v ∧ v.location = location ∧ Clean.clean title = some v.title ∧
        Clean.clean address = some v.address ∧ Clean.clean provider = some v.provider ∧
        Clean.clean id = some v.id ∧ Clean.clean kind = some v.kind) ∧
    (∀ error reason, Refused location texts error reason ↔ verdict.success = false ∧
      verdict.venue = none ∧ verdict.error = error ∧ verdict.reason = reason) ∧
    (verdict.venue.isSome = true ↔ verdict.success = true) ∧
    (verdict.success = true ↔ verdict.error = "NONE") := by
  intro verdict texts
  have hvenue : verdict.venue.isSome = verdict.success := Verdict.isSome_venue _
  refine ⟨Verdict.success_iff.trans exists_validate_eq_ok, ?_,
    fun error reason => refused_iff.trans Verdict.of_fault_iff.symm, by rw [hvenue],
    Verdict.error_eq_none_iff.symm⟩
  intro hsuccess
  obtain ⟨v, hv⟩ := Verdict.success_iff.1 hsuccess
  have hverdict : verdict = Verdict.of (.ok v) := congrArg Verdict.of hv
  obtain ⟨-, hparts⟩ := validate_eq_ok.1 hv
  rw [hverdict]
  exact ⟨rfl, rfl, v, rfl, hparts⟩

/-- Of two ill-formed texts the first is the reason, and the same title without them is cleaned. -/
theorem validation_exact_address :
    let location := Location.build ⟨0x3FF0000000000000⟩ ⟨0x4000000000000000⟩ Binary64.zero 7
    let title := Bytes.ofString "\u202E a\r"
    Refused location (fields title [0x80] [0xC0] [] []) "INVALID_ADDRESS"
        "Venue address: Strings must be encoded in UTF-8" ∧
      (Verdict.of (validate location title [] [] [] [])).success = true ∧
      ∃ v, (Verdict.of (validate location title [] [] [] [])).venue = some v ∧
        v.location = location ∧ Clean.clean title = some v.title := by
  intro location title
  obtain ⟨-, -, hrefused, -⟩ := validation_exact location title [0x80] [0xC0] [] []
  obtain ⟨-, hvenue, -⟩ := validation_exact location title [] [] [] []
  have hsuccess : (Verdict.of (validate location title [] [] [] [])).success = true := by
    decide +kernel
  obtain ⟨-, -, v, hv, hlocation, htitle, -⟩ := hvenue hsuccess
  exact ⟨(hrefused _ _).2 (by decide +kernel), hsuccess, v, hv, hlocation, htitle⟩

end Venue

end PlaceFeed
