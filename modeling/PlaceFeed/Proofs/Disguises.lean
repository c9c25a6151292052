import PlaceFeed.Proofs.Acceptance
import PlaceFeed.Proofs.Accounting
import PlaceFeed.Proofs.Cleaning
import Mathlib.Logic.Relation

/-!
# Disguised names

A text can be made to look like another: characters that nobody sees are put in anywhere
(`Scalars.isInvisible`), or a control byte stands in place of a space.  `Scalars.Disguise` is one
such change, next to any characters and at any place, and `Scalars.LooksAlike` is any number of
them, there and back.

Scrubbing treats each character on its own, without a look at its neighbours, and comes before the
cut.  A change therefore goes without a trace, whatever the length of the text.

* `Scalars.clean_of_looksAlike` : **texts that look alike have the same clean form**;
* `Checker.disguises_recognised` : so a place does not pass for a new one under a disguised name.
-/

namespace PlaceFeed

namespace Scalars

open Utf8

/-! ### Disguises -/

/-- A control byte other than tab, line feed and carriage return. -/
def IsControlByte (b : UInt8) : Prop :=
  b.toNat ≤ 8 ∨ b.toNat = 11 ∨ b.toNat = 12 ∨ (14 ≤ b.toNat ∧ b.toNat ≤ 31) ∨ b.toNat = 127

/-- The text differs from the plain one at one place, between two characters. -/
inductive Disguise : (text plain : Bytes) → Prop
  /-- Invisible characters are put in. -/
  | insert {a b : Bytes} {xs : List Char} (ha : isValid a = true) (hb : isValid b = true)
    (hxs : ∀ x ∈ xs, isInvisible x = true) : Disguise (a ++ encode xs ++ b) (a ++ b)
  /-- A control byte stands for a space. -/
  | replace {a b : Bytes} {c : UInt8} (ha : isValid a = true) (hb : isValid b = true)
    (hc : IsControlByte c) : Disguise (a ++ [c] ++ b) (a ++ [Ascii.space] ++ b)

/-- The texts differ by disguises only. -/
def LooksAlike : Bytes → Bytes → Prop := Relation.EqvGen Disguise

/-! ### Scrubbing at one place -/

theorem scrub_append (cs ds : List Char) : scrub (cs ++ ds) = scrub cs ++ scrub ds := by
  simp [scrub]

theorem scrub_of_invisible {xs : List Char} (h : ∀ x ∈ xs, isInvisible x = true) :
    scrub xs = [] := by
  rw [scrub, List.map_eq_nil_iff, List.filter_eq_nil_iff]
  intro x hx
  simp [h x hx]

/-- A control byte is one character, of which scrubbing leaves a space. -/
theorem exists_char_of_isControlByte {b : UInt8} (h : IsControlByte b) :
    ∃ c, encode [c] = [b] ∧ scrub [c] = scrub [' '] := by
  have hform : Form [b] := .one (by unfold IsControlByte at h; omega)
  obtain ⟨c, hc⟩ := hform.exists_encodeChar
  have hcode : c.toNat = b.toNat := by rw [← code_encodeChar c, hc]; rfl
  have hcontrol : isControl c = true := by
    rw [← Clean.isControl_encodeChar, hc, Clean.isControl_iff hform, code]
    unfold IsControlByte at h
    omega
  have hvisible : isInvisible c = false := by
    rw [← Clean.isDropped_encodeChar, hc, Bool.eq_false_iff, Ne, Clean.isDropped_iff hform, code]
    unfold IsControlByte at h
    omega
  have hspace : scrub [' '] = [' '] := by decide
  refine ⟨c, by rw [← hc]; exact List.flatMap_singleton _ c, ?_⟩
  rw [hspace]
  simp [scrub, hvisible, hcontrol]

/-! ### Cleaning -/

/-- Lists that are scrubbed alike are encoded in texts with the same clean form. -/
theorem exists_clean_of_scrub_eq {cs ds : List Char} (h : scrub cs = scrub ds) :
    ∃ out, Clean.clean (encode cs) = some out ∧ Clean.clean (encode ds) = some out := by
  refine ⟨encode (clean cs), clean_encode cs, ?_⟩
  rw [clean_encode ds, clean, clean, h]

theorem exists_clean_of_insert {a b : Bytes} (ha : isValid a = true) (hb : isValid b = true)
    {xs : List Char} (hxs : ∀ x ∈ xs, isInvisible x = true) :
    ∃ out, Clean.clean (a ++ encode xs ++ b) = some out ∧ Clean.clean (a ++ b) = some out := by
  obtain ⟨cs, rfl⟩ := exists_encode_of_isValid ha
  obtain ⟨ds, rfl⟩ := exists_encode_of_isValid hb
  have hscrub : scrub (cs ++ xs ++ ds) = scrub (cs ++ ds) := by
    rw [scrub_append, scrub_append, scrub_append, scrub_of_invisible hxs, List.append_nil]
  rw [← encode_append, ← encode_append, ← encode_append]
  exact exists_clean_of_scrub_eq hscrub

theorem exists_clean_of_replace {a b : Bytes} (ha : isValid a = true) (hb : isValid b = true)
    {c : UInt8} (hc : IsControlByte c) :
    ∃ out, Clean.clean (a ++ [c] ++ b) = some out ∧
      Clean.clean (a ++ [Ascii.space] ++ b) = some out := by
  obtain ⟨cs, rfl⟩ := exists_encode_of_isValid ha
  obtain ⟨ds, rfl⟩ := exists_encode_of_isValid hb
  obtain ⟨x, hx, hxscrub⟩ := exists_char_of_isControlByte hc
  have hspace : encode [' '] = [Ascii.space] := by decide
  have hscrub : scrub (cs ++ [x] ++ ds) = scrub (cs ++ [' '] ++ ds) := by
    simp only [scrub_append, hxscrub]
  rw [← hx, ← hspace, ← encode_append, ← encode_append, ← encode_append, ← encode_append]
  exact exists_clean_of_scrub_eq hscrub

theorem clean_of_disguise {text plain : Bytes} (h : Disguise text plain) :
    Clean.clean text = Clean.clean plain := by
  cases h with
  | insert ha hb hxs =>
    obtain ⟨out, htext, hplain⟩ := exists_clean_of_insert ha hb hxs
    rw [htext, hplain]
  | replace ha hb hc =>
    obtain ⟨out, htext, hplain⟩ := exists_clean_of_replace ha hb hc
    rw [htext, hplain]

/-- **Texts that look alike have the same clean form.** -/
theorem clean_of_looksAlike {s t : Bytes} (h : LooksAlike s t) :
    Clean.clean s = Clean.clean t := by
  induction h with
  | rel s t h => exact clean_of_disguise h
  | refl s => rfl
  | symm s t _ ih => exact ih.symm
  | trans s t u _ _ ih₁ ih₂ => exact ih₁.trans ih₂

end Scalars

/-! ### Two records of a history -/

namespace Checker

open Scalars (encode isInvisible IsControlByte Disguise LooksAlike)

variable {settings : Settings} {calls : List Call} {j k : Nat} {first second : Record}
  {earlier later : Report}

/-- Among all lines that a new checker is asked for, this one holds this record, and it is accepted
with this report. -/
structure Accepts (settings : Settings) (calls : List Call) (k : Nat) (record : Record)
    (report : Report) : Prop where
  line : ∃ line number, (calls.flatMap Call.lines)[k]? = some (line, number) ∧
    Record.parse line = .ok record
  get : ((new settings).performAll calls).1[k]? = some report
  ok : report.hasStatus "ok" = true

/-- An accepted report is on the venue of its record. -/
theorem Accepts.exists_venue (h : Accepts settings calls k first earlier) :
    ∃ v, earlier.judgement = .accepted v ∧ Clean.clean first.provider = some v.provider ∧
      Clean.clean first.id = some v.id := by
  obtain ⟨v, hv⟩ := earlier.hasStatus_ok_iff.1 h.ok
  obtain ⟨line, number, hline, hparse⟩ := h.line
  have hreport := h.get
  rw [performAll_eq] at hreport
  -- the judgement is that of the line alone
  have hjudged :=
    congrArg (·[k]?) (map_judgement_checkAll (new settings) (calls.flatMap Call.lines))
  simp only [List.getElem?_map, hreport, hline, Option.map_some, Option.some.injEq] at hjudged
  rw [hv] at hjudged
  obtain ⟨record, hrecord, hvalid, -⟩ := Judgement.ofLine_eq_accepted.1 hjudged.symm
  obtain rfl : first = record := Except.ok.inj (hparse.symm.trans hrecord)
  obtain ⟨-, -, -, -, hprovider, hid, -⟩ := Venue.validate_eq_ok.1 hvalid
  exact ⟨v, hv, hprovider, hid⟩

/-- Records with the same clean name are at one place, and the later one says so. -/
theorem Accepts.namesLine (hearlier : Accepts settings calls j first earlier)
    (hlater : Accepts settings calls k second later) (hjk : j < k)
    (hprovider : Clean.clean first.provider = Clean.clean second.provider)
    (hid : Clean.clean first.id = Clean.clean second.id) (hne : Clean.clean second.id ≠ some []) :
    later.namesLine = true := by
  obtain ⟨v, hv, hvprovider, hvid⟩ := hearlier.exists_venue
  obtain ⟨w, hw, hwprovider, hwid⟩ := hlater.exists_venue
  have hsame : v.isSamePlace w = true := by
    rw [Venue.isSamePlace_iff]
    rw [hvprovider, hwprovider] at hprovider
    rw [hvid, hwid] at hid
    exact ⟨Option.some.inj hprovider, Option.some.inj hid⟩
  have hnamed : w.id ≠ [] := by
    intro hempty
    rw [hwid, hempty] at hne
    exact hne rfl
  have hj := hearlier.get
  have hk := hlater.get
  rw [performAll_eq] at hj hk
  rw [later.namesLine_of_accepted hw]
  exact isSome_samePlaceAs hk hw hnamed hjk hj ⟨v, hv, hsame⟩

/-- **Invisible characters cannot tell two names apart.**  Invisible characters that are put into a
text, and a control byte in place of a space, make no difference to its clean form, wherever they
stand and however long the text is.  So of two accepted records with names that look alike, and with
an identifier that is not empty once it is clean, the later one names a line, whatever else the
checker was asked to do. -/
theorem disguises_recognised (settings : Settings) (calls : List Call) :
    (∀ a b, Utf8.isValid a = true → Utf8.isValid b = true →
      (∀ xs : List Char, (∀ x ∈ xs, isInvisible x = true) →
        ∃ out, Clean.clean (a ++ encode xs ++ b) = some out ∧ Clean.clean (a ++ b) = some out) ∧
      ∀ c, IsControlByte c →
        ∃ out, Clean.clean (a ++ [c] ++ b) = some out ∧
          Clean.clean (a ++ [Ascii.space] ++ b) = some out) ∧
    ∀ j k first second earlier later, j < k →
      Accepts settings calls j first earlier → Accepts settings calls k second later →
      LooksAlike first.provider second.provider → LooksAlike first.id second.id →
      Clean.clean second.id ≠ some [] → later.namesLine = true := by
  constructor
  · intro a b ha hb
    exact ⟨fun xs hxs => Scalars.exists_clean_of_insert ha hb hxs,
      fun c hc => Scalars.exists_clean_of_replace ha hb hc⟩
  · intro j k first second earlier later hjk hearlier hlater hprovider hid hne
    exact hearlier.namesLine hlater hjk (Scalars.clean_of_looksAlike hprovider)
      (Scalars.clean_of_looksAlike hid) hne

/-- An identifier with a mark put in and a bell for its space, two lines and one run after the plain
one. -/
theorem disguises_recognised_mark_and_bell :
    let plain := Bytes.ofString
      "\x7b\"latitude\":1,\"longitude\":2,\"provider\":\"p\",\"id\":\"a b\"\x7d"
    let disguised := Bytes.ofString
      "\x7b\"latitude\":1,\"longitude\":2,\"provider\":\"p\\r\",\"id\":\"a\\u202e\\u0007b\"\x7d"
    let calls := [Call.check 4 plain, .run (Bytes.ofString "[1\n" ++ disguised)]
    let mark := encode ['\u202E']
    (∃ out, Clean.clean (Bytes.ofString "é" ++ mark ++ Bytes.ofString "b") = some out ∧
      Clean.clean (Bytes.ofString "é" ++ Bytes.ofString "b") = some out) ∧
    ∃ first second earlier later,
      Accepts Settings.default calls 0 first earlier ∧
      Accepts Settings.default calls 2 second later ∧
      LooksAlike first.provider second.provider ∧ LooksAlike first.id second.id ∧
      Clean.clean second.id = some (Bytes.ofString "a b") ∧ later.namesLine = true := by
  intro plain disguised calls mark
  let first : Record :=
    ⟨⟨0x3FF0000000000000⟩, ⟨0x4000000000000000⟩, Binary64.zero, 0, [], [], Bytes.ofString "p",
      Bytes.ofString "a b", []⟩
  let second : Record :=
    { first with provider := Bytes.ofString "p\r", id := Bytes.ofString "a\u202E\x07b" }
  have hfirst : Record.parse plain = .ok first := by decide +kernel
  have hsecond : Record.parse disguised = .ok second := by decide +kernel
  have hlines : calls.flatMap Call.lines =
      [(plain, 4), (Bytes.ofString "[1", 1), (disguised, 2)] := by decide +kernel
  have hstatus : ((new Settings.default).performAll calls).1.map (·.hasStatus "ok") =
      [true, false, true] := by decide +kernel
  obtain ⟨earlier, hearlier, hok⟩ := Option.map_eq_some_iff.1 <|
    (List.getElem?_map ..).symm.trans (congrArg (·[0]?) hstatus)
  obtain ⟨later, hlater, hok'⟩ := Option.map_eq_some_iff.1 <|
    (List.getElem?_map ..).symm.trans (congrArg (·[2]?) hstatus)
  have hacceptsFirst : Accepts Settings.default calls 0 first earlier :=
    ⟨⟨plain, 4, by rw [hlines]; rfl, hfirst⟩, hearlier, hok⟩
  have hacceptsSecond : Accepts Settings.default calls 2 second later :=
    ⟨⟨disguised, 2, by rw [hlines]; rfl, hsecond⟩, hlater, hok'⟩
  have hprovider : Disguise second.provider first.provider :=
    @Disguise.insert (Bytes.ofString "p") [] ['\r'] (by decide) (by decide)
      (List.forall_mem_singleton.2 (by decide))
  have hmark : Disguise second.id (Bytes.ofString "a\x07b") :=
    @Disguise.insert (Bytes.ofString "a") (Bytes.ofString "\x07b") ['\u202E'] (by decide)
      (by decide) (List.forall_mem_singleton.2 (by decide))
  have hbell : Disguise (Bytes.ofString "a\x07b") first.id :=
    @Disguise.replace (Bytes.ofString "a") (Bytes.ofString "b") 7 (by decide) (by decide)
      (.inl (by decide))
  have hproviders : LooksAlike first.provider second.provider := .symm _ _ (.rel _ _ hprovider)
  have hids : LooksAlike first.id second.id :=
    .symm _ _ (.trans _ _ _ (.rel _ _ hmark) (.rel _ _ hbell))
  have hclean : Clean.clean second.id = some (Bytes.ofString "a b") := by decide +kernel
  obtain ⟨htexts, hrecords⟩ := disguises_recognised Settings.default calls
  have hinserted := (htexts (Bytes.ofString "é") (Bytes.ofString "b") (by decide) (by decide)).1
    ['\u202E'] (List.forall_mem_singleton.2 (by decide))
  refine ⟨hinserted, first, second, earlier, later, hacceptsFirst, hacceptsSecond, hproviders, hids,
    hclean, ?_⟩
  exact hrecords 0 2 first second earlier later (by decide) hacceptsFirst hacceptsSecond hproviders
    hids (by rw [hclean]; decide)

end Checker

end PlaceFeed
