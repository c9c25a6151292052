import PlaceFeed.Proofs.Classification

/-!
# Two tests of UTF-8

A text passes two gates: the decoder of a line, which reads strings with their escapes, and the
cleaner, which refuses ill-formed UTF-8.  The first lets nothing through that the second refuses.

What stands in the strings of a line is said here without the decoder, and for lines that are no
JSON as well: `Json.literals` goes by the quotes and backslashes alone, and `Json.escapedCodes`
lists the codes that a literal writes in hexadecimal digits, among which each surrogate must be
one half of a pair (`Json.ArePaired`).

* `Json.Lexes.exists_body_of_mem_literals` : in a JSON text, the literals are the strings of the
  grammar;
* `Judgement.eq_of_ofLine_eq_rejected` : a line is rejected for its point only;
* `Checker.gates_agree` : **no text is refused**, after any history.
-/

namespace PlaceFeed

namespace Json

/-! ### The literals of a text -/

/-- Where a byte of a text stands, by the quotes and backslashes before it.  The bytes of a
literal come last one first. -/
inductive Place
  | outside
  | inside (literal : Bytes)
  /-- After a backslash in a literal. -/
  | escaped (literal : Bytes)

/-- The literals in the rest of a text.  The last one may lack its end. -/
def literalsFrom : Place → Bytes → List Bytes
  | .outside, [] => []
  | .inside w, [] => [w.reverse]
  | .escaped w, [] => [w.reverse]
  | .outside, b :: text => literalsFrom (if b = Ascii.quote then .inside [] else .outside) text
  | .inside w, b :: text =>
    if b = Ascii.quote then w.reverse :: literalsFrom .outside text
    else literalsFrom (if b = Ascii.backslash then .escaped (b :: w) else .inside (b :: w)) text
  | .escaped w, b :: text => literalsFrom (.inside (b :: w)) text

/-- What stands between the quotes of a text. -/
def literals (text : Bytes) : List Bytes := literalsFrom .outside text

/-- The codes that a literal writes in hexadecimal digits, in their order, and zero for every
other byte and escape of it. -/
def escapedCodes : Bytes → List Nat
  | 0x5C :: 0x75 :: a :: b :: c :: d :: w => (hexCode? [a, b, c, d]).getD 0 :: escapedCodes w
  | 0x5C :: _ :: w => 0 :: escapedCodes w
  | _ :: w => 0 :: escapedCodes w
  | [] => []

/-- Each first half of a surrogate pair stands right before a second half, and each second half
right after a first half. -/
def ArePaired (codes : List Nat) : Prop :=
  (0 :: (codes ++ [0])).IsChain fun m n => IsHigh m ↔ IsLow n

instance (codes : List Nat) : Decidable (ArePaired codes) :=
  inferInstanceAs (Decidable (List.IsChain _ _))

/-! ### The literals of a JSON text -/

section Literals

variable {b : UInt8} {p q w text : Bytes}

theorem literalsFrom_outside_append (h : Ascii.quote ∉ p) :
    literalsFrom .outside (p ++ text) = literalsFrom .outside text := by
  induction p with
  | nil => rfl
  | cons b p ih =>
    rw [List.mem_cons, not_or] at h
    rw [List.cons_append, literalsFrom, if_neg (Ne.symm h.1), ih h.2]

theorem literalsFrom_inside_append (hquote : Ascii.quote ∉ p) (hbackslash : Ascii.backslash ∉ p) :
    literalsFrom (.inside w) (p ++ text) = literalsFrom (.inside (p.reverse ++ w)) text := by
  induction p generalizing w with
  | nil => rfl
  | cons b p ih =>
    rw [List.mem_cons, not_or] at hquote hbackslash
    rw [List.cons_append, literalsFrom, if_neg (Ne.symm hquote.1), if_neg (Ne.symm hbackslash.1),
      ih hquote.2 hbackslash.2, List.reverse_cons, List.append_assoc, List.singleton_append]

/-- A backslash and the byte after it. -/
theorem literalsFrom_escape :
    literalsFrom (.inside w) (Ascii.backslash :: b :: text) =
      literalsFrom (.inside (b :: Ascii.backslash :: w)) text := rfl

theorem not_mem_of_hexCode? {digits : Bytes} {n : Nat} (h : hexCode? digits = some n) (b : UInt8)
    (hb : Ascii.hexDigit? b = none) : b ∉ digits := by
  obtain ⟨a, b', c, d, x, y, z, u, rfl, h₁, h₂, h₃, h₄, -⟩ := hexCode?_eq_some.1 h
  simp only [List.mem_cons, List.not_mem_nil, or_false]
  rintro (rfl | rfl | rfl | rfl) <;> simp_all

theorem literalsFrom_escapedCode {digits : Bytes} {n : Nat} (h : hexCode? digits = some n) :
    literalsFrom (.inside w) (escapedCode digits ++ text) =
      literalsFrom (.inside ((escapedCode digits).reverse ++ w)) text := by
  rw [escapedCode, List.cons_append, List.cons_append, literalsFrom_escape,
    literalsFrom_inside_append (not_mem_of_hexCode? h _ rfl) (not_mem_of_hexCode? h _ rfl)]
  simp

theorem literalsFrom_piece (h : Piece p q) :
    literalsFrom (.inside w) (p ++ text) = literalsFrom (.inside (p.reverse ++ w)) text := by
  cases h with
  | byte hspace hquote hbackslash =>
    exact literalsFrom_inside_append (by simpa using hquote.symm) (by simpa using hbackslash.symm)
  | letter => exact literalsFrom_escape
  | code h => exact literalsFrom_escapedCode h
  | pair h₁ h₂ =>
    rw [List.append_assoc, literalsFrom_escapedCode h₁, literalsFrom_escapedCode h₂,
      List.reverse_append, List.append_assoc]

theorem literalsFrom_body (h : Body p q) :
    literalsFrom (.inside w) (p ++ text) = literalsFrom (.inside (p.reverse ++ w)) text := by
  induction h generalizing w with
  | nil => rfl
  | cons hp _ ih =>
    rw [List.append_assoc, literalsFrom_piece hp, ih, List.reverse_append, List.append_assoc]

/-- A string of the grammar is a literal. -/
theorem literalsFrom_string (h : Body p q) :
    literalsFrom .outside (Ascii.quote :: (p ++ [Ascii.quote]) ++ text) =
      p :: literalsFrom .outside text := by
  rw [List.cons_append, literalsFrom, if_pos rfl, List.append_assoc, literalsFrom_body h,
    List.append_nil, List.singleton_append, literalsFrom, if_pos rfl, List.reverse_reverse]

theorem Literal.quote_not_mem (l : Literal) : Ascii.quote ∉ l.bytes :=
  fun h => absurd (l.bytes_subset h) (by decide)

/-- The literals of a JSON text are strings of the grammar. -/
theorem Lexes.exists_body_of_mem_literals {ts : List Token} (h : Lexes text ts) :
    ∀ w ∈ literals text, (∃ cs, Scalars.encode cs = w) ∧ ∃ meant, Body w meant := by
  have hspaces : ∀ {spaces : Bytes}, IsSpaces spaces → Ascii.quote ∉ spaces := by
    intro spaces hspaces hmem
    have := hspaces _ hmem
    revert this
    decide
  unfold literals
  induction h with
  | @spaces text h =>
    rw [← List.append_nil text, literalsFrom_outside_append (hspaces h)]
    simp [literalsFrom]
  | @cons spaces p text t ts h hp _ ih =>
    rw [literalsFrom_outside_append (hspaces h)]
    cases hp with
    | string hbody hvalid =>
      rw [literalsFrom_string hbody]
      exact List.forall_mem_cons.2 ⟨⟨hvalid, _, hbody⟩, ih⟩
    | numeral => rwa [literalsFrom_outside_append (Literal.quote_not_mem _)]
    | _ => rwa [literalsFrom_outside_append (by decide)]

theorem literals_dropByteOrderMark (text : Bytes) :
    literals (dropByteOrderMark text) = literals text := by
  unfold dropByteOrderMark
  split <;> rfl

/-! ### The codes in a string -/

theorem escapedCodes_escapedCode {digits : Bytes} {n : Nat} (h : hexCode? digits = some n) :
    escapedCodes (escapedCode digits ++ text) = n :: escapedCodes text := by
  obtain ⟨a, b, c, d, _, _, _, _, rfl, -⟩ := hexCode?_eq_some.1 h
  change (hexCode? [a, b, c, d]).getD 0 :: escapedCodes text = _
  rw [h, Option.getD_some]

theorem escapedCodes_byte (hb : b ≠ Ascii.backslash) :
    escapedCodes (b :: text) = 0 :: escapedCodes text := by
  rw [escapedCodes]
  · rintro _ _ _ _ _ rfl
    exact absurd rfl hb
  · rintro _ _ rfl
    exact absurd rfl hb

theorem escapedCodes_letter (hb : b ≠ 0x75) :
    escapedCodes (Ascii.backslash :: b :: text) = 0 :: escapedCodes text := by
  rw [escapedCodes]
  rintro _ _ _ _ _ rfl
  exact absurd rfl hb

/-- A piece has one code that is no surrogate, or a pair. -/
theorem Piece.escapedCodes_append (h : Piece p q) :
    (∃ n, ¬IsHigh n ∧ ¬IsLow n ∧ escapedCodes (p ++ text) = n :: escapedCodes text) ∨
      ∃ high low, IsHigh high ∧ IsLow low ∧
        escapedCodes (p ++ text) = high :: low :: escapedCodes text := by
  cases h with
  | byte hspace hquote hbackslash =>
    exact .inl ⟨0, by decide, by decide, escapedCodes_byte hbackslash⟩
  | letter h => exact .inl ⟨0, by decide, by decide, escapedCodes_letter (ne_of_mem_escapes h)⟩
  | code h hhigh hlow => exact .inl ⟨_, hhigh, hlow, escapedCodes_escapedCode h⟩
  | pair h₁ h₂ hhigh hlow =>
    refine .inr ⟨_, _, hhigh, hlow, ?_⟩
    rw [List.append_assoc, escapedCodes_escapedCode h₁, escapedCodes_escapedCode h₂]

theorem not_isLow_of_isHigh {n : Nat} (h : IsHigh n) : ¬IsLow n := by
  unfold IsHigh at h
  unfold IsLow
  omega

theorem Body.arePaired (h : Body p q) : ArePaired (escapedCodes p) := by
  -- by induction on the pieces: what stands before one is no first half
  have hchain : ∀ m, ¬IsHigh m →
      (m :: (escapedCodes p ++ [0])).IsChain fun m n => IsHigh m ↔ IsLow n := by
    induction h with
    | nil =>
      intro m hm
      exact .cons_cons (iff_of_false hm (by decide)) (.singleton 0)
    | cons hp _ ih =>
      intro m hm
      obtain ⟨n, hhigh, hlow, hcodes⟩ | ⟨high, low, hhigh, hlow, hcodes⟩ := hp.escapedCodes_append
      · rw [hcodes]
        exact .cons_cons (iff_of_false hm hlow) (ih n hhigh)
      · have hlow' : ¬IsHigh low := fun h => not_isLow_of_isHigh h hlow
        rw [hcodes]
        exact .cons_cons (iff_of_false hm (not_isLow_of_isHigh hhigh))
          (.cons_cons (iff_of_true hhigh hlow) (ih low hlow'))
  exact hchain 0 (by decide)

/-- In the literals of a text that has a value, nothing is wrong. -/
theorem IsText.of_mem_literals {v : Json} (h : IsText text v) :
    ∀ w ∈ literals text, (∃ cs, Scalars.encode cs = w) ∧ ArePaired (escapedCodes w) := by
  intro w hw
  rw [← literals_dropByteOrderMark] at hw
  obtain ⟨hvalid, meant, hbody⟩ := Lexes.exists_body_of_mem_literals h w hw
  exact ⟨hvalid, hbody.arePaired⟩

example : literals (Bytes.ofString "[\"a\\\"b\", 1, \"") = [Bytes.ofString "a\\\"b", []] := by
  decide

example : escapedCodes (Bytes.ofString "a\\ud83d\\ude00\\n") = [0, 0xD83D, 0xDE00, 0] := by
  decide

end Literals

end Json

/-! ### Judgements -/

namespace Judgement

variable {requireMapPoint : Bool} {line : Bytes}

/-- A record is rejected for its point only. -/
theorem eq_of_ofLine_eq_rejected {e : Rejection} (h : ofLine requireMapPoint line = .rejected e) :
    e = .invalid .emptyLocation ∨ e = .notMapPoint := by
  by_cases hmalformed : Record.IsMalformed line
  · obtain ⟨f, hf⟩ := ofLine_of_isMalformed requireMapPoint hmalformed
    rw [hf] at h
    cases h
  by_cases hglobe : Record.IsOnGlobe line
  · by_cases hmap : requireMapPoint = true ∧ Record.IsBeyondMap line
    · obtain ⟨rfl, hbeyond⟩ := hmap
      rw [ofLine_of_isBeyondMap hmalformed hglobe hbeyond] at h
      exact .inr (rejected.inj h).symm
    · obtain ⟨v, hv⟩ := ofLine_of_isOnGlobe hmalformed hglobe hmap
      rw [hv] at h
      cases h
  · rw [ofLine_of_not_isOnGlobe hmalformed hglobe] at h
    exact .inl (rejected.inj h).symm

end Judgement

/-! ### Checkers -/

namespace Checker

/-- The names of the errors that a text can be refused with. -/
def textErrors : List String :=
  ["INVALID_TITLE", "INVALID_ADDRESS", "INVALID_PROVIDER", "INVALID_ID", "INVALID_TYPE"]

theorem isRejection_textErrors {r : Report} {requireMapPoint : Bool} {line : Bytes}
    (h : r.judgement = Judgement.ofLine requireMapPoint line) :
    ∀ error ∈ textErrors, r.isRejection error = false := by
  intro error herror
  cases hj : r.judgement with
  | rejected e =>
    rw [Report.isRejection_of_rejected hj]
    rw [hj] at h
    obtain rfl | rfl := Judgement.eq_of_ofLine_eq_rejected h.symm
    · revert error
      decide
    · revert error
      decide
  | malformed f => exact Report.isRejection_of_not_rejected (by simp [hj]) error
  | accepted v => exact Report.isRejection_of_not_rejected (by simp [hj]) error

/-- A line is malformed when something is wrong in one of its literals. -/
theorem isMalformed_of_literal {line w : Bytes} (hw : w ∈ Json.literals line)
    (h : (∀ cs, Scalars.encode cs ≠ w) ∨ ¬Json.ArePaired (Json.escapedCodes w)) :
    Record.IsMalformed line := by
  refine .notText fun v hv => ?_
  obtain ⟨⟨cs, hcs⟩, hpaired⟩ := hv.of_mem_literals w hw
  rcases h with h | h
  · exact h cs hcs
  · exact h hpaired

/-- **The two gates agree.**  No record is rejected for one of its texts.  A line with ill-formed
UTF-8 or a lone surrogate in a literal, wherever that stands, is malformed instead.  And all the
strings of a text that is read, its keys and the texts of its record among them, are well-formed. -/
theorem gates_agree (settings : Settings) (history : List Call) (number : Nat) (line : Bytes) :
    let record := (((new settings).performAll history).2.check number line).1
    (∀ error ∈ textErrors, record.isRejection error = false) ∧
    (∀ w ∈ Json.literals line,
      (∀ cs, Scalars.encode cs ≠ w) ∨ ¬Json.ArePaired (Json.escapedCodes w) →
        record.hasStatus "malformed" = true) ∧
    (∀ v, Json.parse? line = some v →
      ∀ s, Json.Token.value (.str s) ∈ v.tokens → Utf8.isValid s = true) ∧
    ∀ r, Record.parse line = .ok r → ∀ text ∈ r.texts, Utf8.isValid text = true := by
  intro record
  refine ⟨isRejection_textErrors rfl, ?_, ?_, ?_⟩
  · intro w hw h
    obtain ⟨f, hf⟩ := Judgement.ofLine_of_isMalformed
      ((new settings).performAll history).2.settings.requireMapPoint (isMalformed_of_literal hw h)
    have hj : record.judgement = .malformed f := hf
    rw [Report.hasStatus_eq, Report.status, hj]
    rfl
  · intro v hv s hs
    exact (Json.parse?_eq_some_iff.1 hv).isValid_str hs
  · intro r hr
    exact Record.isValid_of_mem_texts hr

/-- The first half of a surrogate pair alone, and the whole pair. -/
theorem gates_agree_surrogates :
    let lone := Bytes.ofString "\x7b\"title\":\"\\ud83d\"\x7d"
    let pair := Bytes.ofString "\x7b\"title\":\"\\ud83d\\ude00\"\x7d"
    let title := [0xF0, 0x9F, 0x98, 0x80]
    let v := Json.obj [(Bytes.ofString "title", .str title)]
    let r : Record := ⟨.nan, .nan, .zero, 0, title, [], [], [], []⟩
    let record := (((new Settings.default).performAll [.run pair]).2.check 2 lone).1
    (Bytes.ofString "\\ud83d" ∈ Json.literals lone ∧
      ¬Json.ArePaired (Json.escapedCodes (Bytes.ofString "\\ud83d")) ∧
      record.hasStatus "malformed" = true) ∧
    (Json.parse? pair = some v ∧ .value (.str title) ∈ v.tokens ∧ Utf8.isValid title = true) ∧
    Record.parse pair = .ok r ∧ ∀ text ∈ r.texts, Utf8.isValid text = true := by
  intro lone pair title v r record
  have hmem : Bytes.ofString "\\ud83d" ∈ Json.literals lone := by decide
  have hlone : ¬Json.ArePaired (Json.escapedCodes (Bytes.ofString "\\ud83d")) := by decide
  have hv : Json.parse? pair = some v := rfl
  have htitle : .value (.str title) ∈ v.tokens := by
    simp [v, Json.tokens, Json.memberTokens, Json.separated]
  have hr : Record.parse pair = .ok r := rfl
  obtain ⟨-, hmalformed, -, -⟩ := gates_agree Settings.default [.run pair] 2 lone
  obtain ⟨-, -, hstrings, htexts⟩ := gates_agree Settings.default [] 1 pair
  exact ⟨⟨hmem, hlone, hmalformed _ hmem (.inr hlone)⟩, ⟨hv, htitle, hstrings v hv title htitle⟩,
    hr, htexts r hr⟩

end Checker

end PlaceFeed
