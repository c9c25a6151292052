import PlaceFeed.Proofs.IllFormed
import PlaceFeed.Proofs.Numerals

/-!
# Reading strings

`Scanner.rest?` is what the scanner makes of the rest of a text.  Inside a string, a piece of the
text adds the bytes that it stands for (`Scanner.rest?_append_of_piece`), and a rest with tokens
starts with the end of the string or with a piece (`Scanner.exists_piece`).

* `Scanner.rest?_string` : a written string is read to the bytes that it stands for;
* `Scanner.exists_body` : **what is read as a string is a written string**.

The scanner tests the bytes that a string stands for, and the grammar asks for well-formed UTF-8
in the text.  `Body.isValid_iff` says that this is the same: an escape is made of whole characters
on both sides, so it starts and ends at the boundary of a character, whatever is around it.
-/

namespace PlaceFeed

/-- A value that is found in a table is in it. -/
theorem mem_of_lookup {α β : Type} [BEq α] [LawfulBEq α] {l : List (α × β)} {a : α} {b : β}
    (h : l.lookup a = some b) : (a, b) ∈ l := by
  obtain ⟨l₁, l₂, rfl, -⟩ := List.lookup_eq_some_iff.1 h
  exact List.mem_append_right l₁ List.mem_cons_self

/-! ### Joining well-formed texts -/

namespace Utf8

/-- A well-formed text that is not empty parts a text into two that are read on their own. -/
theorem isValid_append_append {p : Bytes} (hp : isValid p = true) (hne : p ≠ [])
    (before after : Bytes) :
    isValid (before ++ (p ++ after)) = (isValid before && isValid after) := by
  obtain ⟨a, s, rfl⟩ := List.exists_cons_of_ne_nil hne
  rw [Bool.eq_iff_iff, Bool.and_eq_true]
  constructor
  · intro h
    rw [List.cons_append] at h
    obtain ⟨hbefore, hrest⟩ := isValid_of_append h (isContinuation_of_isValid hp)
    rw [← List.cons_append, isValid_append_of_isValid hp] at hrest
    exact ⟨hbefore, hrest⟩
  · rintro ⟨hbefore, hafter⟩
    rw [isValid_append_of_isValid hbefore, isValid_append_of_isValid hp, hafter]

theorem isValid_encodeChar (c : Char) : isValid (String.utf8EncodeChar c) = true :=
  isValid_of_form (form_encodeChar c)

theorem isValid_of_ascii {p : Bytes} (h : ∀ b ∈ p, b.toNat < 0x80) : isValid p = true := by
  induction p with
  | nil => rfl
  | cons b p ih =>
    obtain ⟨hb, hp⟩ := List.forall_mem_cons.1 h
    rw [← List.singleton_append, isValid_append_of_form (.one hb), ih hp]

end Utf8

namespace Json

/-! ### Escapes -/

theorem hexDigit?_lt {b : UInt8} {n : Nat} (h : Ascii.hexDigit? b = some n) : b.toNat < 0x80 := by
  unfold Ascii.hexDigit? at h
  simp only [UInt8.le_iff_toNat_le, UInt8.reduceToNat] at h
  split_ifs at h <;> omega

theorem hexCode?_eq_some {digits : Bytes} {n : Nat} :
    hexCode? digits = some n ↔ ∃ a b c d x y z w, digits = [a, b, c, d] ∧
      Ascii.hexDigit? a = some x ∧ Ascii.hexDigit? b = some y ∧ Ascii.hexDigit? c = some z ∧
        Ascii.hexDigit? d = some w ∧ n = ((x * 16 + y) * 16 + z) * 16 + w := by
  unfold hexCode?
  split
  · next a b c d =>
    simp only [bind, pure, Option.bind_eq_some_iff, Option.some.injEq]
    constructor
    · rintro ⟨x, hx, y, hy, z, hz, w, hw, rfl⟩
      exact ⟨a, b, c, d, x, y, z, w, rfl, hx, hy, hz, hw, rfl⟩
    · rintro ⟨_, _, _, _, x, y, z, w, heq, hx, hy, hz, hw, rfl⟩
      cases heq
      exact ⟨x, hx, y, hy, z, hz, w, hw, rfl⟩
  · next hne =>
    simp only [reduceCtorEq, false_iff]
    rintro ⟨a, b, c, d, _, _, _, _, rfl, -⟩
    exact hne a b c d rfl

theorem ascii_backslash : Ascii.backslash.toNat < 0x80 := by decide

theorem isValid_escapedCode {digits : Bytes} {n : Nat} (h : hexCode? digits = some n) :
    Utf8.isValid (escapedCode digits) = true := by
  obtain ⟨a, b, c, d, _, _, _, _, rfl, ha, hb, hc, hd, -⟩ := hexCode?_eq_some.1 h
  apply Utf8.isValid_of_ascii
  simp [escapedCode, ascii_backslash, hexDigit?_lt ha, hexDigit?_lt hb, hexDigit?_lt hc,
    hexDigit?_lt hd]

theorem ascii_of_mem_escapes {letter b : UInt8} (h : (letter, b) ∈ Scanner.escapes) :
    letter.toNat < 0x80 ∧ b.toNat < 0x80 := by
  have hall : Scanner.escapes.all fun e => e.1.toNat < 0x80 ∧ e.2.toNat < 0x80 := by decide
  simpa using List.all_eq_true.1 hall _ h

theorem Piece.ne_nil {p q : Bytes} (h : Piece p q) : p ≠ [] := by
  cases h <;> simp [escapedCode]

theorem ne_of_mem_escapes {letter b : UInt8} (h : (letter, b) ∈ Scanner.escapes) :
    letter ≠ 0x75 := by
  have hall : Scanner.escapes.all fun e => e.1 ≠ 0x75 := by decide
  simpa using List.all_eq_true.1 hall _ h

/-- A piece is a byte of the string, or whole characters on both sides. -/
theorem Piece.cases_byte {p q : Bytes} (h : Piece p q) :
    (∃ b, p = [b] ∧ q = [b]) ∨
      ((Utf8.isValid p = true ∧ p ≠ []) ∧ Utf8.isValid q = true ∧ q ≠ []) := by
  cases h with
  | byte => exact .inl ⟨_, rfl, rfl⟩
  | letter h =>
    obtain ⟨hletter, hb⟩ := ascii_of_mem_escapes h
    refine .inr ⟨⟨Utf8.isValid_of_ascii ?_, by simp⟩, Utf8.isValid_of_ascii ?_, by simp⟩
    · simpa [ascii_backslash] using hletter
    · simpa using hb
  | code h =>
    exact .inr ⟨⟨isValid_escapedCode h, by simp [escapedCode]⟩, Utf8.isValid_encodeChar _,
      (Utf8.form_encodeChar _).ne_nil⟩
  | pair h₁ h₂ =>
    refine .inr ⟨⟨?_, by simp [escapedCode]⟩, Utf8.isValid_encodeChar _,
      (Utf8.form_encodeChar _).ne_nil⟩
    rw [Utf8.isValid_append_of_isValid (isValid_escapedCode h₁), isValid_escapedCode h₂]

theorem Body.isValid_append {written meant : Bytes} (h : Body written meant) (before : Bytes) :
    Utf8.isValid (before ++ written) = Utf8.isValid (before ++ meant) := by
  induction h generalizing before with
  | nil => rfl
  | @cons p q written meant hp _ ih =>
    obtain ⟨b, rfl, rfl⟩ | ⟨hp, hq⟩ := hp.cases_byte
    · rw [← List.append_assoc, ← List.append_assoc, ih]
    · have htail := ih []
      simp only [List.nil_append] at htail
      rw [Utf8.isValid_append_append hp.1 hp.2, Utf8.isValid_append_append hq.1 hq.2, htail]

/-- The text of a string is well-formed exactly when the string is. -/
theorem Body.isValid_iff {written meant : Bytes} (h : Body written meant) :
    Utf8.isValid written = Utf8.isValid meant :=
  h.isValid_append []

theorem Body.exists_encode_iff {written meant : Bytes} (h : Body written meant) :
    (∃ cs, Scalars.encode cs = written) ↔ ∃ cs, Scalars.encode cs = meant := by
  rw [← Scalars.isValid_iff, h.isValid_iff, Scalars.isValid_iff]

namespace Scanner

/-! ### The rest of a text -/

/-- The tokens of a text of which this is the rest. -/
def rest? (s : Scanner) (text : Bytes) : Option (List Token) :=
  (text.foldlM step? s).bind finish?

variable {ts out : List Token} {body text : Bytes} {high : Option Nat}

theorem rest?_cons (s : Scanner) (b : UInt8) (text : Bytes) :
    s.rest? (b :: text) = (s.step? b).bind (·.rest? text) := by
  rw [rest?, List.foldlM_cons]
  exact Option.bind_assoc ..

theorem rest?_cons_of_eq {s t : Scanner} {b : UInt8} (h : s.step? b = some t) (text : Bytes) :
    s.rest? (b :: text) = t.rest? text := by
  rw [rest?_cons, h, Option.bind_some]

theorem rest?_cons_eq_some {s : Scanner} {b : UInt8} :
    s.rest? (b :: text) = some out ↔ ∃ s', s.step? b = some s' ∧ s'.rest? text = some out := by
  rw [rest?_cons]
  exact Option.bind_eq_some_iff

/-! ### Reading what is written -/

theorem lookup_escapes {letter b : UInt8} :
    escapes.lookup letter = some b ↔ (letter, b) ∈ escapes := by
  refine ⟨mem_of_lookup, ?_⟩
  have hall : escapes.all fun e => escapes.lookup e.1 = some e.2 := by decide
  intro h
  simpa using List.all_eq_true.1 hall _ h

theorem afterCode?_none_eq_some {n : Nat} {p : Pending} :
    afterCode? body none n = some p ↔
      (IsHigh n ∧ p = .low body n) ∨ (¬IsHigh n ∧ ¬IsLow n ∧ p = .text (pushCode body n)) := by
  have hhigh : (0xD800 ≤ n ∧ n < 0xDC00) ↔ IsHigh n := by unfold IsHigh; omega
  have hlow : (0xDC00 ≤ n ∧ n < 0xE000) ↔ IsLow n := by unfold IsLow; omega
  simp only [afterCode?, Bool.and_eq_true, decide_eq_true_eq]
  by_cases h₁ : IsHigh n
  · rw [if_pos (hhigh.2 h₁)]
    simp [h₁, @eq_comm _ p]
  · rw [if_neg (hhigh.not.2 h₁)]
    by_cases h₂ : IsLow n
    · rw [if_pos (hlow.2 h₂)]
      simp [h₁, h₂]
    · rw [if_neg (hlow.not.2 h₂)]
      simp [h₁, h₂, @eq_comm _ p]

theorem afterCode?_some_eq_some {first n : Nat} {p : Pending} :
    afterCode? body (some first) n = some p ↔
      IsLow n ∧ p = .text (pushCode body (0x10000 + (first - 0xD800) * 0x400 + (n - 0xDC00))) := by
  have hlow : (0xDC00 ≤ n ∧ n < 0xE000) ↔ IsLow n := by unfold IsLow; omega
  simp only [afterCode?, Bool.and_eq_true, decide_eq_true_eq]
  by_cases h : IsLow n
  · rw [if_pos (hlow.2 h)]
    simp [h, @eq_comm _ p]
  · rw [if_neg (hlow.not.2 h)]
    simp [h]

theorem step?_unicode_of_lt {b : UInt8} {count code d : Nat} (hd : Ascii.hexDigit? b = some d)
    (hcount : count < 3) :
    step? ⟨ts, .unicode body high count code⟩ b =
      some ⟨ts, .unicode body high (count + 1) (code * 16 + d)⟩ := by
  simp only [step?, hd, Option.bind_some, if_pos hcount]

theorem step?_unicode_last {b : UInt8} {code d : Nat} (hd : Ascii.hexDigit? b = some d) :
    step? ⟨ts, .unicode body high 3 code⟩ b =
      (afterCode? body high (code * 16 + d)).map fun p => ⟨ts, p⟩ := by
  simp only [step?, hd, Option.bind_some, Nat.lt_irrefl, if_false]

/-- The four digits of an escaped code. -/
theorem rest?_unicode {digits : Bytes} {n : Nat} {p : Pending} (h : hexCode? digits = some n)
    (hp : afterCode? body high n = some p) (text : Bytes) :
    rest? ⟨ts, .unicode body high 0 0⟩ (digits ++ text) = rest? ⟨ts, p⟩ text := by
  obtain ⟨a, b, c, d, x, y, z, w, rfl, ha, hb, hc, hd, rfl⟩ := hexCode?_eq_some.1 h
  simp only [List.cons_append, List.nil_append]
  rw [rest?_cons_of_eq (step?_unicode_of_lt ha (by decide)),
    rest?_cons_of_eq (step?_unicode_of_lt hb (by decide)),
    rest?_cons_of_eq (step?_unicode_of_lt hc (by decide)),
    rest?_cons_of_eq (t := ⟨ts, p⟩)]
  rw [step?_unicode_last hd, Nat.zero_mul, Nat.zero_add, hp, Option.map_some]

theorem step?_backslash :
    step? ⟨ts, .text body⟩ Ascii.backslash = some ⟨ts, .escape body⟩ := rfl

/-- From the start of an escaped code to its end. -/
theorem rest?_escapedCode {digits : Bytes} {n : Nat} {p : Pending} (h : hexCode? digits = some n)
    (hp : afterCode? body none n = some p) (text : Bytes) :
    rest? ⟨ts, .text body⟩ (escapedCode digits ++ text) = rest? ⟨ts, p⟩ text := by
  rw [escapedCode, List.cons_append, List.cons_append, rest?_cons_of_eq step?_backslash,
    rest?_cons_of_eq (t := ⟨ts, .unicode body none 0 0⟩) rfl, rest?_unicode h hp]

theorem rest?_append_of_piece {p q : Bytes} (h : Piece p q) (text : Bytes) :
    rest? ⟨ts, .text body⟩ (p ++ text) = rest? ⟨ts, .text (q.reverse ++ body)⟩ text := by
  cases h with
  | @byte b hspace hquote hbackslash =>
    refine rest?_cons_of_eq ?_ text
    simp only [step?, text?, if_neg hquote, if_neg hbackslash, if_neg (UInt8.not_lt.2 hspace)]
    rfl
  | @letter letter b h =>
    have hu := ne_of_mem_escapes h
    rw [List.cons_append, rest?_cons_of_eq step?_backslash]
    refine rest?_cons_of_eq ?_ text
    simp only [step?, if_neg hu, lookup_escapes.2 h]
    rfl
  | code h hhigh hlow =>
    rw [rest?_escapedCode h (afterCode?_none_eq_some.2 (.inr ⟨hhigh, hlow, rfl⟩))]
    rfl
  | @pair digits₁ digits₂ high low h₁ h₂ hhigh hlow =>
    rw [List.append_assoc, rest?_escapedCode h₁ (afterCode?_none_eq_some.2 (.inl ⟨hhigh, rfl⟩)),
      escapedCode, List.cons_append, List.cons_append,
      rest?_cons_of_eq (t := ⟨ts, .lowEscape body high⟩) rfl,
      rest?_cons_of_eq (t := ⟨ts, .unicode body (some high) 0 0⟩) rfl,
      rest?_unicode h₂ (afterCode?_some_eq_some.2 ⟨hlow, rfl⟩)]
    rfl

theorem rest?_append_of_body {written meant : Bytes} (h : Body written meant) (text : Bytes) :
    rest? ⟨ts, .text body⟩ (written ++ text) =
      rest? ⟨ts, .text (meant.reverse ++ body)⟩ text := by
  induction h generalizing body with
  | nil => rfl
  | cons hp _ ih =>
    rw [List.append_assoc, rest?_append_of_piece hp, ih, List.reverse_append, List.append_assoc]

theorem rest?_string {written meant : Bytes} (h : Body written meant)
    (hvalid : Utf8.isValid written = true) (text : Bytes) :
    rest? ⟨ts, .idle⟩ (Ascii.quote :: (written ++ [Ascii.quote]) ++ text) =
      rest? ⟨.value (.str meant) :: ts, .idle⟩ text := by
  rw [List.cons_append, rest?_cons_of_eq (t := ⟨ts, .text []⟩) rfl, List.append_assoc,
    rest?_append_of_body h, List.append_nil]
  refine rest?_cons_of_eq ?_ text
  rw [h.isValid_iff] at hvalid
  simp only [step?, text?, if_true, List.reverse_reverse, hvalid, emit]

/-! ### What is read is written -/

theorem exists_digit {count code : Nat}
    (h : rest? ⟨ts, .unicode body high count code⟩ text = some out) :
    ∃ b d text', text = b :: text' ∧ Ascii.hexDigit? b = some d ∧
      (count < 3 →
        rest? ⟨ts, .unicode body high (count + 1) (code * 16 + d)⟩ text' = some out) ∧
      (count = 3 → ∃ p, afterCode? body high (code * 16 + d) = some p ∧
        rest? ⟨ts, p⟩ text' = some out) := by
  cases text with
  | nil => cases h
  | cons b text' =>
    obtain ⟨s', hs, h⟩ := rest?_cons_eq_some.1 h
    obtain ⟨d, hd, -⟩ := Option.bind_eq_some_iff.1 hs
    refine ⟨b, d, text', rfl, hd, ?_, ?_⟩
    · intro hcount
      rw [step?_unicode_of_lt hd hcount] at hs
      obtain rfl := Option.some.inj hs
      exact h
    · rintro rfl
      rw [step?_unicode_last hd] at hs
      obtain ⟨p, hp, rfl⟩ := Option.map_eq_some_iff.1 hs
      exact ⟨p, hp, h⟩

theorem exists_code (h : rest? ⟨ts, .unicode body high 0 0⟩ text = some out) :
    ∃ digits n p text', text = digits ++ text' ∧ hexCode? digits = some n ∧
      afterCode? body high n = some p ∧ rest? ⟨ts, p⟩ text' = some out := by
  obtain ⟨a, x, text, rfl, ha, h, -⟩ := exists_digit h
  obtain ⟨b, y, text, rfl, hb, h, -⟩ := exists_digit (h (by decide))
  obtain ⟨c, z, text, rfl, hc, h, -⟩ := exists_digit (h (by decide))
  obtain ⟨d, w, text, rfl, hd, -, h⟩ := exists_digit (h (by decide))
  obtain ⟨p, hp, h⟩ := h rfl
  rw [Nat.zero_mul, Nat.zero_add] at hp
  exact ⟨[a, b, c, d], _, p, text, rfl,
    hexCode?_eq_some.2 ⟨a, b, c, d, x, y, z, w, rfl, ha, hb, hc, hd, rfl⟩, hp, h⟩

/-- The second half of a surrogate pair. -/
theorem exists_low {first : Nat} (h : rest? ⟨ts, .low body first⟩ text = some out) :
    ∃ digits n text', text = escapedCode digits ++ text' ∧ hexCode? digits = some n ∧ IsLow n ∧
      rest? ⟨ts, .text (pushCode body (0x10000 + (first - 0xD800) * 0x400 + (n - 0xDC00)))⟩ text' =
        some out := by
  cases text with
  | nil => cases h
  | cons b text =>
    obtain ⟨s', hs, h⟩ := rest?_cons_eq_some.1 h
    obtain ⟨rfl, rfl⟩ : b = Ascii.backslash ∧ s' = ⟨ts, .lowEscape body first⟩ := by
      simpa [step?, eq_comm] using hs
    cases text with
    | nil => cases h
    | cons c text =>
      obtain ⟨s', hs, h⟩ := rest?_cons_eq_some.1 h
      obtain ⟨rfl, rfl⟩ : c = 0x75 ∧ s' = ⟨ts, .unicode body (some first) 0 0⟩ := by
        simpa [step?, eq_comm] using hs
      obtain ⟨digits, n, p, text, rfl, hdigits, hp, h⟩ := exists_code h
      obtain ⟨hlow, rfl⟩ := afterCode?_some_eq_some.1 hp
      exact ⟨digits, n, text, rfl, hdigits, hlow, h⟩

/-- After a backslash. -/
theorem exists_escape (h : rest? ⟨ts, .escape body⟩ text = some out) :
    ∃ p q text', Piece p q ∧ Ascii.backslash :: text = p ++ text' ∧
      rest? ⟨ts, .text (q.reverse ++ body)⟩ text' = some out := by
  cases text with
  | nil => cases h
  | cons b text =>
    obtain ⟨s', hs, h⟩ := rest?_cons_eq_some.1 h
    simp only [step?] at hs
    split at hs
    · next hu =>
      obtain rfl := Option.some.inj hs
      obtain ⟨digits, n, p, text, rfl, hdigits, hp, h⟩ := exists_code h
      obtain ⟨hhigh, rfl⟩ | ⟨hhigh, hlow, rfl⟩ := afterCode?_none_eq_some.1 hp
      · obtain ⟨digits₂, n₂, text, rfl, hdigits₂, hlow, h⟩ := exists_low h
        refine ⟨_, _, text, .pair hdigits hdigits₂ hhigh hlow, ?_, h⟩
        rw [hu, List.append_assoc]
        rfl
      · exact ⟨_, _, text, .code hdigits hhigh hlow, by rw [hu]; rfl, h⟩
    · obtain ⟨c, hc, rfl⟩ := Option.map_eq_some_iff.1 hs
      exact ⟨_, _, text, .letter (lookup_escapes.1 hc), rfl, h⟩

/-- Inside a string there is its end, or a piece of it. -/
theorem exists_piece (h : rest? ⟨ts, .text body⟩ text = some out) :
    (∃ text', text = Ascii.quote :: text' ∧ Utf8.isValid body.reverse = true ∧
        rest? ⟨.value (.str body.reverse) :: ts, .idle⟩ text' = some out) ∨
      ∃ p q text', Piece p q ∧ text = p ++ text' ∧
        rest? ⟨ts, .text (q.reverse ++ body)⟩ text' = some out := by
  cases text with
  | nil => cases h
  | cons b text =>
    obtain ⟨s', hs, h⟩ := rest?_cons_eq_some.1 h
    simp only [step?, text?] at hs
    split at hs
    · next hquote =>
      split at hs
      · next hvalid =>
        obtain rfl := Option.some.inj hs
        exact .inl ⟨text, by rw [hquote], hvalid, h⟩
      · cases hs
    · next hquote =>
      right
      split at hs
      · next hbackslash =>
        obtain rfl := Option.some.inj hs
        rw [hbackslash]
        exact exists_escape h
      · next hbackslash =>
        split at hs
        · cases hs
        · next hspace =>
          obtain rfl := Option.some.inj hs
          exact ⟨[b], [b], text, .byte (UInt8.not_lt.1 hspace) hquote hbackslash, rfl, h⟩

theorem exists_body (h : rest? ⟨ts, .text body⟩ text = some out) :
    ∃ written meant text', Body written meant ∧ text = written ++ Ascii.quote :: text' ∧
      Utf8.isValid (body.reverse ++ meant) = true ∧
        rest? ⟨.value (.str (body.reverse ++ meant)) :: ts, .idle⟩ text' = some out := by
  -- by induction on the length of the rest, taking off its first piece
  induction hn : text.length using Nat.strong_induction_on generalizing text body with
  | _ n ih =>
    obtain ⟨text', rfl, hvalid, hrest⟩ | ⟨p, q, text', hp, rfl, hrest⟩ := exists_piece h
    · refine ⟨[], [], text', .nil, rfl, ?_, ?_⟩
      · rwa [List.append_nil]
      · rwa [List.append_nil]
    · have hlt : text'.length < n := by
        have := List.length_pos_iff.2 hp.ne_nil
        rw [← hn, List.length_append]
        omega
      obtain ⟨written, meant, rest, hbody, rfl, hvalid, hout⟩ := ih text'.length hlt hrest rfl
      rw [List.reverse_append, List.reverse_reverse, List.append_assoc] at hvalid hout
      exact ⟨p ++ written, q ++ meant, rest, .cons hp hbody, by rw [List.append_assoc], hvalid,
        hout⟩

end Scanner

end Json

end PlaceFeed
