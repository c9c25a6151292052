import PlaceFeed.Proofs.Strings

/-!
# Reading tokens

The scanner reads a text in tokens with white space around them, which is `Lexes`.

* `Token.lexes_of_scan?` : the tokens that are read are those of the text;
* `Token.scan?_of_lexes` : **the tokens of a text are read**, if no two values stand side by side.

The condition is there because a numeral ends where the next byte does not belong to it: `12` has
the tokens `1` and `2` as well.  The tokens of a value satisfy it, and what follows a value then
is white space or a mark, at which every numeral ends (`Numeral.extend?_eq_none`).
-/

namespace PlaceFeed

namespace Json

/-- The token is a value. -/
def Token.IsValue (t : Token) : Prop := ∃ v, t = .value v

/-- No two values stand side by side. -/
def AreApart (ts : List Token) : Prop := ts.IsChain fun t u => ¬(t.IsValue ∧ u.IsValue)

/-- White space or a mark. -/
def IsBoundary (b : UInt8) : Prop := Scanner.isSpace b = true ∨ b ∈ Scanner.marks.map Prod.fst

/-- A numeral ends at a boundary. -/
theorem Numeral.extend?_eq_none {b : UInt8} (h : IsBoundary b) (n : Numeral) :
    n.extend? b = none := by
  have hb : Ascii.digit? b = none ∧ isExponentMark b = false ∧ b ≠ Ascii.zero ∧ b ≠ Ascii.point ∧
      b ≠ Ascii.plus ∧ b ≠ Ascii.minus := by
    simp only [IsBoundary, Scanner.isSpace, Scanner.marks, Bool.or_eq_true, beq_iff_eq,
      List.map_cons, List.map_nil, List.mem_cons, List.not_mem_nil, or_false] at h
    rcases h with (((rfl | rfl) | rfl) | rfl) | rfl | rfl | rfl | rfl | rfl | rfl <;> decide
  obtain ⟨hdigit, hmark, hzero, hpoint, hplus, hminus⟩ := hb
  unfold extend?
  cases n.part <;> simp [hdigit, hmark, hzero, hpoint, hplus, hminus]

theorem Token.Spelling.ne_nil {p : Bytes} {t : Token} (h : Spelling p t) : p ≠ [] := by
  cases h with
  | @numeral l v =>
    simp [Literal.bytes, Digits.bytes, Digits.toList]
  | _ => simp [Bytes.ofString]

theorem Lexes.cons_space {b : UInt8} {text : Bytes} {ts : List Token} (h : Lexes text ts)
    (hb : Scanner.isSpace b = true) : Lexes (b :: text) ts := by
  cases h with
  | spaces h => exact .spaces (List.forall_mem_cons.2 ⟨hb, h⟩)
  | cons hspaces hp h =>
    rw [← List.cons_append]
    exact .cons (List.forall_mem_cons.2 ⟨hb, hspaces⟩) hp h

/-- What follows a token that is no value, or nothing, starts with a boundary. -/
theorem Lexes.isBoundary_head {text : Bytes} {ts : List Token} (h : Lexes text ts)
    (hts : ∀ t ∈ ts.head?, ¬t.IsValue) : ∀ b ∈ text.head?, IsBoundary b := by
  intro b hb
  cases h with
  | spaces h => exact .inl (h b (List.mem_of_mem_head? hb))
  | @cons spaces p text t ts hspaces hp _ =>
    cases spaces with
    | cons c spaces =>
      obtain rfl := Option.some.inj hb
      exact .inl (hspaces c List.mem_cons_self)
    | nil =>
      have ht : ¬t.IsValue := hts t rfl
      right
      cases hp with
      | leftBrace | rightBrace | leftBracket | rightBracket | colon | comma =>
        obtain rfl := Option.some.inj hb
        decide
      | null | true | false | numeral | string => exact absurd ⟨_, rfl⟩ ht

namespace Scanner

variable {ts out : List Token} {text : Bytes} {b : UInt8} {n : Numeral} {v : Json}

/-! ### Reading what is written -/

theorem rest?_spaces {spaces : Bytes} (h : IsSpaces spaces) (text : Bytes) :
    rest? ⟨ts, .idle⟩ (spaces ++ text) = rest? ⟨ts, .idle⟩ text := by
  induction spaces with
  | nil => rfl
  | cons b spaces ih =>
    obtain ⟨hb, hspaces⟩ := List.forall_mem_cons.1 h
    rw [List.cons_append, rest?_cons_of_eq (t := ⟨ts, .idle⟩), ih hspaces]
    simp only [step?, begin?, if_pos hb]

theorem rest?_word_nil : rest? ⟨ts, .word [] v⟩ text = rest? ⟨.value v :: ts, .idle⟩ text := by
  cases text <;> rfl

theorem rest?_word (w : Bytes) :
    rest? ⟨ts, .word w v⟩ (w ++ text) = rest? ⟨.value v :: ts, .idle⟩ text := by
  induction w with
  | nil => exact rest?_word_nil
  | cons b w ih =>
    rw [List.cons_append, rest?_cons_of_eq (t := ⟨ts, .word w v⟩), ih]
    simp only [step?, if_true]

theorem rest?_numeral {w : Bytes} {m : Numeral} (h : w.foldlM Numeral.extend? n = some m) :
    rest? ⟨ts, .numeral n⟩ (w ++ text) = rest? ⟨ts, .numeral m⟩ text := by
  induction w generalizing n with
  | nil =>
    obtain rfl := Option.some.inj h
    rfl
  | cons b w ih =>
    obtain ⟨n', hb, h⟩ := foldlM_cons_eq_some.1 h
    rw [List.cons_append, rest?_cons_of_eq (t := ⟨ts, .numeral n'⟩), ih h]
    simp only [step?, hb]

theorem rest?_numeral_end (hv : n.value? = some v) (htext : ∀ b ∈ text.head?, IsBoundary b) :
    rest? ⟨ts, .numeral n⟩ text = rest? ⟨.value v :: ts, .idle⟩ text := by
  cases text with
  | nil =>
    simp only [rest?, List.foldlM_nil, pure, Option.bind_some, finish?, hv, Option.map_some]
  | cons b text =>
    have hb := n.extend?_eq_none (htext b rfl)
    simp only [rest?_cons, step?, hb, hv, Option.bind_some]

theorem begin?_of_start? (h : Numeral.start? b = some n) :
    begin? ts b = some ⟨ts, .numeral n⟩ := by
  have hb : isSpace b = false ∧ b ≠ Ascii.quote ∧ (marks.lookup b).isNone = true ∧
      (words.lookup b).isNone = true := by
    obtain ⟨rfl, -⟩ | ⟨d, rfl, -⟩ := Numeral.exists_of_start? h
    · decide
    · clear h
      revert d
      decide
  obtain ⟨hspace, hquote, hmark, hword⟩ := hb
  rw [Option.isNone_iff_eq_none] at hmark hword
  simp only [begin?, hspace, hquote, hmark, hword, h, Bool.false_eq_true, if_false, Option.map_some]

/-- A numeral, up to what cannot belong to it. -/
theorem rest?_literal {l : Literal} (hv : l.Means v)
    (htext : ∀ b ∈ text.head?, IsBoundary b) :
    rest? ⟨ts, .idle⟩ (l.bytes ++ text) = rest? ⟨.value v :: ts, .idle⟩ text := by
  have hread := Numeral.read?_bytes l
  cases hl : l.bytes with
  | nil =>
    rw [hl] at hread
    cases hread
  | cons b w =>
    rw [hl, Numeral.read?] at hread
    obtain ⟨n, hb, hw⟩ := Option.bind_eq_some_iff.1 hread
    rw [← Literal.value?_eq_some_iff] at hv
    have hstep : step? ⟨ts, .idle⟩ b = some ⟨ts, .numeral n⟩ := begin?_of_start? hb
    rw [List.cons_append, rest?_cons_of_eq hstep, rest?_numeral hw, rest?_numeral_end hv htext]

theorem rest?_spelling {p : Bytes} {t : Token} (h : Token.Spelling p t)
    (htext : t.IsValue → ∀ b ∈ text.head?, IsBoundary b) :
    rest? ⟨ts, .idle⟩ (p ++ text) = rest? ⟨t :: ts, .idle⟩ text := by
  cases h with
  | leftBrace | rightBrace | leftBracket | rightBracket | colon | comma =>
    exact rest?_cons_of_eq rfl text
  | null =>
    have hw : Bytes.ofString "null" = 0x6E :: Bytes.ofString "ull" := rfl
    rw [hw, List.cons_append, rest?_cons_of_eq (t := ⟨ts, .word (Bytes.ofString "ull") .null⟩) rfl,
      rest?_word]
  | true =>
    have hw : Bytes.ofString "true" = 0x74 :: Bytes.ofString "rue" := rfl
    rw [hw, List.cons_append,
      rest?_cons_of_eq (t := ⟨ts, .word (Bytes.ofString "rue") (.bool .true)⟩) rfl, rest?_word]
  | false =>
    have hw : Bytes.ofString "false" = 0x66 :: Bytes.ofString "alse" := rfl
    rw [hw, List.cons_append,
      rest?_cons_of_eq (t := ⟨ts, .word (Bytes.ofString "alse") (.bool .false)⟩) rfl, rest?_word]
  | numeral hv => exact rest?_literal hv (htext ⟨_, rfl⟩)
  | string hbody hvalid => exact rest?_string hbody (Scalars.isValid_iff.2 hvalid) text

theorem rest?_of_lexes (h : Lexes text ts) (hts : AreApart ts) (before : List Token) :
    rest? ⟨before, .idle⟩ text = some (before.reverse ++ ts) := by
  induction h generalizing before with
  | @spaces text h =>
    rw [← List.append_nil text, rest?_spaces h, List.append_nil]
    rfl
  | @cons spaces p text t ts hspaces hp hlexes ih =>
    obtain ⟨hhead, htail⟩ := List.isChain_cons.1 hts
    have htext : t.IsValue → ∀ b ∈ text.head?, IsBoundary b := by
      intro ht
      refine hlexes.isBoundary_head ?_
      intro u hu hvalue
      exact hhead u hu ⟨ht, hvalue⟩
    rw [rest?_spaces hspaces, rest?_spelling hp htext, ih htail, List.reverse_cons,
      List.append_assoc, List.singleton_append]

/-! ### What is read is written -/

theorem exists_word {w : Bytes} (h : rest? ⟨ts, .word w v⟩ text = some out) :
    ∃ text', text = w ++ text' ∧ rest? ⟨.value v :: ts, .idle⟩ text' = some out := by
  induction w generalizing text with
  | nil =>
    rw [rest?_word_nil] at h
    exact ⟨text, rfl, h⟩
  | cons c w ih =>
    cases text with
    | nil => cases h
    | cons b text =>
      obtain ⟨s', hs, h⟩ := rest?_cons_eq_some.1 h
      simp only [step?] at hs
      split at hs
      · next hb =>
        obtain rfl := Option.some.inj hs
        obtain ⟨text', rfl, hrest⟩ := ih h
        exact ⟨text', by rw [hb, List.cons_append], hrest⟩
      · cases hs

theorem exists_numeral (h : rest? ⟨ts, .numeral n⟩ text = some out) :
    ∃ w m v text', text = w ++ text' ∧ w.foldlM Numeral.extend? n = some m ∧
      m.value? = some v ∧ rest? ⟨.value v :: ts, .idle⟩ text' = some out := by
  induction text generalizing n with
  | nil =>
    obtain ⟨v, hv, hout⟩ := Option.map_eq_some_iff.1 h
    exact ⟨[], n, v, [], rfl, rfl, hv, congrArg some hout⟩
  | cons b text ih =>
    obtain ⟨s', hs, hrest⟩ := rest?_cons_eq_some.1 h
    simp only [step?] at hs
    split at hs
    · next n' hb =>
      obtain rfl := Option.some.inj hs
      obtain ⟨w, m, v, text', rfl, hw, hv, hout⟩ := ih hrest
      exact ⟨b :: w, m, v, text', rfl, foldlM_cons_eq_some.2 ⟨n', hb, hw⟩, hv, hout⟩
    · obtain ⟨v, hv, hs⟩ := Option.bind_eq_some_iff.1 hs
      exact ⟨[], n, v, b :: text, rfl, rfl, hv, rest?_cons_eq_some.2 ⟨s', hs, hrest⟩⟩

theorem spelling_of_lookup_marks {t : Token} (h : marks.lookup b = some t) :
    Token.Spelling [b] t := by
  have hmem := mem_of_lookup h
  simp only [marks, List.mem_cons, Prod.mk.injEq, List.not_mem_nil, or_false] at hmem
  rcases hmem with ⟨rfl, rfl⟩ | ⟨rfl, rfl⟩ | ⟨rfl, rfl⟩ | ⟨rfl, rfl⟩ | ⟨rfl, rfl⟩ | ⟨rfl, rfl⟩
  · exact .leftBrace
  · exact .rightBrace
  · exact .leftBracket
  · exact .rightBracket
  · exact .colon
  · exact .comma

theorem spelling_of_lookup_words {w : Bytes} (h : words.lookup b = some (w, v)) :
    Token.Spelling (b :: w) (.value v) := by
  have hmem := mem_of_lookup h
  simp only [words, List.mem_cons, Prod.mk.injEq, List.not_mem_nil, or_false] at hmem
  rcases hmem with ⟨rfl, rfl, rfl⟩ | ⟨rfl, rfl, rfl⟩ | ⟨rfl, rfl, rfl⟩
  · exact .null
  · exact .true
  · exact .false

/-- Between two tokens there is white space, or the next token. -/
theorem exists_spelling (h : rest? ⟨ts, .idle⟩ (b :: text) = some out) :
    (isSpace b = true ∧ rest? ⟨ts, .idle⟩ text = some out) ∨
      ∃ p t text', Token.Spelling p t ∧ b :: text = p ++ text' ∧
        rest? ⟨t :: ts, .idle⟩ text' = some out := by
  obtain ⟨s', hs, h⟩ := rest?_cons_eq_some.1 h
  simp only [step?, begin?] at hs
  split at hs
  · next hspace =>
    obtain rfl := Option.some.inj hs
    exact .inl ⟨hspace, h⟩
  right
  split at hs
  · next hquote =>
    obtain rfl := Option.some.inj hs
    obtain ⟨written, meant, text', hbody, rfl, hvalid, h⟩ := exists_body h
    rw [List.reverse_nil, List.nil_append, ← hbody.isValid_iff, Scalars.isValid_iff] at hvalid
    refine ⟨_, _, text', .string hbody hvalid, ?_, h⟩
    rw [hquote, List.cons_append, List.append_assoc, List.singleton_append]
  split at hs
  · next t hmark =>
    obtain rfl := Option.some.inj hs
    exact ⟨_, t, text, spelling_of_lookup_marks hmark, rfl, h⟩
  · next w v _ hword =>
    obtain rfl := Option.some.inj hs
    obtain ⟨text', rfl, hrest⟩ := exists_word h
    exact ⟨_, _, text', spelling_of_lookup_words hword, rfl, hrest⟩
  · obtain ⟨n, hn, rfl⟩ := Option.map_eq_some_iff.1 hs
    obtain ⟨w, m, v, text', rfl, hw, hv, h⟩ := exists_numeral h
    have hread : Numeral.read? (b :: w) = some m := by
      rw [Numeral.read?, hn, Option.bind_some, hw]
    obtain ⟨l, rfl, hl⟩ := Numeral.exists_literal hread (Numeral.isComplete_of_value? hv)
    rw [Literal.value?_eq_some_iff] at hv
    exact ⟨_, _, text', .numeral hv, by rw [hl, List.cons_append], h⟩

theorem lexes_of_rest? (h : rest? ⟨ts, .idle⟩ text = some out) :
    ∃ us, out = ts.reverse ++ us ∧ Lexes text us := by
  -- by induction on the length of the rest, taking off its first byte or its first token
  induction hn : text.length using Nat.strong_induction_on generalizing text ts with
  | _ n ih =>
    cases text with
    | nil =>
      obtain rfl := Option.some.inj h
      exact ⟨[], (List.append_nil _).symm, .spaces (by simp [IsSpaces])⟩
    | cons b text =>
      obtain ⟨hspace, hrest⟩ | ⟨p, t, text', hp, hsplit, hrest⟩ := exists_spelling h
      · have hlt : text.length < n := by
          rw [← hn]
          exact Nat.lt_succ_self _
        obtain ⟨us, rfl, hlexes⟩ := ih text.length hlt hrest rfl
        exact ⟨us, rfl, hlexes.cons_space hspace⟩
      · have hlt : text'.length < n := by
          have := List.length_pos_iff.2 hp.ne_nil
          rw [← hn, hsplit, List.length_append]
          omega
        obtain ⟨us, rfl, hlexes⟩ := ih text'.length hlt hrest rfl
        refine ⟨t :: us, by rw [List.reverse_cons, List.append_assoc, List.singleton_append], ?_⟩
        rw [hsplit, ← List.nil_append (p ++ text')]
        exact .cons (by simp [IsSpaces]) hp hlexes

end Scanner

namespace Token

theorem lexes_of_scan? {text : Bytes} {ts : List Token} (h : scan? text = some ts) :
    Lexes text ts := by
  obtain ⟨us, rfl, hlexes⟩ := Scanner.lexes_of_rest? h
  exact hlexes

theorem scan?_of_lexes {text : Bytes} {ts : List Token} (h : Lexes text ts) (hts : AreApart ts) :
    scan? text = some ts :=
  Scanner.rest?_of_lexes h hts []

end Token

end Json

end PlaceFeed
