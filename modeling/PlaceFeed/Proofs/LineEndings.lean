import PlaceFeed.Proofs.Lines
import PlaceFeed.Proofs.Parsing

/-!
# The ends of lines

No token ends with white space, so white space at the end of a JSON text can be left out; and the
blanks that a feed may have at the end of a line are white space.

* `Json.lexes_concat_space`, `Json.parse?_append_spaces` : **white space at the end of a text does
  not change what is read**, and makes no text of what is none;
* `Checker.check_append_blanks` : neither do blanks at the end of a line change its report;
* `Checker.checkAll_of_endsAlike` : lines that differ in blanks at their ends have the same reports;
* `Checker.trailing_blanks_irrelevant` : so have texts with either kind of line endings.
-/

namespace PlaceFeed

namespace Json

variable {text spaces : Bytes} {b : UInt8} {ts : List Token}

/-! ### White space at the end of a text -/

/-- The last byte of a token is no white space. -/
theorem Token.Spelling.exists_concat {p : Bytes} {t : Token} (h : Spelling p t) :
    ∃ q b, p = q ++ [b] ∧ Scanner.isSpace b = .false := by
  cases h with
  | leftBrace | rightBrace | leftBracket | rightBracket | colon | comma => exact ⟨[], _, rfl, rfl⟩
  | null => exact ⟨Bytes.ofString "nul", 0x6C, rfl, rfl⟩
  | true => exact ⟨Bytes.ofString "tru", 0x65, rfl, rfl⟩
  | false => exact ⟨Bytes.ofString "fals", 0x65, rfl, rfl⟩
  | @numeral l v hv =>
    have hall : numeralBytes.all fun b => Scanner.isSpace b == .false := by decide
    have hne : l.bytes ≠ [] := (Spelling.numeral hv).ne_nil
    refine ⟨_, _, (List.dropLast_concat_getLast hne).symm, ?_⟩
    simpa using List.all_eq_true.1 hall _ (l.bytes_subset (List.getLast_mem hne))
  | string => exact ⟨_, Ascii.quote, (List.cons_append ..).symm, rfl⟩

theorem isSpaces_concat : IsSpaces (text ++ [b]) ↔ IsSpaces text ∧ Scanner.isSpace b = true := by
  simp [IsSpaces, or_imp, forall_and]

theorem Lexes.concat_space (h : Lexes text ts) (hb : Scanner.isSpace b = true) :
    Lexes (text ++ [b]) ts := by
  induction h with
  | spaces h => exact .spaces (isSpaces_concat.2 ⟨h, hb⟩)
  | cons hspaces hp _ ih =>
    rw [List.append_assoc, List.append_assoc]
    exact .cons hspaces hp ih

theorem Lexes.of_concat_space {whole : Bytes} (h : Lexes whole ts) (hwhole : whole = text ++ [b])
    (hb : Scanner.isSpace b = true) : Lexes text ts := by
  induction h generalizing text with
  | spaces h =>
    rw [hwhole] at h
    exact .spaces (isSpaces_concat.1 h).1
  | @cons spaces p rest t ts hspaces hp _ ih =>
    rcases List.eq_nil_or_concat rest with rfl | ⟨rest, d, rfl⟩
    · -- the text would end with the token
      obtain ⟨q, e, rfl, he⟩ := hp.exists_concat
      rw [List.append_nil, ← List.append_assoc] at hwhole
      obtain rfl := List.singleton_inj.1 (List.append_inj_right' hwhole rfl)
      rw [hb] at he
      cases he
    · rw [List.concat_eq_append] at ih
      rw [List.concat_eq_append, ← List.append_assoc, ← List.append_assoc] at hwhole
      obtain ⟨rfl, hd⟩ := List.append_inj' hwhole rfl
      rw [List.append_assoc]
      exact .cons hspaces hp (ih (by rw [hd]))

theorem lexes_concat_space (hb : Scanner.isSpace b = true) :
    Lexes (text ++ [b]) ts ↔ Lexes text ts :=
  ⟨fun h => h.of_concat_space rfl hb, fun h => h.concat_space hb⟩

def byteOrderMark : Bytes := [0xEF, 0xBB, 0xBF]

theorem dropByteOrderMark_eq_self (h : ¬byteOrderMark <+: text) :
    dropByteOrderMark text = text := by
  unfold dropByteOrderMark
  split
  · exact absurd ⟨_, rfl⟩ h
  · rfl

/-- White space does not complete a byte order mark. -/
theorem dropByteOrderMark_concat_space (hb : Scanner.isSpace b = true) :
    dropByteOrderMark (text ++ [b]) = dropByteOrderMark text ++ [b] := by
  by_cases hmark : byteOrderMark <+: text
  · obtain ⟨rest, rfl⟩ := hmark
    rfl
  · have hconcat : ¬byteOrderMark <+: text ++ [b] := by
      rw [List.prefix_concat_iff, not_or]
      refine ⟨?_, hmark⟩
      intro heq
      have hlast : [0xEF, 0xBB] ++ [0xBF] = text ++ [b] := heq
      obtain rfl := List.singleton_inj.1 (List.append_inj_right' hlast rfl)
      cases hb
    rw [dropByteOrderMark_eq_self hconcat, dropByteOrderMark_eq_self hmark]

theorem parse?_concat_space (hb : Scanner.isSpace b = true) :
    parse? (text ++ [b]) = parse? text := by
  ext v
  rw [parse?_eq_some_iff, parse?_eq_some_iff, IsText, IsText,
    dropByteOrderMark_concat_space hb, lexes_concat_space hb]

/-- **White space at the end of a text does not change what is read.** -/
theorem parse?_append_spaces (h : IsSpaces spaces) : parse? (text ++ spaces) = parse? text := by
  induction spaces generalizing text with
  | nil => rw [List.append_nil]
  | cons b spaces ih =>
    obtain ⟨hb, hspaces⟩ := List.forall_mem_cons.1 h
    rw [List.append_cons, ih hspaces, parse?_concat_space hb]

end Json

namespace Bytes

variable {line other blanks text : Bytes}

/-! ### Blanks at the end of a line -/

theorem isSpaces_of_isBlank (h : isBlank blanks = true) : Json.IsSpaces blanks := by
  intro b hb
  have := List.all_eq_true.1 h b hb
  simp only [Json.Scanner.isSpace, Bool.or_eq_true] at this ⊢
  tauto

theorem isBlank_append (h : isBlank blanks = true) : isBlank (line ++ blanks) = isBlank line := by
  rw [isBlank, List.all_append, ← isBlank, ← isBlank, h, Bool.and_true]

/-- The other line has nothing more than blanks at its end. -/
def EndsAlike (line other : Bytes) : Prop :=
  ∃ blanks, isBlank blanks = true ∧ other = line ++ blanks

theorem EndsAlike.refl (line : Bytes) : line.EndsAlike line :=
  ⟨[], rfl, (List.append_nil line).symm⟩

theorem EndsAlike.isBlank_eq (h : line.EndsAlike other) : isBlank other = isBlank line := by
  obtain ⟨blanks, hblanks, rfl⟩ := h
  exact isBlank_append hblanks

/-- The text with a carriage return before every line feed. -/
def crlf (text : Bytes) : Bytes :=
  text.flatMap fun b => if b = Ascii.lineFeed then [Ascii.carriageReturn, Ascii.lineFeed] else [b]

theorem crlf_of_not_mem (h : Ascii.lineFeed ∉ line) : crlf line = line := by
  induction line with
  | nil => rfl
  | cons b line ih =>
    rw [List.mem_cons, not_or] at h
    rw [crlf, List.flatMap_cons, if_neg (Ne.symm h.1), ← crlf, ih h.2, List.singleton_append]

theorem crlf_cons (h : Ascii.lineFeed ∉ line) (text : Bytes) :
    crlf (line ++ Ascii.lineFeed :: text) =
      (line ++ [Ascii.carriageReturn]) ++ Ascii.lineFeed :: crlf text := by
  rw [crlf, List.flatMap_append, ← crlf, crlf_of_not_mem h, List.flatMap_cons, if_pos rfl, ← crlf,
    List.append_assoc]
  rfl

/-- The lines of a text with other line endings differ in carriage returns at their ends. -/
theorem endsAlike_lines_crlf (text : Bytes) :
    List.Forall₂ EndsAlike (lines text) (lines (crlf text)) := by
  induction text using lines_induction with
  | last line h =>
    rw [crlf_of_not_mem h]
    exact List.forall₂_same.2 fun line _ => .refl line
  | cons line text h ih =>
    have hreturn : Ascii.lineFeed ∉ line ++ [Ascii.carriageReturn] := by
      rw [List.mem_append, not_or]
      exact ⟨h, by decide⟩
    rw [crlf_cons h, lines_cons h, lines_cons hreturn]
    exact .cons ⟨[Ascii.carriageReturn], rfl, rfl⟩ ih

end Bytes

namespace Checker

/-! ### Reports -/

theorem check_append_blanks (c : Checker) (number : Nat) (line : Bytes) {blanks : Bytes}
    (h : Bytes.isBlank blanks = true) :
    c.check number (line ++ blanks) = c.check number line := by
  rw [check, check, Judgement.ofLine, Judgement.ofLine, Record.parse, Record.parse,
    Json.parse?_append_spaces (Bytes.isSpaces_of_isBlank h)]

/-- Lines that differ in blanks at their ends have the same reports. -/
theorem checkAll_of_endsAlike {lines others : List Bytes}
    (h : List.Forall₂ Bytes.EndsAlike lines others) (c : Checker) (number : Nat) :
    c.checkAll (numberedFrom number others) = c.checkAll (numberedFrom number lines) := by
  induction h generalizing c number with
  | nil => rfl
  | @cons line other lines others hline _ ih =>
    cases hblank : Bytes.isBlank line with
    | true =>
      rw [numberedFrom_cons_of_isBlank hblank,
        numberedFrom_cons_of_isBlank (hline.isBlank_eq.trans hblank), ih]
    | false =>
      rw [numberedFrom_cons_of_not_isBlank hblank,
        numberedFrom_cons_of_not_isBlank (hline.isBlank_eq.trans hblank), checkAll_cons,
        checkAll_cons]
      obtain ⟨blanks, hblanks, rfl⟩ := hline
      rw [check_append_blanks c number line hblanks, ih]

theorem run_crlf (c : Checker) (text : Bytes) : c.run (Bytes.crlf text) = c.run text := by
  rw [run, run, numberedLines_eq, numberedLines_eq,
    checkAll_of_endsAlike (Bytes.endsAlike_lines_crlf text)]

/-- **Line endings and trailing blanks do not matter.**  A line has the same report with blanks at
its end, be it a record or not, and leaves the same checker.  So a text has the same output, and
leaves the same checker, when each of its line feeds has a carriage return before it. -/
theorem trailing_blanks_irrelevant (c : Checker) :
    (∀ number line blanks, Bytes.isBlank blanks = true →
      c.check number (line ++ blanks) = c.check number line) ∧
    ∀ text,
      c.output (c.run (Bytes.crlf text)).1 = c.output (c.run text).1 ∧
        (c.run (Bytes.crlf text)).2 = (c.run text).2 := by
  constructor
  · intro number line blanks h
    exact check_append_blanks c number line h
  · intro text
    rw [run_crlf]
    exact ⟨rfl, rfl⟩

/-- A line that is cut off inside a string, and the record of a place that was met before. -/
theorem trailing_blanks_irrelevant_cut_off :
    let cut := Bytes.ofString "\x7b\"title\":\"a"
    let whole := Bytes.ofString "\x7b\"latitude\":1,\"longitude\":2,\"id\":\"7\"\x7d"
    let blanks := [Ascii.space, Ascii.tab, Ascii.carriageReturn]
    let c := ((new Settings.default).check 1 whole).2
    (c.check 2 (cut ++ blanks) = c.check 2 cut ∧ (c.check 2 cut).1.status = "malformed") ∧
      (c.check 2 (whole ++ blanks) = c.check 2 whole ∧
        (c.check 2 whole).1.samePlaceAs = some 1) ∧
      (c.run (cut ++ Ascii.carriageReturn :: Ascii.lineFeed :: whole)).2 =
        (c.run (cut ++ Ascii.lineFeed :: whole)).2 := by
  intro cut whole blanks c
  obtain ⟨hline, htext⟩ := trailing_blanks_irrelevant c
  have hcut := hline 2 cut blanks (by decide)
  have hwhole := hline 2 whole blanks (by decide)
  have hrun := (htext (cut ++ Ascii.lineFeed :: whole)).2
  exact ⟨⟨hcut, by decide +kernel⟩, ⟨hwhole, by decide +kernel⟩, hrun⟩

end Checker

end PlaceFeed
