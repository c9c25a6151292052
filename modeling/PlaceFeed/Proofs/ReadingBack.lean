import PlaceFeed.Proofs.Members
import PlaceFeed.Proofs.ParsedValues
import PlaceFeed.Proofs.Printing

/-!
# Reading back what is printed

Printing changes two things about a value: numbers that are no integers become strings of their
bits, and the members of an object are sorted (`Json.printed`).  All else is read back as it was,
from either layout, if a text can hold it (`Json.IsPrintable`).

* `Json.writes_printAt` : a printed value has the tokens of that value, wherever it stands; by
  induction on the value, from what is written for strings (`Json.writes_quoted`) and integers
  (`Json.writes_ofInt`);
* `Json.isText_print`, `Json.parse?_print` : **what is printed is a JSON text, and is read back**,
  in particular whatever was read before (`Json.parse?_print_of_parse?`);
* `Json.at?_printed` : a reader that follows a path of keys finds in it what it finds in the value.
-/

namespace PlaceFeed

namespace Json

/-! ### Written tokens -/

/-- The bytes are those of the tokens, with white space around them, before any rest of a text. -/
def Writes (p : Bytes) (ts : List Token) : Prop :=
  ∀ (text : Bytes) (us : List Token), Lexes text us → Lexes (p ++ text) (ts ++ us)

namespace Writes

variable {p q : Bytes} {ts us : List Token} {t : Token}

theorem nil : Writes [] [] := fun _ _ h => h

theorem append (hp : Writes p ts) (hq : Writes q us) : Writes (p ++ q) (ts ++ us) := by
  intro text vs h
  rw [List.append_assoc, List.append_assoc]
  exact hp _ _ (hq text vs h)

theorem of_isSpaces (h : IsSpaces p) : Writes p [] := by
  induction p with
  | nil => exact nil
  | cons b p ih =>
    obtain ⟨hb, hp⟩ := List.forall_mem_cons.1 h
    exact fun text us hlexes => (ih hp text us hlexes).cons_space hb

theorem of_spelling (h : Token.Spelling p t) : Writes p [t] :=
  fun _ _ hlexes => Lexes.cons (List.forall_mem_nil _) h hlexes

/-- Items with a separator between them. -/
theorem intersperse (hp : Writes p ts) {items : List Bytes} {runs : List (List Token)}
    (h : List.Forall₂ Writes items runs) :
    Writes (items.intersperse p).flatten (ts.intercalate runs) := by
  rw [List.intercalate]
  induction h with
  | nil => exact nil
  | @cons item run items runs hitem hrest ih =>
    cases hrest with
    | nil => simpa using hitem
    | @cons next nextRun items runs hnext hrest =>
      rw [List.intersperse_cons_cons, List.intersperse_cons_cons, List.flatten_cons,
        List.flatten_cons, List.flatten_cons, List.flatten_cons]
      exact hitem.append (hp.append ih)

theorem lineBreak (layout : Layout) (depth : Nat) : Writes (layout.lineBreak depth) [] := by
  refine of_isSpaces ?_
  cases layout with
  | compact => exact List.forall_mem_nil _
  | indented =>
    refine List.forall_mem_cons.2 ⟨rfl, ?_⟩
    intro b hb
    rw [List.eq_of_mem_replicate hb]
    rfl

theorem colon (layout : Layout) : Writes layout.colon [.colon] := by
  cases layout with
  | compact => exact of_spelling .colon
  | indented =>
    exact (of_spelling .colon).append (of_isSpaces (List.forall_mem_singleton.2 rfl))

/-- A container. -/
theorem enclose {layout : Layout} {depth : Nat} {left right : UInt8} {start stop : Token}
    (hleft : Token.Spelling [left] start) (hright : Token.Spelling [right] stop)
    {items : List Bytes} {runs : List (List Token)} (h : List.Forall₂ Writes items runs) :
    Writes (layout.enclose depth left right items) (start :: (separated runs ++ [stop])) := by
  have hstart := of_spelling hleft
  have hstop := of_spelling hright
  cases h with
  | nil => exact hstart.append hstop
  | @cons item run items runs hitem hrest =>
    have hcomma : Writes (Ascii.comma :: layout.lineBreak (depth + 1)) [.comma] :=
      (of_spelling .comma).append (lineBreak layout (depth + 1))
    have hitems := hcomma.intersperse (.cons hitem hrest)
    have hbody := (lineBreak layout (depth + 1)).append hitems
    have hend := (lineBreak layout depth).append hstop
    have := hstart.append (hbody.append hend)
    simpa [Layout.enclose, separated] using this

end Writes

/-! ### Written strings -/

theorem hexCode?_hex :
    ∀ n < 32, hexCode? (Bytes.hex 4 n) = some n ∧ ¬IsHigh n ∧ ¬IsLow n ∧
      String.utf8EncodeChar (Char.ofNat n) = [UInt8.ofNat n] := by
  decide

theorem piece_escapeByte (b : UInt8) : Piece (escapeByte b) [b] := by
  unfold escapeByte
  split
  · next letter h =>
    have hall : escapeLetters.all fun e => (e.2, e.1) ∈ Scanner.escapes := by decide
    refine .letter ?_
    simpa using List.all_eq_true.1 hall _ (mem_of_lookup h)
  · next h =>
    split
    · next hspace =>
      obtain ⟨hcode, hhigh, hlow, hchar⟩ := hexCode?_hex b.toNat hspace
      rw [UInt8.ofNat_toNat] at hchar
      rw [← hchar]
      exact .code hcode hhigh hlow
    · next hspace =>
      refine .byte (UInt8.not_lt.1 hspace) ?_ ?_
      · rintro rfl
        cases h
      · rintro rfl
        cases h

theorem body_escaped (s : Bytes) : Body (s.flatMap escapeByte) s := by
  induction s with
  | nil => exact .nil
  | cons b s ih => exact .cons (piece_escapeByte b) ih

/-- A well-formed string is written between quotes. -/
theorem writes_quoted {s : Bytes} (h : ∃ cs, Scalars.encode cs = s) :
    Writes (quoted s) [.value (.str s)] :=
  .of_spelling (.string (body_escaped s) ((body_escaped s).exists_encode_iff.2 h))

/-! ### Written integers -/

theorem encodeChar_digitChar (d : Fin 10) :
    String.utf8EncodeChar (Nat.digitChar d) = [digitByte d] := by
  revert d
  decide

/-- A number is written in decimal digits, without a leading zero. -/
theorem exists_digits (n : Nat) :
    ∃ ds : Digits, ds.bytes = Bytes.ofNat n ∧ ds.value = n ∧ (ds.first = 0 → ds.rest = []) := by
  -- by induction on the number, taking off its last digit
  induction n using Nat.strong_induction_on with
  | _ n ih =>
    unfold Bytes.ofNat
    rcases Nat.lt_or_ge n 10 with hlt | hge
    · have hdigit := encodeChar_digitChar ⟨n, hlt⟩
      refine ⟨⟨⟨n, hlt⟩, []⟩, ?_, ?_, fun _ => rfl⟩
      · rw [Nat.toDigits_of_lt_base hlt, List.flatMap_singleton, hdigit]
        rfl
      · simp [Digits.value, Digits.toList, appendDigits]
    · obtain ⟨⟨first, rest⟩, hbytes, hvalue, hzero⟩ := ih (n / 10) (by omega)
      have hdigit := encodeChar_digitChar ⟨n % 10, Nat.mod_lt n (by decide)⟩
      refine ⟨⟨first, rest ++ [⟨n % 10, Nat.mod_lt n (by decide)⟩]⟩, ?_, ?_, ?_⟩
      · rw [Nat.toDigits_of_base_le (by decide) hge, List.flatMap_append, ← Bytes.ofNat, ← hbytes,
          List.flatMap_singleton, hdigit]
        simp [Digits.bytes, Digits.toList]
      · simp only [Digits.value, Digits.toList, appendDigits, ← List.cons_append,
          List.foldl_append] at hvalue ⊢
        rw [hvalue]
        simp only [List.foldl_cons, List.foldl_nil]
        omega
      · -- the other digits are those of a number that is not zero
        intro (hfirst : first = 0)
        have hrest : rest = [] := hzero hfirst
        rw [hfirst, hrest] at hvalue
        have : n / 10 = 0 := hvalue.symm
        omega

/-- An integer is written as a numeral with its value. -/
theorem exists_literal_ofInt (n : Int) :
    ∃ l : Literal, l.bytes = Bytes.ofInt n ∧ l.isInteger = true ∧ l.int = n := by
  have hliteral : ∀ (negative : Bool) (m : Nat), ∃ l : Literal,
      l.bytes = (if negative then [Ascii.minus] else []) ++ Bytes.ofNat m ∧ l.isInteger = true ∧
        l.int = if negative then -(m : Int) else m := by
    intro negative m
    obtain ⟨ds, hbytes, hvalue, hzero⟩ := exists_digits m
    refine ⟨⟨negative, ds, none, none, hzero⟩, ?_, rfl, ?_⟩
    · simp [Literal.bytes, hbytes]
    · simp [Literal.int, Literal.digits, appendDigits, hvalue]
  cases n with
  | ofNat n => exact hliteral false n
  | negSucc n => exact hliteral true (n + 1)

theorem writes_ofInt {n : Int} (hlo : -0x8000000000000000 ≤ n) (hhi : n < 0x10000000000000000) :
    Writes (Bytes.ofInt n) [.value (.int n)] := by
  obtain ⟨l, hbytes, hinteger, rfl⟩ := exists_literal_ofInt n
  rw [← hbytes]
  exact .of_spelling (.numeral (.int ⟨hinteger, hlo, hhi⟩))

/-! ### Printed values -/

mutual

/-- The value that a **printed value** is read to: numbers that are no integers are the strings of
their bits, and the members of an object are sorted. -/
def printed : Json → Json
  | float x => str x.toBytes
  | arr items => arr (printedItems items)
  | obj members => obj (sortMembers (printedMembers members))
  | v => v

/-- The items of an array, each as it is printed. -/
def printedItems : List Json → List Json
  | [] => []
  | v :: items => printed v :: printedItems items

/-- The members of an object, each with its value as it is printed. -/
def printedMembers : List (Bytes × Json) → List (Bytes × Json)
  | [] => []
  | (k, v) :: members => (k, printed v) :: printedMembers members

end

theorem printedItems_eq_map (items : List Json) : printedItems items = items.map printed := by
  induction items with
  | nil => rfl
  | cons v items ih => rw [printedItems, ih, List.map_cons]

theorem printedMembers_eq_mapValues (members : Members) :
    printedMembers members = mapValues printed members := by
  induction members with
  | nil => rfl
  | cons m members ih =>
    rw [printedMembers, ih]
    rfl

/-- The bits of a number are written in ASCII. -/
theorem exists_encode_toBytes (x : Binary64) : ∃ cs, Scalars.encode cs = x.toBytes := by
  have hmark : ∀ b ∈ Bytes.ofString "f64:", b.toNat < 0x80 := by decide +kernel
  have hdigit : ∀ d < 16, (Ascii.hexDigit d).toNat < 0x80 := by decide
  rw [← Scalars.isValid_iff]
  apply Utf8.isValid_of_ascii
  exact List.forall_mem_append.2 ⟨hmark, Bytes.forall_mem_hex hdigit 16 _⟩

theorem writes_printAt (layout : Layout) {v : Json} (h : v.IsPrintable) :
    ∀ depth, Writes (v.printAt layout depth) v.printed.tokens := by
  induction v using forall_of_parts with
  | null => exact fun _ => .of_spelling .null
  | bool b =>
    intro depth
    cases b with
    | false => exact .of_spelling .false
    | true => exact .of_spelling .true
  | int n =>
    intro depth
    cases h with
    | int hlo hhi => exact writes_ofInt hlo hhi
  | float x => exact fun _ => writes_quoted (exists_encode_toBytes x)
  | str s =>
    intro depth
    cases h with
    | str h => exact writes_quoted h
  | arr items ih =>
    intro depth
    obtain - | - | - | - | - | ⟨hitems⟩ := h
    rw [printAt, printItems_eq_map, printed, printedItems_eq_map, tokens_arr]
    refine .enclose .leftBracket .rightBracket ?_
    rw [List.map_map, List.forall₂_map_left_iff, List.forall₂_map_right_iff, List.forall₂_same]
    exact fun v hv => ih v hv (hitems v hv) (depth + 1)
  | obj members ih =>
    intro depth
    cases h with
    | obj hkeys hvalues =>
    rw [printAt, printMembers_eq_mapValues, printed, printedMembers_eq_mapValues, tokens_obj,
      sortMembers_mapValues, sortMembers_mapValues]
    refine .enclose .leftBrace .rightBrace ?_
    rw [mapValues, mapValues, List.map_map, List.map_map, List.forall₂_map_left_iff,
      List.forall₂_map_right_iff, List.forall₂_same]
    intro m hm
    have hm := mem_sortMembers hm
    have hkey := (writes_quoted (hkeys m hm)).append (.colon layout)
    exact hkey.append (ih m hm (hvalues m hm) (depth + 1))

/-! ### Texts -/

theorem Token.Spelling.ascii_head {p : Bytes} {t : Token} (h : Spelling p t) (text : Bytes) :
    ∀ b ∈ (p ++ text).head?, b.toNat < 0x80 := by
  intro b hb
  cases h with
  | @numeral l v hl =>
    have hall : numeralBytes.all fun b => b.toNat < 0x80 := by decide
    rw [List.head?_append_of_ne_nil _ (Spelling.numeral hl).ne_nil] at hb
    simpa using List.all_eq_true.1 hall b (l.bytes_subset (List.mem_of_mem_head? hb))
  | _ =>
    obtain rfl := Option.some.inj hb
    decide

/-- A text of some tokens has no byte order mark. -/
theorem Lexes.dropByteOrderMark_eq {text : Bytes} {ts : List Token} (h : Lexes text ts) :
    dropByteOrderMark text = text := by
  have hhead : ∀ b ∈ text.head?, b.toNat < 0x80 := by
    intro b hb
    have hspace : Scanner.isSpace b = true → b.toNat < 0x80 := by
      simp only [Scanner.isSpace, Bool.or_eq_true, beq_iff_eq]
      rintro (((rfl | rfl) | rfl) | rfl) <;> decide
    cases h with
    | spaces h => exact hspace (h b (List.mem_of_mem_head? hb))
    | @cons spaces p text t ts hspaces hp _ =>
      cases spaces with
      | nil => exact hp.ascii_head text b hb
      | cons c spaces =>
        obtain rfl := Option.some.inj hb
        exact hspace (hspaces _ List.mem_cons_self)
  unfold dropByteOrderMark
  split
  · exact absurd (hhead 0xEF rfl) (by decide)
  · rfl

/-- **What is printed is a JSON text**, in either layout. -/
theorem isText_print {v : Json} (h : v.IsPrintable) (layout : Layout) :
    IsText (v.print layout) v.printed := by
  have hlexes := writes_printAt layout h 0 [] [] (.spaces (List.forall_mem_nil _))
  rw [List.append_nil, List.append_nil] at hlexes
  rw [IsText, print, hlexes.dropByteOrderMark_eq]
  exact hlexes

/-- **A printed value is read back.** -/
theorem parse?_print {v : Json} (h : v.IsPrintable) (layout : Layout) :
    parse? (v.print layout) = some v.printed :=
  parse?_eq_some_iff.2 (isText_print h layout)

/-- What was read can be printed, and is read back then. -/
theorem parse?_print_of_parse? {text : Bytes} {v : Json} (h : parse? text = some v)
    (layout : Layout) : parse? (v.print layout) = some v.printed :=
  parse?_print (parse?_eq_some_iff.1 h).isPrintable layout

/-! ### Members -/

/-- Printing keeps the members of an object. -/
theorem member?_printed (v : Json) (key : String) :
    v.printed.member? key = (v.member? key).map printed := by
  cases v with
  | obj members =>
    rw [printed, printedMembers_eq_mapValues, sortMembers_mapValues, member?, member?, lookup,
      mapValues, ← List.map_reverse, ← mapValues, lookup_mapValues,
      (areSorted_sortMembers members).lookup_reverse, lookup_sortMembers, lookup]
  | null | bool | int | float | str | arr => rfl

theorem at?_printed (v : Json) (path : List String) :
    v.printed.at? path = (v.at? path).map printed := by
  induction path generalizing v with
  | nil => rfl
  | cons key path ih =>
    rw [at?, at?, member?_printed, Option.map_bind, Option.bind_map]
    exact congrArg _ (funext ih)

end Json

end PlaceFeed
