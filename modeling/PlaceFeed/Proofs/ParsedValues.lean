import PlaceFeed.Proofs.Parsing
import Mathlib.Algebra.Ring.Nat

/-!
# What a text can hold

The values that hold no others are tokens, and a token of a text is spelled in it
(`Json.IsText.exists_spelling`).  So what the grammar asks of a token holds of every part of a value
that was read, at any depth:

* `Json.IsText.isPrintable` : **its strings are encodings and its integers have 64 bits**, with or
  without a sign;
* `Json.IsText.isValid_str` : so its strings are well-formed UTF-8, the keys included;
* `Json.IsText.isSome_number?` : and its numbers have a nearest binary64 number.

Of equal keys the last one counts (`Json.lookup_eq_some_iff`).
-/

namespace PlaceFeed

/-! ### Integers as binary64 numbers -/

namespace Binary64

/-- An integer of 64 bits has a nearest number. -/
theorem isSome_ofInt? {n : Int} (h : n.natAbs < 2 ^ 64) : (ofInt? n).isSome = true := by
  rw [Option.isSome_iff_ne_none, Ne, ofInt?_eq_none_iff, not_le, ← Int.cast_abs, ← Nat.cast_natAbs]
  have hlt : (n.natAbs : ℚ) < 2 ^ 64 := by exact_mod_cast h
  exact hlt.trans_le (two_pow_le_overflow (by decide))

end Binary64

namespace Json

/-- A value that a text can hold: its integers have 64 bits, with or without a sign, and its
strings and keys encode scalar values. -/
inductive IsPrintable : Json → Prop
  | null : IsPrintable null
  | bool (b : Bool) : IsPrintable (bool b)
  | int {n : Int} (hlo : -0x8000000000000000 ≤ n) (hhi : n < 0x10000000000000000) :
    IsPrintable (int n)
  | float (x : Binary64) : IsPrintable (float x)
  | str {s : Bytes} (h : ∃ cs, Scalars.encode cs = s) : IsPrintable (str s)
  | arr {items : List Json} (h : ∀ v ∈ items, IsPrintable v) : IsPrintable (arr items)
  | obj {members : Members} (hkeys : ∀ m ∈ members, ∃ cs, Scalars.encode cs = m.1)
    (h : ∀ m ∈ members, IsPrintable m.2) : IsPrintable (obj members)

/-! ### Parts of a value -/

theorem mem_separated {t : Token} {run : List Token} {runs : List (List Token)} (ht : t ∈ run)
    (hrun : run ∈ runs) : t ∈ separated runs := by
  induction runs with
  | nil => cases hrun
  | cons first runs ih =>
    cases runs with
    | nil =>
      obtain rfl := List.mem_singleton.1 hrun
      simpa [separated] using ht
    | cons next runs =>
      rw [separated_cons_cons]
      rcases List.mem_cons.1 hrun with rfl | hrun
      · exact List.mem_append_left _ ht
      · exact List.mem_append_right _ (List.mem_cons_of_mem _ (ih hrun))

/-- The tokens of an item are among those of the array. -/
theorem mem_tokens_arr {t : Token} {v : Json} {items : List Json} (ht : t ∈ v.tokens)
    (hv : v ∈ items) : t ∈ (arr items).tokens := by
  rw [tokens_arr]
  refine List.mem_cons_of_mem _ (List.mem_append_left _ (mem_separated ht ?_))
  exact List.mem_map_of_mem hv

/-- The tokens of a member are among those of the object. -/
theorem mem_tokens_obj {t : Token} {m : Bytes × Json} {members : Members}
    (ht : t ∈ tokensOfMember m) (hm : m ∈ members) : t ∈ (obj members).tokens := by
  rw [tokens_obj]
  refine List.mem_cons_of_mem _ (List.mem_append_left _ (mem_separated ht ?_))
  exact List.mem_map_of_mem hm

/-- A key has the value of the **last member** that it stands in. -/
theorem lookup_eq_some_iff {members : Members} {key : Bytes} {v : Json} :
    lookup members key = some v ↔
      ∃ before after, members = before ++ (key, v) :: after ∧ ∀ m ∈ after, m.1 ≠ key := by
  rw [lookup, List.lookup_eq_some_iff]
  constructor
  · rintro ⟨after, before, hmembers, hafter⟩
    refine ⟨before.reverse, after.reverse, ?_, ?_⟩
    · rw [← List.reverse_reverse members, hmembers]
      simp
    · intro m hm
      exact (bne_iff_ne.1 (hafter m (List.mem_reverse.1 hm))).symm
  · rintro ⟨before, after, rfl, hafter⟩
    refine ⟨after.reverse, before.reverse, by simp, ?_⟩
    intro m hm
    exact bne_iff_ne.2 (hafter m (List.mem_reverse.1 hm)).symm

/-- The value of a key, if it holds no others, is a token of the object. -/
theorem value_mem_tokens_of_lookup {members : Members} {key : Bytes} {v : Json}
    (h : lookup members key = some v) (hv : v.tokens = [.value v]) :
    .value v ∈ (obj members).tokens := by
  obtain ⟨before, after, rfl, -⟩ := lookup_eq_some_iff.1 h
  refine mem_tokens_obj ?_ (List.mem_append_right before List.mem_cons_self)
  rw [tokensOfMember, hv]
  simp

/-- A value is printable when the values that it is made of are. -/
theorem isPrintable_of_tokens {v : Json} (h : ∀ w, .value w ∈ v.tokens → w.IsPrintable) :
    v.IsPrintable := by
  induction v using forall_of_parts with
  | null => exact .null
  | bool b => exact .bool b
  | int n => exact h (int n) (List.mem_singleton.2 rfl)
  | float x => exact .float x
  | str s => exact h (str s) (List.mem_singleton.2 rfl)
  | arr items ih => exact .arr fun v hv => ih v hv fun w hw => h w (mem_tokens_arr hw hv)
  | obj members ih =>
    refine .obj (fun m hm => ?_) fun m hm => ih m hm fun w hw => h w (mem_tokens_obj ?_ hm)
    · have hkey := h (str m.1) (mem_tokens_obj List.mem_cons_self hm)
      cases hkey with
      | str h => exact h
    · exact List.mem_cons_of_mem _ (List.mem_cons_of_mem _ hw)

theorem Token.Spelling.isPrintable {p : Bytes} {v : Json} (h : Token.Spelling p (.value v)) :
    v.IsPrintable := by
  cases h with
  | null => exact .null
  | true | false => exact .bool _
  | numeral hl =>
    cases hl with
    | int h => exact .int h.2.1 h.2.2
    | float => exact .float _
  | string hbody hvalid => exact .str (hbody.exists_encode_iff.1 hvalid)

/-! ### Members with a default -/

theorem read_eq_some {α : Type} {kind : Json → Option α} {default a : α} {members : Members}
    {key : String} :
    read kind default members key = some a ↔
      (lookup members (Bytes.ofString key) = none ∧ a = default) ∨
        ∃ v, lookup members (Bytes.ofString key) = some v ∧ kind v = some a := by
  unfold read
  cases lookup members (Bytes.ofString key) <;> simp [eq_comm]

theorem exists_read_eq_some {α : Type} {kind : Json → Option α} {default : α}
    {members : Members} {key : String} :
    (∃ a, read kind default members key = some a) ↔
      ∀ v, lookup members (Bytes.ofString key) = some v → (kind v).isSome = true := by
  unfold read
  cases lookup members (Bytes.ofString key) <;> simp [Option.isSome_iff_exists]

theorem read_congr {α : Type} {kind : Json → Option α} {default : α} {members others : Members}
    {key : String}
    (h : lookup others (Bytes.ofString key) = lookup members (Bytes.ofString key)) :
    read kind default others key = read kind default members key := by
  rw [read, read, h]

theorem string?_eq_some {v : Json} {s : Bytes} : v.string? = some s ↔ v = .str s := by
  cases v <;> simp [string?]

theorem bool?_eq_some {v : Json} {b : Bool} : v.bool? = some b ↔ v = .bool b := by
  cases v <;> simp [bool?]

theorem isSome_string?_iff {v : Json} : v.string?.isSome = true ↔ ∃ s, v = .str s := by
  simp [Option.isSome_iff_exists, string?_eq_some]

/-! ### Numbers -/

theorem Literal.number_eq_int {l : Literal} (h : l.isInteger = true) : l.number = l.int := by
  obtain ⟨negative, whole, fraction, exponent, hzero⟩ := l
  cases fraction <;> cases exponent <;> simp only [isInteger, Option.isNone_none,
    Option.isNone_some, Bool.and_self, Bool.and_false, Bool.false_and, Bool.false_eq_true] at h
  rw [number, int, Binary64.signed]
  cases negative <;> simp [scale]

/-- The **binary64 value of a numeral** is the number nearest to the one that is written. -/
theorem Literal.Means.exists_number? {l : Literal} {v : Json} (h : l.Means v) :
    ∃ x, v.number? = some x ∧ x.IsNearest l.number ∧ |l.number| < Binary64.overflow := by
  cases h with
  | int hint =>
    obtain ⟨hinteger, hlo, hhi⟩ := hint
    have hsome : (Binary64.ofInt? l.int).isSome = true := Binary64.isSome_ofInt? (by omega)
    obtain ⟨x, hx⟩ := Option.isSome_iff_exists.1 hsome
    obtain ⟨-, hlt, hnear⟩ := Binary64.ofInt?_eq_some_iff.1 hx
    rw [number_eq_int hinteger]
    exact ⟨x, hx, hnear, hlt⟩
  | float _ _ hlt hx => exact ⟨_, rfl, hx, hlt⟩

/-- A number, written as an integer or not. -/
def IsNumber (v : Json) : Prop := (∃ n, v = .int n) ∨ ∃ x, v = .float x

namespace IsText

variable {text : Bytes} {v : Json}

theorem exists_spelling_of_lexes {ts : List Token} (h : Lexes text ts) {t : Token} (ht : t ∈ ts) :
    ∃ p, Token.Spelling p t := by
  induction h with
  | spaces => cases ht
  | cons _ hp _ ih =>
    rcases List.mem_cons.1 ht with rfl | ht
    · exact ⟨_, hp⟩
    · exact ih ht

/-- A token of a value is spelled in the text. -/
theorem exists_spelling (h : IsText text v) {t : Token} (ht : t ∈ v.tokens) :
    ∃ p, Token.Spelling p t :=
  exists_spelling_of_lexes h ht

/-- The value of a token of a text is one that a text can hold. -/
theorem isPrintable_of_mem (h : IsText text v) {w : Json} (hw : .value w ∈ v.tokens) :
    w.IsPrintable := by
  obtain ⟨p, hp⟩ := h.exists_spelling hw
  exact hp.isPrintable

/-- **What is read is printable.** -/
theorem isPrintable (h : IsText text v) : v.IsPrintable :=
  isPrintable_of_tokens fun _ => h.isPrintable_of_mem

theorem isValid_str (h : IsText text v) {s : Bytes} (hs : .value (.str s) ∈ v.tokens) :
    Utf8.isValid s = true := by
  cases h.isPrintable_of_mem hs with
  | str hs => exact Scalars.isValid_iff.2 hs

/-- A number of a text is what a numeral means. -/
theorem exists_means (h : IsText text v) {w : Json} (hw : .value w ∈ v.tokens)
    (hnumber : w.IsNumber) : ∃ l : Literal, l.Means w := by
  obtain ⟨p, hp⟩ := h.exists_spelling hw
  generalize ht : Token.value w = t at hp
  cases hp with
  | @numeral l v hl =>
    obtain rfl := Token.value.inj ht
    exact ⟨l, hl⟩
  | leftBrace | rightBrace | leftBracket | rightBracket | colon | comma => cases ht
  | null | true | false | string =>
    obtain rfl := Token.value.inj ht
    obtain ⟨n, ⟨⟩⟩ | ⟨x, ⟨⟩⟩ := hnumber

theorem exists_means_of_lookup {members : Members} (h : IsText text (.obj members)) {key : Bytes}
    {w : Json} (hw : lookup members key = some w) (hnumber : w.IsNumber) :
    ∃ l : Literal, l.Means w := by
  refine h.exists_means (value_mem_tokens_of_lookup hw ?_) hnumber
  obtain ⟨n, rfl⟩ | ⟨x, rfl⟩ := hnumber <;> rfl

/-- A number of a text has a binary64 value. -/
theorem isSome_number? (h : IsText text v) {w : Json} (hw : .value w ∈ v.tokens)
    (hnumber : w.IsNumber) : w.number?.isSome = true := by
  obtain ⟨l, hl⟩ := h.exists_means hw hnumber
  obtain ⟨x, hx, -⟩ := hl.exists_number?
  rw [hx]
  rfl

end IsText

end Json

end PlaceFeed
