import PlaceFeed.Json.Printer
import PlaceFeed.Proofs.Parsing

/-!
# Printed values

A printed string escapes every byte below the space, and the other parts of a value are written
without any.  So a value in the compact layout is one line, whatever bytes its strings hold.

* `Json.lookup_sortMembers` : sorting the members of an object keeps the last value of each key;
* `Json.noControls_print` : **a value in the compact layout has no control characters**.
-/

namespace PlaceFeed

namespace Bytes

/-! ### Texts without control characters -/

/-- No byte of the text is below the space. -/
def NoControls (text : Bytes) : Prop := ∀ b ∈ text, Ascii.space ≤ b

instance : DecidablePred NoControls := fun text => List.decidableBAll _ text

theorem noControls_append {s t : Bytes} : NoControls (s ++ t) ↔ NoControls s ∧ NoControls t :=
  List.forall_mem_append

theorem noControls_cons {b : UInt8} {t : Bytes} :
    NoControls (b :: t) ↔ Ascii.space ≤ b ∧ NoControls t :=
  List.forall_mem_cons

theorem NoControls.lineFeed_not_mem {text : Bytes} (h : NoControls text) :
    Ascii.lineFeed ∉ text :=
  fun hmem => absurd (h _ hmem) (by decide)

theorem noControls_encodeChar {c : Char} (h : 0x20 ≤ c.toNat) :
    NoControls (String.utf8EncodeChar c) := by
  have hcode := Utf8.code_encodeChar c
  intro b hb
  change 0x20 ≤ b.toNat
  -- a single byte is the character itself, and all others are above ASCII
  generalize hp : String.utf8EncodeChar c = p at hcode hb
  have hform := Utf8.form_encodeChar c
  rw [hp] at hform
  cases hform <;> simp only [Utf8.code, Utf8.isContinuation_iff, List.mem_cons, List.not_mem_nil,
    or_false] at * <;> rcases hb with rfl | rfl | rfl | rfl <;> omega

theorem noControls_ofNat (n : Nat) : NoControls (ofNat n) := by
  intro b hb
  obtain ⟨c, hc, hb⟩ := List.mem_flatMap.1 hb
  have hdigit := Nat.isDigit_of_mem_toDigits (by decide) (by decide) hc
  simp only [Char.isDigit, Bool.and_eq_true, decide_eq_true_eq] at hdigit
  exact noControls_encodeChar (le_trans (by decide) (UInt32.le_iff_toNat_le.1 hdigit.1)) b hb

theorem noControls_ofInt (n : Int) : NoControls (ofInt n) := by
  cases n with
  | ofNat n => exact noControls_ofNat n
  | negSucc n => exact noControls_cons.2 ⟨by decide, noControls_ofNat (n + 1)⟩

/-- A property of all hexadecimal digits. -/
theorem forall_mem_hex {P : UInt8 → Prop} (h : ∀ d < 16, P (Ascii.hexDigit d)) (width n : Nat) :
    ∀ b ∈ hex width n, P b := by
  induction width generalizing n with
  | zero => exact List.forall_mem_nil _
  | succ width ih =>
    refine List.forall_mem_append.2 ⟨ih _, List.forall_mem_singleton.2 ?_⟩
    exact h _ (Nat.mod_lt n (by decide))

theorem noControls_hex (width n : Nat) : NoControls (hex width n) :=
  forall_mem_hex (by decide) width n

end Bytes

namespace Json

open Bytes (NoControls noControls_append noControls_cons)

/-! ### Strings -/

theorem noControls_escapeByte (b : UInt8) : NoControls (escapeByte b) := by
  unfold escapeByte
  split
  · next letter h =>
    have hall : escapeLetters.all fun e => Ascii.space ≤ e.2 := by decide
    refine noControls_cons.2 ⟨by decide, List.forall_mem_singleton.2 ?_⟩
    simpa using List.all_eq_true.1 hall _ (mem_of_lookup h)
  · split
    · exact noControls_append.2 ⟨by decide, Bytes.noControls_hex 4 _⟩
    · next h => exact List.forall_mem_singleton.2 (UInt8.not_lt.1 h)

theorem noControls_quoted (s : Bytes) : NoControls (quoted s) := by
  have hbody : NoControls (s.flatMap escapeByte) := by
    intro x hx
    obtain ⟨b, -, hx⟩ := List.mem_flatMap.1 hx
    exact noControls_escapeByte b x hx
  have hquote : Ascii.space ≤ Ascii.quote := by decide
  refine noControls_cons.2 ⟨hquote, noControls_append.2 ⟨hbody, ?_⟩⟩
  exact List.forall_mem_singleton.2 hquote

/-! ### Sorted members -/

section Sorted

variable {α β : Type} {n : Bytes × α} {members : List (Bytes × α)}

theorem ne_of_key_lt {a b : Bytes} (h : a < b) : a ≠ b := by
  rintro rfl
  exact List.lt_irrefl a h

theorem eq_of_not_key_lt {a b : Bytes} (h : ¬a < b) (h' : ¬b < a) : a = b :=
  List.le_antisymm (List.not_lt.1 h') (List.not_lt.1 h)

theorem mem_insertMember {m : Bytes × α} (h : n ∈ insertMember m members) :
    n = m ∨ n ∈ members := by
  induction members with
  | nil => exact .inl (List.mem_singleton.1 h)
  | cons first members ih =>
    unfold insertMember at h
    split_ifs at h
    · exact List.mem_cons.1 h
    · rcases List.mem_cons.1 h with rfl | h
      · exact .inr List.mem_cons_self
      · exact (ih h).imp_right (List.mem_cons_of_mem first)
    · exact (List.mem_cons.1 h).imp_right (List.mem_cons_of_mem first)

/-- The last member is the last one to be put in its place. -/
theorem sortMembers_concat (members : List (Bytes × α)) (m : Bytes × α) :
    sortMembers (members ++ [m]) = insertMember m (sortMembers members) := by
  rw [sortMembers, List.foldl_append]
  rfl

/-- Sorting adds no members. -/
theorem mem_sortMembers (h : n ∈ sortMembers members) : n ∈ members := by
  induction members using List.reverseRecOn with
  | nil => exact h
  | append_singleton members m ih =>
    rw [sortMembers_concat] at h
    rcases mem_insertMember h with rfl | h
    · exact List.mem_concat_self
    · exact List.mem_append_left [m] (ih h)

/-- The keys are in the order of their bytes, each once. -/
def AreSorted (members : List (Bytes × α)) : Prop := members.Pairwise fun m n => m.1 < n.1

theorem AreSorted.insertMember (h : AreSorted members) (m : Bytes × α) :
    AreSorted (insertMember m members) := by
  induction members with
  | nil => exact List.pairwise_singleton ..
  | cons n members ih =>
    obtain ⟨hn, hrest⟩ := List.pairwise_cons.1 h
    unfold Json.insertMember
    split_ifs with hlt hgt
    · refine List.pairwise_cons.2 ⟨List.forall_mem_cons.2 ⟨hlt, ?_⟩, h⟩
      intro k hk
      exact List.lt_trans hlt (hn k hk)
    · refine List.pairwise_cons.2 ⟨?_, ih hrest⟩
      intro k hk
      rcases mem_insertMember hk with rfl | hk
      · exact hgt
      · exact hn k hk
    · refine List.pairwise_cons.2 ⟨?_, hrest⟩
      intro k hk
      rw [eq_of_not_key_lt hlt hgt]
      exact hn k hk

theorem areSorted_sortMembers (members : List (Bytes × α)) : AreSorted (sortMembers members) := by
  induction members using List.reverseRecOn with
  | nil => exact .nil
  | append_singleton members m ih =>
    rw [sortMembers_concat]
    exact ih.insertMember m

theorem lookup_cons_eq (n : Bytes × α) (members : List (Bytes × α)) (key : Bytes) :
    (n :: members).lookup key = if key = n.1 then some n.2 else members.lookup key := by
  rw [List.lookup_cons]
  by_cases h : key = n.1
  · rw [if_pos h, beq_iff_eq.2 h]
  · rw [if_neg h, beq_false_of_ne h]

theorem lookup_insertMember (m : Bytes × α) (members : List (Bytes × α)) (key : Bytes) :
    (insertMember m members).lookup key =
      if key = m.1 then some m.2 else members.lookup key := by
  induction members with
  | nil => exact lookup_cons_eq m [] key
  | cons n members ih =>
    rw [insertMember, lookup_cons_eq n]
    by_cases hlt : m.1 < n.1
    · rw [if_pos hlt, lookup_cons_eq, lookup_cons_eq]
    by_cases hgt : n.1 < m.1
    · rw [if_neg hlt, if_pos hgt, lookup_cons_eq, ih]
      by_cases hkey : key = m.1
      · rw [if_pos hkey, if_pos hkey, if_neg (hkey ▸ (ne_of_key_lt hgt).symm)]
      · rw [if_neg hkey, if_neg hkey]
    · rw [if_neg hlt, if_neg hgt, lookup_cons_eq, eq_of_not_key_lt hlt hgt]
      split <;> rfl

/-- Sorting keeps the **last value of each key**. -/
theorem lookup_sortMembers (members : List (Bytes × α)) (key : Bytes) :
    (sortMembers members).lookup key = members.reverse.lookup key := by
  induction members using List.reverseRecOn with
  | nil => rfl
  | append_singleton members m ih =>
    rw [sortMembers_concat, lookup_insertMember, ih, List.reverse_append, List.reverse_singleton,
      List.singleton_append, lookup_cons_eq]

/-- Among sorted members the last with a key is the first. -/
theorem AreSorted.lookup_reverse (h : AreSorted members) (key : Bytes) :
    members.reverse.lookup key = members.lookup key := by
  induction members with
  | nil => rfl
  | cons m members ih =>
    obtain ⟨hm, hrest⟩ := List.pairwise_cons.1 h
    rw [List.reverse_cons, List.lookup_append, ih hrest, lookup_cons_eq, lookup_cons_eq]
    by_cases hkey : key = m.1
    · have hnone : members.lookup key = none := by
        rw [List.lookup_eq_none_iff]
        intro n hn
        rw [bne_iff_ne, hkey]
        exact ne_of_key_lt (hm n hn)
      rw [hnone, Option.none_or, if_pos hkey, if_pos hkey]
    · rw [if_neg hkey, if_neg hkey, List.lookup_nil, Option.or_none]

/-- The members with other values under the same keys. -/
def mapValues (f : α → β) (members : List (Bytes × α)) : List (Bytes × β) :=
  members.map fun m => (m.1, f m.2)

theorem insertMember_mapValues (f : α → β) (m : Bytes × α) (members : List (Bytes × α)) :
    insertMember (m.1, f m.2) (mapValues f members) = mapValues f (insertMember m members) := by
  induction members with
  | nil => rfl
  | cons n members ih =>
    change insertMember (m.1, f m.2) ((n.1, f n.2) :: mapValues f members) = _
    rw [insertMember, insertMember]
    by_cases hlt : m.1 < n.1
    · rw [if_pos hlt, if_pos hlt]
      rfl
    by_cases hgt : n.1 < m.1
    · rw [if_neg hlt, if_neg hlt, if_pos hgt, if_pos hgt, ih]
      rfl
    · rw [if_neg hlt, if_neg hlt, if_neg hgt, if_neg hgt]
      rfl

/-- Sorting goes by the keys alone. -/
theorem sortMembers_mapValues (f : α → β) (members : List (Bytes × α)) :
    sortMembers (mapValues f members) = mapValues f (sortMembers members) := by
  induction members using List.reverseRecOn with
  | nil => rfl
  | append_singleton members m ih =>
    rw [sortMembers_concat, ← insertMember_mapValues, ← ih, ← sortMembers_concat, mapValues,
      List.map_append]
    rfl

theorem lookup_mapValues (f : α → β) (members : List (Bytes × α)) (key : Bytes) :
    (mapValues f members).lookup key = (members.lookup key).map f := by
  induction members with
  | nil => rfl
  | cons m members ih =>
    rw [mapValues, List.map_cons, ← mapValues, lookup_cons_eq, lookup_cons_eq, ih]
    split <;> rfl

end Sorted

/-! ### Containers -/

theorem noControls_flatten_intersperse {separator : Bytes} {items : List Bytes}
    (hseparator : NoControls separator) (hitems : ∀ item ∈ items, NoControls item) :
    NoControls (items.intersperse separator).flatten := by
  induction items with
  | nil => exact List.forall_mem_nil _
  | cons item items ih =>
    obtain ⟨hitem, hrest⟩ := List.forall_mem_cons.1 hitems
    cases items with
    | nil => simpa using hitem
    | cons next items =>
      rw [List.intersperse_cons_cons, List.flatten_cons, List.flatten_cons]
      exact noControls_append.2 ⟨hitem, noControls_append.2 ⟨hseparator, ih hrest⟩⟩

theorem noControls_enclose {depth : Nat} {left right : UInt8} {items : List Bytes}
    (hleft : Ascii.space ≤ left) (hright : Ascii.space ≤ right)
    (hitems : ∀ item ∈ items, NoControls item) :
    NoControls (Layout.compact.enclose depth left right items) := by
  have hcomma : NoControls [Ascii.comma] := by decide
  have hbody := noControls_flatten_intersperse hcomma hitems
  unfold Layout.enclose
  split
  · exact noControls_cons.2 ⟨hleft, List.forall_mem_singleton.2 hright⟩
  · simp only [Layout.lineBreak, List.append_nil]
    refine noControls_append.2 ⟨noControls_cons.2 ⟨hleft, hbody⟩, ?_⟩
    exact List.forall_mem_singleton.2 hright

/-! ### Values -/

theorem printItems_eq_map (layout : Layout) (depth : Nat) (items : List Json) :
    printItems layout depth items = items.map (printAt layout depth) := by
  induction items with
  | nil => rfl
  | cons v items ih => rw [printItems, ih, List.map_cons]

theorem printMembers_eq_mapValues (layout : Layout) (depth : Nat) (members : Members) :
    printMembers layout depth members = mapValues (printAt layout depth) members := by
  induction members with
  | nil => rfl
  | cons m members ih =>
    rw [printMembers, ih]
    rfl

theorem noControls_printAt (v : Json) : ∀ depth, NoControls (printAt .compact depth v) := by
  induction v using forall_of_parts with
  | null =>
    intro depth
    rw [printAt]
    decide
  | bool b =>
    intro depth
    cases b <;> rw [printAt] <;> decide
  | int n =>
    intro depth
    rw [printAt]
    exact Bytes.noControls_ofInt n
  | float x =>
    intro depth
    rw [printAt]
    exact noControls_quoted _
  | str s =>
    intro depth
    rw [printAt]
    exact noControls_quoted s
  | arr items ih =>
    intro depth
    rw [printAt, printItems_eq_map]
    refine noControls_enclose (by decide) (by decide) (List.forall_mem_map.2 ?_)
    exact fun v hv => ih v hv (depth + 1)
  | obj members ih =>
    intro depth
    rw [printAt, printMembers_eq_mapValues]
    refine noControls_enclose (by decide) (by decide) (List.forall_mem_map.2 ?_)
    intro m hm
    obtain ⟨n, hn, rfl⟩ := List.mem_map.1 (mem_sortMembers hm)
    have hcolon : NoControls Layout.compact.colon := by decide
    have hkey := noControls_append.2 ⟨noControls_quoted n.1, hcolon⟩
    exact noControls_append.2 ⟨hkey, ih n hn (depth + 1)⟩

/-- **A value in the compact layout has no control characters.** -/
theorem noControls_print (v : Json) : NoControls (v.print .compact) := noControls_printAt v 0

end Json

end PlaceFeed
