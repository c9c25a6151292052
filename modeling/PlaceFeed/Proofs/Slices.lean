import PlaceFeed.Proofs.Loops
import PlaceFeed.Proofs.Trimming

/-!
# Trimming any bytes

On an ill-formed text the two passes of trimming need not agree on where a character starts, and
the second one moves the end that the first one tested lengths against.  Trimming is stable all the
same.  A piece at the start is tested by its own bytes, so that a prefix of a text that begins with
no space begins with none either (`WhiteSpace.NoSpaceAhead.of_isPrefix`): what the second pass takes
away can cut the first piece short, but not make a space of it.  And the groups of what the second
pass leaves are the groups that it left (`Utf8.groups_flatten_of_isPrefix`).

* `WhiteSpace.exists_runs_trim` : both passes as loops over positions, which run on any bytes;
* `WhiteSpace.trim_stable` : **trimming leaves a slice of any bytes, and twice is once**.
-/

namespace PlaceFeed

/-! ### Groups -/

namespace Utf8

variable {text : Bytes} {gs : List Bytes}

theorem isContinuation_of_isChain {a : UInt8} {s : Bytes}
    (h : (a :: s).IsChain fun _ b => isContinuation b = true) :
    ∀ b ∈ s, isContinuation b = true := by
  induction s generalizing a with
  | nil => exact List.forall_mem_nil _
  | cons b s ih =>
    obtain ⟨hb, hs⟩ := List.isChain_cons_cons.1 h
    exact List.forall_mem_cons.2 ⟨hb, ih hs⟩

/-- Every group but the first starts with a byte that is no continuation. -/
theorem isChain_groups (text : Bytes) :
    (groups text).IsChain fun g g' => ∃ (_ : g ≠ []) (hg' : g' ≠ []),
      isContinuation (g'.head hg') = false :=
  List.isChain_getLast_head_splitBy (fun _ b => isContinuation b) text

/-- The first groups of a text are the groups of the text that they make up. -/
theorem groups_flatten_of_isPrefix (h : gs <+: groups text) : groups gs.flatten = gs := by
  refine List.splitBy_flatten ?_ ?_ ?_
  · exact fun hnil => List.nil_notMem_splitBy _ text (h.subset hnil)
  · exact fun g hg => List.isChain_of_mem_splitBy (h.subset hg)
  · exact List.IsChain.prefix (isChain_groups text) h

/-- The last group of a text: a byte, and the continuation bytes after it. -/
theorem exists_last_group (hne : text ≠ []) :
    ∃ front a s, text = front ++ a :: s ∧ groups text = groups front ++ [a :: s] ∧
      (∀ b ∈ s, isContinuation b = true) ∧ (front = [] ∨ isContinuation a = false) := by
  obtain hnil | ⟨gs, g, hgs⟩ := List.eq_nil_or_concat' (groups text)
  · exact absurd (List.splitBy_eq_nil.1 hnil) hne
  have hflatten : text = gs.flatten ++ g := by
    rw [← List.flatten_splitBy _ text]
    exact (congrArg List.flatten hgs).trans (List.flatten_concat ..)
  have hprefix : gs <+: groups text := hgs ▸ List.prefix_append gs [g]
  have hg : g ∈ groups text := by rw [hgs]; simp
  obtain ⟨a, s, rfl⟩ := List.exists_cons_of_ne_nil (List.ne_nil_of_mem_splitBy hg)
  refine ⟨gs.flatten, a, s, hflatten, ?_, ?_, ?_⟩
  · rw [groups_flatten_of_isPrefix hprefix, hgs]
  · exact isContinuation_of_isChain (List.isChain_of_mem_splitBy hg)
  · cases hlast : gs.getLast? with
    | none => exact .inl (by rw [List.getLast?_eq_none_iff.1 hlast]; rfl)
    | some g =>
      have hchain := isChain_groups text
      rw [hgs] at hchain
      obtain ⟨_, _, ha⟩ := (List.isChain_append.1 hchain).2.2 g hlast (a :: s) rfl
      exact .inr ha

/-- A loop that goes backwards takes one group of the text after the other. -/
theorem group_induction {motive : Bytes → Prop} (nil : motive [])
    (concat : ∀ front a s, groups (front ++ a :: s) = groups front ++ [a :: s] →
      (∀ b ∈ s, isContinuation b = true) → (front = [] ∨ isContinuation a = false) →
      motive front → motive (front ++ a :: s))
    (text : Bytes) : motive text := by
  induction hn : text.length using Nat.strong_induction_on generalizing text with
  | _ n ih =>
    by_cases hne : text = []
    · exact hne ▸ nil
    · obtain ⟨front, a, s, rfl, hgroups, hs, hfirst⟩ := exists_last_group hne
      have hlt : front.length < n := by
        rw [← hn, List.length_append, List.length_cons]
        omega
      exact concat front a s hgroups hs hfirst (ih _ hlt _ rfl)

end Utf8

namespace WhiteSpace

open Utf8
open Bytes (readFrom readFrom_append getElem?_append_length)

variable {text p : Bytes} {a : UInt8}

/-! ### The start -/

theorem trimStart_cons (a : UInt8) (text : Bytes) :
    trimStart (a :: text) =
      if isSpaceCharacter (a :: text.take (charLength a - 1))
      then trimStart (text.drop (charLength a - 1)) else a :: text := by
  rw [trimStart, characters_cons, List.dropWhile_cons]
  split
  · rw [trimStart]
  · rw [← characters_cons, flatten_characters]

/-- The first piece of the text is no space. -/
def NoSpaceAhead (text : Bytes) : Prop := ∀ p ∈ (characters text).head?, isSpaceCharacter p = false

theorem noSpaceAhead_cons :
    NoSpaceAhead (a :: text) ↔ isSpaceCharacter (a :: text.take (charLength a - 1)) = false := by
  rw [NoSpaceAhead, characters_cons]
  simp

theorem NoSpaceAhead.trimStart_eq (h : NoSpaceAhead text) : trimStart text = text := by
  cases text with
  | nil => rfl
  | cons a text => rw [trimStart_cons, noSpaceAhead_cons.1 h]; rfl

/-- A piece with all of its bytes is a space by its code. -/
theorem isSpaceCharacter_of_length {s : Bytes} (h : charLength a = (a :: s).length) :
    isSpaceCharacter (a :: s) = isSpace (code (a :: s)) := by
  rw [isSpaceCharacter, h, beq_self_eq_true, Bool.true_and]

/-- A piece that lacks bytes, or has too many, is no space. -/
theorem isSpaceCharacter_of_length_ne {s : Bytes} (h : charLength a ≠ (a :: s).length) :
    isSpaceCharacter (a :: s) = false := by
  rw [isSpaceCharacter, beq_false_of_ne h, Bool.false_and]

theorem length_of_isSpaceCharacter {s : Bytes} (h : isSpaceCharacter (a :: s) = true) :
    charLength a = (a :: s).length := by
  by_contra hne
  rw [isSpaceCharacter_of_length_ne hne] at h
  cases h

/-- What is taken away behind it makes no space of the first piece. -/
theorem NoSpaceAhead.of_isPrefix (h : NoSpaceAhead text) (hp : p <+: text) : NoSpaceAhead p := by
  cases p with
  | nil => simp [NoSpaceAhead]
  | cons a p =>
    obtain ⟨rest, rfl⟩ := hp
    rw [List.cons_append, noSpaceAhead_cons] at h
    rw [noSpaceAhead_cons, Bool.eq_false_iff]
    intro hspace
    -- a piece that is a space is not cut short, so that it is the first piece of the whole text
    have hlength := length_of_isSpaceCharacter hspace
    rw [List.length_cons, List.length_take] at hlength
    rw [List.take_append_of_le_length (by omega), hspace] at h
    cases h

/-- A turn of the first pass, over the piece at the position. -/
def skipStart (text : Bytes) : Loop Nat Nat := fun i => do
  if text.length ≤ i then return .done i
  let n := charLength (← text[i]?)
  if text.length < i + n then return .done i
  if isSpace (code (← readFrom text i n)) then return .next (i + n) else return .done i

theorem charLength_pos (a : UInt8) : 0 < charLength a := by
  have := charLength_cases a
  omega

theorem skipStart_cons (before : Bytes) (a : UInt8) (text : Bytes) :
    skipStart (before ++ a :: text) before.length =
      some (if isSpaceCharacter (a :: text.take (charLength a - 1))
        then .next (before.length + charLength a) else .done before.length) := by
  have hpos := charLength_pos a
  have hstart : ¬(before ++ a :: text).length ≤ before.length := by simp
  have htake : (a :: text.take (charLength a - 1)).length =
      min (charLength a) (text.length + 1) := by
    rw [List.length_cons, List.length_take]
    omega
  by_cases hshort : text.length + 1 < charLength a
  · have hleft : (before ++ a :: text).length < before.length + charLength a := by
      simpa using hshort
    have hnone : isSpaceCharacter (a :: text.take (charLength a - 1)) = false :=
      isSpaceCharacter_of_length_ne (by omega)
    simp only [skipStart, hstart, hleft, hnone, getElem?_append_length, ↓reduceIte,
      Option.bind_eq_bind, Option.bind_some, Bool.false_eq_true, pure]
  · have henough : ¬(before ++ a :: text).length < before.length + charLength a := by
      simpa using hshort
    have hlength : charLength a = (a :: text.take (charLength a - 1)).length := by omega
    have hread := readFrom_append before (a :: text.take (charLength a - 1))
      (text.drop (charLength a - 1))
    rw [← hlength, List.cons_append, List.take_append_drop] at hread
    simp only [skipStart, hstart, henough, hread, isSpaceCharacter_of_length hlength,
      getElem?_append_length, ↓reduceIte, Option.bind_eq_bind, Option.bind_some, pure]
    split <;> rfl

/-- The first pass stops where `trimStart` does, before no space. -/
theorem runs_skipStart_append (before text : Bytes) :
    ∃ spaces, text = spaces ++ trimStart text ∧ NoSpaceAhead (trimStart text) ∧
      (skipStart (before ++ text)).Runs before.length (before.length + spaces.length) := by
  induction text using piece_induction generalizing before with
  | nil => exact ⟨[], rfl, by simp [NoSpaceAhead, trimStart], .done (by simp [skipStart])⟩
  | cons a text ih =>
    have hturn := skipStart_cons before a text
    rw [trimStart_cons]
    cases hp : isSpaceCharacter (a :: text.take (charLength a - 1)) with
    | false =>
      rw [hp] at hturn
      exact ⟨[], rfl, noSpaceAhead_cons.2 hp, .done hturn⟩
    | true =>
      rw [hp] at hturn
      have hlength := length_of_isSpaceCharacter hp
      obtain ⟨spaces, hsplit, hahead, hrest⟩ := ih (before ++ a :: text.take (charLength a - 1))
      refine ⟨a :: text.take (charLength a - 1) ++ spaces, ?_, hahead, .next hturn ?_⟩
      · rw [if_pos rfl, List.append_assoc, ← hsplit, List.cons_append, List.take_append_drop]
      · rw [append_piece, List.length_append, ← hlength] at hrest
        rw [List.length_append, ← hlength, ← Nat.add_assoc]
        exact hrest

/-! ### The end -/

/-- Where the group of bytes starts that a position is in, not counting what is before `start`. -/
def groupStart (text : Bytes) (start : Nat) : (i : Nat) → Option Nat
  | 0 => some 0
  | i + 1 => do
    if i + 1 ≤ start then return i + 1
    if isContinuation (← text[i + 1]?) then groupStart text start i else return i + 1

/-- A turn of the second pass, over the group before the position. -/
def skipEnd (text : Bytes) (start : Nat) : Loop Nat Nat := fun stop => do
  if stop ≤ start then return .done stop
  let i ← groupStart text start (stop - 1)
  if charLength (← text[i]?) ≠ stop - i then return .done stop
  if isSpace (code (← readFrom text i (stop - i))) then return .next i else return .done stop

theorem groupStart_append {before s after : Bytes} {start : Nat}
    (hs : ∀ b ∈ s, isContinuation b = true)
    (hfirst : before.length = start ∨ start < before.length ∧ isContinuation a = false) :
    groupStart (before ++ a :: (s ++ after)) start (before.length + s.length) =
      some before.length := by
  induction s using List.reverseRecOn generalizing after with
  | nil =>
    rw [List.length_nil, Nat.add_zero, List.nil_append]
    have hread := getElem?_append_length before a after
    cases hlength : before.length with
    | zero => rfl
    | succ i =>
      rw [hlength] at hread hfirst
      rw [groupStart]
      rcases hfirst with hstart | ⟨hstart, ha⟩
      · rw [if_pos hstart.le]
        rfl
      · rw [if_neg (by omega), hread, Option.bind_eq_bind, Option.bind_some, ha]
        rfl
  | append_singleton s b ih =>
    obtain ⟨hs, hb⟩ := List.forall_mem_append.1 hs
    have hread := getElem?_append_length (before ++ a :: s) b after
    rw [List.append_assoc, List.cons_append, List.length_append, List.length_cons,
      ← Nat.add_assoc] at hread
    rw [List.append_assoc, List.singleton_append, List.length_append, List.length_singleton,
      ← Nat.add_assoc, groupStart, if_neg (by omega), hread, Option.bind_eq_bind, Option.bind_some,
      hb b (List.mem_singleton_self b)]
    exact ih hs

theorem skipEnd_append (before front after : Bytes) {s : Bytes}
    (hs : ∀ b ∈ s, isContinuation b = true) (hfirst : front = [] ∨ isContinuation a = false) :
    skipEnd (before ++ (front ++ a :: s) ++ after) before.length
        (before.length + (front ++ a :: s).length) =
      some (if isSpaceCharacter (a :: s) then .next (before.length + front.length)
        else .done (before.length + (front ++ a :: s).length)) := by
  have hassoc : before ++ (front ++ a :: s) ++ after = (before ++ front) ++ a :: (s ++ after) := by
    simp
  have hgroup : groupStart ((before ++ front) ++ a :: (s ++ after)) before.length
      ((before ++ front).length + s.length) = some (before ++ front).length := by
    refine groupStart_append hs ?_
    cases front with
    | nil => exact .inl (by rw [List.append_nil])
    | cons b front =>
      refine .inr ⟨by simp, ?_⟩
      exact hfirst.resolve_left (List.cons_ne_nil b front)
  have hread := readFrom_append (before ++ front) (a :: s) after
  rw [List.cons_append] at hread
  have hstop : ¬before.length + (front ++ a :: s).length ≤ before.length := by
    rw [List.length_append, List.length_cons]
    omega
  have hlast : before.length + (front ++ a :: s).length - 1 =
      (before ++ front).length + s.length := by
    rw [List.length_append, List.length_append, List.length_cons]
    omega
  have hsize : before.length + (front ++ a :: s).length - (before ++ front).length =
      (a :: s).length := by
    rw [List.length_append, List.length_append, List.length_cons]
    omega
  have hfront : before.length + front.length = (before ++ front).length :=
    List.length_append.symm
  rw [hassoc, hfront]
  simp only [skipEnd, hstop, hlast, hgroup, hsize, hread, getElem?_append_length, ↓reduceIte,
    Option.bind_eq_bind, Option.bind_some]
  by_cases hlength : charLength a = (a :: s).length
  · rw [if_neg (not_not.2 hlength), isSpaceCharacter_of_length hlength]
    split <;> rfl
  · rw [if_pos hlength, isSpaceCharacter_of_length_ne hlength]
    rfl

theorem trimEnd_eq (text : Bytes) :
    trimEnd text = ((groups text).rdropWhile isSpaceCharacter).flatten := rfl

theorem trimEnd_of_last_group {front s : Bytes}
    (h : groups text = groups front ++ [a :: s]) :
    trimEnd text = if isSpaceCharacter (a :: s) then trimEnd front else text := by
  rw [trimEnd_eq, h, List.rdropWhile_concat]
  split
  · rw [trimEnd_eq]
  · rw [← h]
    exact List.flatten_splitBy _ text

theorem runs_skipEnd_append (before text after : Bytes) :
    ∃ spaces, text = trimEnd text ++ spaces ∧
      (skipEnd (before ++ text ++ after) before.length).Runs (before.length + text.length)
        (before.length + (trimEnd text).length) := by
  induction text using group_induction generalizing after with
  | nil => exact ⟨[], rfl, .done (by simp [skipEnd]; rfl)⟩
  | concat front a s hgroups hs hfirst ih =>
    have hturn := skipEnd_append before front after hs hfirst
    rw [trimEnd_of_last_group hgroups]
    cases hp : isSpaceCharacter (a :: s) with
    | false =>
      rw [hp] at hturn
      exact ⟨[], (List.append_nil _).symm, .done hturn⟩
    | true =>
      rw [hp] at hturn
      obtain ⟨spaces, hsplit, hrest⟩ := ih (a :: s ++ after)
      refine ⟨spaces ++ a :: s, ?_, .next hturn ?_⟩
      · rw [if_pos rfl, ← List.append_assoc, ← hsplit]
      · rw [← List.append_assoc, List.append_assoc before] at hrest
        exact hrest

/-! ### Both ends -/

theorem trimEnd_trimEnd (text : Bytes) : trimEnd (trimEnd text) = trimEnd text := by
  have hgroups := groups_flatten_of_isPrefix (List.rdropWhile_prefix isSpaceCharacter (groups text))
  rw [trimEnd_eq (trimEnd text), trimEnd_eq text, hgroups, List.rdropWhile_idempotent]

/-- **Both passes run on any bytes**, and what is between the positions where they stop is what
trimming leaves. -/
theorem exists_runs_trim (text : Bytes) :
    ∃ before after, text = before ++ trim text ++ after ∧
      (skipStart text).Runs 0 before.length ∧
      (skipEnd text before.length).Runs text.length (before.length + (trim text).length) := by
  obtain ⟨before, hstart, -, hrunsStart⟩ := runs_skipStart_append [] text
  obtain ⟨after, hend, hrunsEnd⟩ := runs_skipEnd_append before (trimStart text) []
  refine ⟨before, after, ?_, ?_, ?_⟩
  · rw [List.append_assoc, trim, ← hend, ← hstart]
  · simpa using hrunsStart
  · rw [List.append_nil, ← hstart, ← List.length_append, ← hstart] at hrunsEnd
    exact hrunsEnd

theorem trim_trim (text : Bytes) : trim (trim text) = trim text := by
  obtain ⟨-, -, hahead, -⟩ := runs_skipStart_append [] text
  obtain ⟨spaces, hsplit, -⟩ := runs_skipEnd_append [] (trimStart text) []
  have hprefix : trim text <+: trimStart text := ⟨spaces, hsplit.symm⟩
  calc
    trim (trim text) = trimEnd (trim text) := by
      rw [trim, (hahead.of_isPrefix hprefix).trimStart_eq]
    _ = trim text := trimEnd_trimEnd (trimStart text)

/-- **Trimming leaves a slice of any bytes, and twice is once.**  Both passes end, at the positions
between which is what they leave, and trimming that again takes nothing away. -/
theorem trim_stable (text : Bytes) :
    (∃ before after, text = before ++ trim text ++ after ∧
      (skipStart text).Runs 0 before.length ∧
      (skipEnd text before.length).Runs text.length (before.length + (trim text).length)) ∧
    trim (trim text) = trim text :=
  ⟨exists_runs_trim text, trim_trim text⟩

/-- From the start the text is one character, and from the end it is two, of which the last one is a
space.  What is left of the first one is cut short. -/
example : trim [0xE3, 0x80, 0x20] = [0xE3, 0x80] ∧ trim [0xE3, 0x80] = [0xE3, 0x80] := by decide

end WhiteSpace

end PlaceFeed
