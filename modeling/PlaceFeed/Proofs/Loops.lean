import PlaceFeed.Proofs.IllFormed
import Mathlib.Logic.Relation

/-!
# Loops over positions

The texts of this library are cut into pieces, and nothing in it speaks of positions.  A program
that holds a text as an array goes through it by positions and reads it byte by byte, and then it
matters that no byte is asked for where there is none.  This file has such loops.  A `Loop` is given
by its turns.  A turn sees the bytes of a text through `text[i]?` only, so it has no result when it
reads outside of the text; the loop is then stuck, and neither goes on nor ends.

* `Loop.Runs` : the loop ends with an answer, and no turn fails on the way;
* `Loop.Runs.isSome_of_visits` : so **every turn of a loop that runs has a result**;
* `Utf8.runs_test` : the test of a text by positions runs, on any bytes, and its answer is
  `Utf8.isValid`.
-/

namespace PlaceFeed

/-- How a turn ends: the loop goes on from another state, or it is over, with an answer. -/
inductive Turn (σ α : Type)
  | next (state : σ)
  | done (answer : α)

/-- A loop, by its turns.  A turn that reads outside of a text has no result. -/
abbrev Loop (σ α : Type) := σ → Option (Turn σ α)

namespace Loop

variable {σ α : Type} {loop : Loop σ α} {s t : σ} {a : α}

/-- From a state on the loop ends with an answer, and no turn fails on the way. -/
inductive Runs (loop : Loop σ α) : σ → α → Prop
  | done {s : σ} {a : α} (h : loop s = some (.done a)) : Runs loop s a
  | next {s t : σ} {a : α} (h : loop s = some (.next t)) (hrun : Runs loop t a) : Runs loop s a

/-- The loop comes from one state to another. -/
def Visits (loop : Loop σ α) : σ → σ → Prop :=
  Relation.ReflTransGen fun s t => loop s = some (.next t)

theorem Runs.of_next (h : loop.Runs s a) (hnext : loop s = some (.next t)) : loop.Runs t a := by
  cases h with
  | done hdone => cases hdone.symm.trans hnext
  | next hother hrun =>
    cases hother.symm.trans hnext
    exact hrun

/-- A loop that runs still does so later. -/
theorem Runs.of_visits (h : loop.Runs s a) (hvisits : loop.Visits s t) : loop.Runs t a := by
  induction hvisits with
  | refl => exact h
  | tail _ hnext ih => exact ih.of_next hnext

theorem Runs.isSome (h : loop.Runs s a) : (loop s).isSome = true := by
  cases h with
  | done hdone => rw [hdone]; rfl
  | next hnext => rw [hnext]; rfl

/-- Along a loop that runs, every turn has a result. -/
theorem Runs.isSome_of_visits (h : loop.Runs s a) (hvisits : loop.Visits s t) :
    (loop t).isSome = true :=
  (h.of_visits hvisits).isSome

end Loop

/-! ### Reading -/

namespace Bytes

/-- Some bytes from a position on, read one after the other. -/
def readFrom (text : Bytes) (i : Nat) : (n : Nat) → Option Bytes
  | 0 => some []
  | n + 1 => do
    let b ← text[i]?
    let s ← readFrom text (i + 1) n
    return b :: s

theorem getElem?_append_length (before : Bytes) (b : UInt8) (after : Bytes) :
    (before ++ b :: after)[before.length]? = some b := by
  simp

theorem readFrom_append (before s after : Bytes) :
    readFrom (before ++ (s ++ after)) before.length s.length = some s := by
  induction s generalizing before with
  | nil => rfl
  | cons b s ih =>
    have := ih (before ++ [b])
    rw [List.append_assoc, List.length_append, List.length_singleton] at this
    rw [List.length_cons, readFrom, List.cons_append, getElem?_append_length]
    exact congrArg (Option.bind · fun s => some (b :: s)) this

end Bytes

namespace Utf8

open Bytes (readFrom readFrom_append getElem?_append_length)

/-! ### Testing a text -/

/-- The length that the first byte of a character of many bytes announces.  The bytes that are in
no encoding are left out. -/
def lead? (a : UInt8) : Option Nat :=
  if 0xC2 ≤ a ∧ a ≤ 0xDF then some 2
  else if 0xE0 ≤ a ∧ a ≤ 0xEF then some 3
  else if 0xF0 ≤ a ∧ a ≤ 0xF4 then some 4
  else none

/-- Some bytes from a position on are continuation bytes.  The first that is none is the last to be
read. -/
def continuesAt (text : Bytes) (i : Nat) : (n : Nat) → Option Bool
  | 0 => some true
  | n + 1 => do
    let b ← text[i]?
    if isContinuation b then continuesAt text (i + 1) n else return false

/-- The code is not that of a character with this many bytes. -/
def isBadCode (n code : Nat) : Bool :=
  code < leastCode n || (0xD800 ≤ code && code ≤ 0xDFFF) || 0x10FFFF < code

/-- A turn of the test, at the position where a character should start. -/
def test (text : Bytes) : Loop Nat Bool := fun i => do
  if text.length ≤ i then return .done true
  let a ← text[i]?
  if a < 0x80 then return .next (i + 1)
  match lead? a with
  | none => return .done false
  | some n =>
    if text.length - i < n then return .done false
    if !(← continuesAt text (i + 1) (n - 1)) then return .done false
    if isBadCode n (code (← readFrom text i n)) then return .done false
    return .next (i + n)

variable {a : UInt8} {s : Bytes}

theorem lead?_eq_some {n : Nat} (h : lead? a = some n) :
    charLength a = n ∧ 2 ≤ n ∧ ¬(a = 0xC0 ∨ a = 0xC1 ∨ 0xF5 ≤ a) := by
  have hcases := charLength_cases a
  simp only [← UInt8.toNat_inj, UInt8.le_iff_toNat_le, UInt8.reduceToNat]
  simp only [lead?, UInt8.le_iff_toNat_le, UInt8.reduceToNat] at h
  split_ifs at h <;> cases h <;> omega

theorem Form.lead?_eq (h : Form (a :: s)) (ha : ¬a < 0x80) : lead? a = some (charLength a) := by
  have hlength := h.charLength_eq
  simp only [UInt8.lt_iff_toNat_lt, UInt8.reduceToNat] at ha
  simp only [lead?, UInt8.le_iff_toNat_le, UInt8.reduceToNat]
  cases h with
  | one h => exact absurd h ha
  | two h => rw [if_pos h, hlength]; rfl
  | three h => rw [if_neg (by omega), if_pos h, hlength]; rfl
  | four h => rw [if_neg (by omega), if_neg (by omega), if_pos h, hlength]; rfl

theorem continuesAt_append (before s after : Bytes) :
    continuesAt (before ++ (s ++ after)) before.length s.length = some (s.all isContinuation) := by
  induction s generalizing before with
  | nil => rfl
  | cons b s ih =>
    have := ih (before ++ [b])
    rw [List.append_assoc, List.length_append, List.length_singleton] at this
    rw [List.length_cons, continuesAt, List.cons_append, getElem?_append_length]
    cases hb : isContinuation b with
    | true => simpa [hb] using this
    | false => simp [hb]

/-- With a first byte and enough continuation bytes after it, the code decides. -/
theorem isBadCode_eq_false_iff (hlead : lead? a = some (s.length + 1))
    (hs : ∀ b ∈ s, isContinuation b = true) :
    isBadCode (s.length + 1) (code (a :: s)) = false ↔ Form (a :: s) := by
  obtain ⟨hlength, htwo, hfirst⟩ := lead?_eq_some hlead
  simp only [isBadCode, Bool.or_eq_false_iff, Bool.and_eq_false_iff, decide_eq_false_iff_not]
  constructor
  · rintro ⟨⟨hleast, hsurrogate⟩, hgreat⟩
    have hpattern : IsPattern (a :: s) := .intro (by omega) hlength hs
    exact hpattern.form hfirst (Nat.le_of_not_lt hleast) (by omega) (Nat.le_of_not_lt hgreat)
  · intro hform
    have hleast : leastCode (s.length + 1) ≤ code (a :: s) := hform.leastCode_le
    have hvalid := hform.isValidChar
    unfold Nat.isValidChar at hvalid
    omega

theorem charLength_of_lt (ha : a < 0x80) : charLength a = 1 := by
  rw [charLength, if_pos ha]

/-- With a first byte and enough bytes after it, the test goes on when they are a character. -/
theorem test_of_lead (before after : Bytes) (ha : ¬a < 0x80)
    (hlead : lead? a = some (s.length + 1)) :
    test (before ++ a :: (s ++ after)) before.length =
      some (if isCharacter (a :: s) then .next (before.length + (s.length + 1))
        else .done false) := by
  have hcontinues := continuesAt_append (before ++ [a]) s after
  have hread := readFrom_append before (a :: s) after
  rw [List.append_assoc, List.singleton_append, List.length_append, List.length_singleton]
    at hcontinues
  rw [List.cons_append, List.length_cons] at hread
  have hstart : ¬(before ++ a :: (s ++ after)).length ≤ before.length := by simp
  have henough : ¬(before ++ a :: (s ++ after)).length - before.length < s.length + 1 := by
    simp
  simp only [test, hstart, henough, getElem?_append_length, ha, hlead, hcontinues, hread,
    Nat.add_sub_cancel, ↓reduceIte, Option.bind_eq_bind, Option.bind_some]
  cases hs : s.all isContinuation with
  | false =>
    have hnone : isCharacter (a :: s) = false := by
      rw [Bool.eq_false_iff, Ne, isCharacter_iff]
      intro hform
      rw [List.all_eq_true.2 hform.isContinuation_tail] at hs
      cases hs
    simp [hnone]
  | true =>
    have hcode := isBadCode_eq_false_iff hlead (List.all_eq_true.1 hs)
    rw [← isCharacter_iff] at hcode
    cases hbad : isBadCode (s.length + 1) (code (a :: s)) <;> simp_all

/-- **A turn of the test**: it goes on behind the next character, or the text is ill-formed. -/
theorem test_cons (before : Bytes) (a : UInt8) (text : Bytes) :
    test (before ++ a :: text) before.length =
      some (if isCharacter (a :: text.take (charLength a - 1))
        then .next (before.length + charLength a) else .done false) := by
  have hstart : ¬(before ++ a :: text).length ≤ before.length := by simp
  by_cases ha : a < 0x80
  · rw [charLength_of_lt ha]
    simp [test, ha, isCharacter]
  cases hlead : lead? a with
  | none =>
    have hnone : isCharacter (a :: text.take (charLength a - 1)) = false := by
      rw [Bool.eq_false_iff, Ne, isCharacter_iff]
      intro hform
      cases hlead.symm.trans (hform.lead?_eq ha)
    simp [test, ha, hlead, hnone]
  | some n =>
    obtain ⟨hn, htwo, -⟩ := lead?_eq_some hlead
    by_cases hshort : text.length + 1 < n
    · have hnone : isCharacter (a :: text.take (charLength a - 1)) = false := by
        rw [Bool.eq_false_iff, Ne, isCharacter_iff]
        intro hform
        have := hform.charLength_eq
        rw [List.length_take] at this
        omega
      have hleft : (before ++ a :: text).length - before.length < n := by simpa using hshort
      simp only [test, hstart, hleft, getElem?_append_length, ha, hlead, hnone, ↓reduceIte,
        Option.bind_eq_bind, Option.bind_some, Bool.false_eq_true, pure]
    · have hlength : (text.take (n - 1)).length + 1 = n := by
        rw [List.length_take]
        omega
      have hturn := test_of_lead before (text.drop (n - 1)) ha (hlead.trans (by rw [hlength]))
      rw [List.take_append_drop, hlength] at hturn
      rw [hturn, hn]

theorem isValid_cons (a : UInt8) (text : Bytes) :
    isValid (a :: text) = (isCharacter (a :: text.take (charLength a - 1)) &&
      isValid (text.drop (charLength a - 1))) := by
  rw [isValid, characters_cons, List.all_cons, isValid]

theorem append_piece (before : Bytes) (a : UInt8) (text : Bytes) (n : Nat) :
    (before ++ a :: text.take n) ++ text.drop n = before ++ a :: text := by
  rw [List.append_assoc, List.cons_append, List.take_append_drop]

/-- A loop that goes forwards takes one piece of the text after the other. -/
theorem piece_induction {motive : Bytes → Prop} (nil : motive [])
    (cons : ∀ a text, motive (text.drop (charLength a - 1)) → motive (a :: text))
    (text : Bytes) : motive text := by
  induction hn : text.length using Nat.strong_induction_on generalizing text with
  | _ n ih =>
    cases text with
    | nil => exact nil
    | cons a text =>
      have hlt : (text.drop (charLength a - 1)).length < n := by
        rw [List.length_drop, ← hn, List.length_cons]
        omega
      exact cons a text (ih _ hlt _ rfl)

theorem runs_test_append (before text : Bytes) :
    (test (before ++ text)).Runs before.length (isValid text) := by
  induction text using piece_induction generalizing before with
  | nil => exact .done (by simp [test]; rfl)
  | cons a text ih =>
    have hturn := test_cons before a text
    rw [isValid_cons]
    cases hp : isCharacter (a :: text.take (charLength a - 1)) with
    | false =>
      rw [hp] at hturn
      exact .done hturn
    | true =>
      rw [hp] at hturn
      refine .next hturn ?_
      have hlength := (isCharacter_iff.1 hp).charLength_eq
      have hrest := ih (before ++ a :: text.take (charLength a - 1))
      rw [append_piece, List.length_append, List.length_cons, ← hlength] at hrest
      exact hrest

/-- **The test by positions runs on any bytes**, and its answer is that of `isValid`. -/
theorem runs_test (text : Bytes) : (test text).Runs 0 (isValid text) := runs_test_append [] text

end Utf8

end PlaceFeed
