import PlaceFeed.Proofs.Characters
import Mathlib.Data.List.SplitBy

/-!
# Encoded texts

Bytes are read in three ways: from the front by the length that the first byte of a character
announces (`Utf8.characters`), as groups of a byte with the continuations after it
(`Utf8.groups`, for reading from the back), and by counting the bytes that are no continuation
(`Utf8.truncate`).  On the bytes of whole characters, one after the other, all three see the same
characters (`Utf8.characters_flatten`, `Utf8.groups_flatten`, `Utf8.truncate_flatten`).

* `Scalars.isValid_iff` : **a text is well-formed exactly when it encodes scalar values**;
* `Scalars.encode_injective` : and then it encodes one list of them;
* `Scalars.truncate_encode` : cutting the bytes is cutting the list.
-/

namespace PlaceFeed

namespace Utf8

variable {ps : List Bytes}

/-! ### Cutting -/

theorem characters_append_of_form {p : Bytes} (hp : Form p) (text : Bytes) :
    characters (p ++ text) = p :: characters text := by
  obtain ⟨a, s, rfl⟩ := List.exists_cons_of_ne_nil hp.ne_nil
  have hlen : charLength a - 1 = s.length := by rw [hp.charLength_eq]; rfl
  rw [List.cons_append, characters_cons, hlen, List.take_left, List.drop_left]

theorem characters_of_form {p : Bytes} (hp : Form p) : characters p = [p] := by
  have := characters_append_of_form hp []
  rwa [List.append_nil, characters_nil] at this

theorem characters_flatten (h : ∀ p ∈ ps, Form p) : characters ps.flatten = ps := by
  induction ps with
  | nil => rfl
  | cons p ps ih =>
    obtain ⟨hp, hps⟩ := List.forall_mem_cons.1 h
    rw [List.flatten_cons, characters_append_of_form hp, ih hps]

theorem isChain_of_form {p : Bytes} (h : Form p) :
    p.IsChain fun _ b => isContinuation b = true := by
  obtain ⟨a, s, rfl⟩ := List.exists_cons_of_ne_nil h.ne_nil
  have hs := h.isContinuation_tail
  clear h
  induction s generalizing a with
  | nil => exact .singleton a
  | cons b s ih =>
    obtain ⟨hb, hs⟩ := List.forall_mem_cons.1 hs
    exact .cons_cons hb (ih b hs)

theorem groups_flatten (h : ∀ p ∈ ps, Form p) : groups ps.flatten = ps := by
  -- inside a character every byte continues it, and the first byte of the next one does not
  have hne : [] ∉ ps := by
    intro hnil
    exact (h [] hnil).ne_nil rfl
  refine List.splitBy_flatten hne (fun p hp => isChain_of_form (h p hp)) ?_
  clear hne
  induction ps with
  | nil => exact .nil
  | cons p ps ih =>
    obtain ⟨hp, hps⟩ := List.forall_mem_cons.1 h
    refine List.isChain_cons.2 ⟨?_, ih hps⟩
    intro q hq
    have hq := hps q (List.mem_of_mem_head? hq)
    obtain ⟨a, s, rfl⟩ := List.exists_cons_of_ne_nil hq.ne_nil
    exact ⟨hp.ne_nil, hq.ne_nil, hq.isContinuation_head⟩

/-! ### Truncating -/

theorem truncate_append_of_continuation (n : Nat) {s : Bytes}
    (hs : ∀ b ∈ s, isContinuation b = true) (text : Bytes) :
    truncate n (s ++ text) = s ++ truncate n text := by
  induction s with
  | nil => rfl
  | cons b s ih =>
    obtain ⟨hb, hs⟩ := List.forall_mem_cons.1 hs
    cases n with
    | zero => rw [List.cons_append, truncate_zero_cons, if_pos hb, ih hs, List.cons_append]
    | succ n => rw [List.cons_append, truncate_succ_cons, if_pos hb, ih hs, List.cons_append]

theorem truncate_zero_append_of_form {p : Bytes} (hp : Form p) (text : Bytes) :
    truncate 0 (p ++ text) = [] := by
  obtain ⟨a, s, rfl⟩ := List.exists_cons_of_ne_nil hp.ne_nil
  rw [List.cons_append, truncate_zero_cons, hp.isContinuation_head]
  rfl

theorem truncate_succ_append_of_form (n : Nat) {p : Bytes} (hp : Form p) (text : Bytes) :
    truncate (n + 1) (p ++ text) = p ++ truncate n text := by
  obtain ⟨a, s, rfl⟩ := List.exists_cons_of_ne_nil hp.ne_nil
  rw [List.cons_append, truncate_succ_cons, hp.isContinuation_head]
  rw [if_neg Bool.false_ne_true, truncate_append_of_continuation n hp.isContinuation_tail]
  rfl

theorem truncate_flatten (n : Nat) (h : ∀ p ∈ ps, Form p) :
    truncate n ps.flatten = (ps.take n).flatten := by
  induction ps generalizing n with
  | nil => simp
  | cons p ps ih =>
    obtain ⟨hp, hps⟩ := List.forall_mem_cons.1 h
    cases n with
    | zero => rw [List.flatten_cons, truncate_zero_append_of_form hp]; rfl
    | succ n => rw [List.flatten_cons, truncate_succ_append_of_form n hp, ih n hps]; rfl

end Utf8

/-! ### Encodings -/

namespace Scalars

open Utf8

@[simp] theorem encode_nil : encode [] = [] := rfl

theorem encode_append (cs ds : List Char) : encode (cs ++ ds) = encode cs ++ encode ds :=
  List.flatMap_append

theorem encode_eq_flatten (cs : List Char) :
    encode cs = (cs.map String.utf8EncodeChar).flatten := rfl

theorem form_of_mem_map {cs : List Char} : ∀ p ∈ cs.map String.utf8EncodeChar, Form p := by
  intro p hp
  obtain ⟨c, -, rfl⟩ := List.mem_map.1 hp
  exact form_encodeChar c

theorem characters_encode (cs : List Char) :
    characters (encode cs) = cs.map String.utf8EncodeChar :=
  characters_flatten form_of_mem_map

theorem groups_encode (cs : List Char) : groups (encode cs) = cs.map String.utf8EncodeChar :=
  groups_flatten form_of_mem_map

theorem truncate_encode (n : Nat) (cs : List Char) :
    truncate n (encode cs) = encode (cs.take n) := by
  rw [encode_eq_flatten, truncate_flatten n form_of_mem_map, ← List.map_take, encode_eq_flatten]

theorem isValid_encode (cs : List Char) : isValid (encode cs) = true := by
  rw [isValid, characters_encode, List.all_eq_true]
  intro p hp
  exact isCharacter_iff.2 (form_of_mem_map p hp)

/-- Characters one after the other are the encoding of some scalar values. -/
theorem exists_encode_flatten {ps : List Bytes} (h : ∀ p ∈ ps, Form p) :
    ∃ cs, encode cs = ps.flatten := by
  induction ps with
  | nil => exact ⟨[], rfl⟩
  | cons p ps ih =>
    obtain ⟨hp, hps⟩ := List.forall_mem_cons.1 h
    obtain ⟨c, rfl⟩ := hp.exists_encodeChar
    obtain ⟨cs, hcs⟩ := ih hps
    exact ⟨c :: cs, by rw [List.flatten_cons, ← hcs]; rfl⟩

theorem exists_encode_of_isValid {text : Bytes} (h : isValid text = true) :
    ∃ cs, encode cs = text := by
  have hform : ∀ p ∈ characters text, Form p := by
    intro p hp
    exact isCharacter_iff.1 (List.all_eq_true.1 h p hp)
  obtain ⟨cs, hcs⟩ := exists_encode_flatten hform
  exact ⟨cs, hcs.trans (flatten_characters text)⟩

/-- **The well-formed texts are the encodings** of scalar values. -/
theorem isValid_iff {text : Bytes} : isValid text = true ↔ ∃ cs, encode cs = text := by
  refine ⟨exists_encode_of_isValid, ?_⟩
  rintro ⟨cs, rfl⟩
  exact isValid_encode cs

theorem encode_injective : Function.Injective encode := by
  intro cs ds h
  have := congrArg characters h
  rw [characters_encode, characters_encode] at this
  exact List.map_injective_iff.2 encodeChar_injective this

end Scalars

end PlaceFeed
