import PlaceFeed.Bytes

/-!
# UTF-8 text

A byte string is read as UTF-8 in two ways, and both are defined on every byte string:

* `Utf8.characters` cuts it **forwards**, each piece as long as its first byte announces
  (`Utf8.charLength`); the last one may be cut short by the end;
* `Utf8.groups` cuts it **before every byte that is not a continuation byte**, which is how a
  reader that walks backwards finds the last character.

On well-formed text the two agree.  `Utf8.isValid` asks that every piece is a character of
RFC 3629 (`Utf8.isCharacter`): shortest form, no surrogate, nothing above U+10FFFF.
`Utf8.length` counts characters by their first bytes, and `Utf8.truncate` keeps the longest part
from the start that has at most a given number of them.
-/

namespace PlaceFeed

namespace Utf8

/-! ### Single bytes -/

/-- The length of the character that starts with this byte, and one for a byte that starts none. -/
def charLength (lead : UInt8) : Nat :=
  if lead < 0x80 then 1
  else if 0xC0 ≤ lead ∧ lead < 0xE0 then 2
  else if 0xE0 ≤ lead ∧ lead < 0xF0 then 3
  else if 0xF0 ≤ lead ∧ lead < 0xF8 then 4
  else 1

/-- A byte that continues a character. -/
def isContinuation (b : UInt8) : Bool := 0x80 ≤ b && b < 0xC0

/-! ### Characters -/

/-- The code that the bytes of one character stand for.  Neither the form nor the range is
checked. -/
def code : Bytes → Nat
  | [a] => a.toNat
  | [a, b] => a.toNat % 32 * 64 + b.toNat % 64
  | [a, b, c] => a.toNat % 16 * 4096 + b.toNat % 64 * 64 + c.toNat % 64
  | [a, b, c, d] =>
    a.toNat % 8 * 262144 + b.toNat % 64 * 4096 + c.toNat % 64 * 64 + d.toNat % 64
  | _ => 0

/-- The bytes are one character of RFC 3629. -/
def isCharacter : Bytes → Bool
  | [a] => a < 0x80
  | [a, b] => 0xC2 ≤ a && a ≤ 0xDF && isContinuation b
  | [a, b, c] =>
    0xE0 ≤ a && a ≤ 0xEF && isContinuation b && isContinuation c &&
      0x800 ≤ code [a, b, c] && !(0xD800 ≤ code [a, b, c] && code [a, b, c] ≤ 0xDFFF)
  | [a, b, c, d] =>
    0xF0 ≤ a && a ≤ 0xF4 && isContinuation b && isContinuation c && isContinuation d &&
      0x10000 ≤ code [a, b, c, d] && code [a, b, c, d] ≤ 0x10FFFF
  | _ => false

/-- The work of `characters` inside a piece that lacks `left` bytes.  The bytes that it has, and the
pieces already cut off, come last one first. -/
def charactersAux : (text : Bytes) → (left : Nat) → (piece : Bytes) → (done : List Bytes) →
    List Bytes
  | [], _, piece, done => (piece.reverse :: done).reverse
  | a :: s, 0, piece, done => charactersAux s (charLength a - 1) [a] (piece.reverse :: done)
  | a :: s, left + 1, piece, done => charactersAux s left (a :: piece) done

/-- The pieces of a text, each as long as its first byte announces, but for a last one that the
end of the text cuts short. -/
def characters : (text : Bytes) → List Bytes
  | [] => []
  | a :: s => charactersAux s (charLength a - 1) [a] []

/-- The pieces of a text, cut before every byte that is not a continuation byte. -/
def groups (text : Bytes) : List Bytes := text.splitBy fun _ b => isContinuation b

/-- The text is well-formed UTF-8. -/
def isValid (text : Bytes) : Bool := (characters text).all isCharacter

@[simp] theorem characters_nil : characters [] = [] := rfl

theorem charactersAux_done (text : Bytes) (left : Nat) (piece : Bytes) (done : List Bytes) :
    charactersAux text left piece done = done.reverse ++ charactersAux text left piece [] := by
  induction text generalizing left piece done with
  | nil => simp [charactersAux]
  | cons a s ih =>
    cases left with
    | zero =>
      rw [charactersAux, charactersAux, ih _ _ (_ :: done), ih _ _ [_]]
      simp
    | succ left =>
      rw [charactersAux, charactersAux, ih]

theorem charactersAux_eq (text : Bytes) (left : Nat) (piece : Bytes) :
    charactersAux text left piece [] =
      (piece.reverse ++ text.take left) :: characters (text.drop left) := by
  induction text generalizing left piece with
  | nil => simp [charactersAux]
  | cons a s ih =>
    cases left with
    | zero =>
      rw [charactersAux, charactersAux_done]
      simp [characters]
    | succ left =>
      rw [charactersAux, ih]
      simp

theorem characters_cons (a : UInt8) (s : Bytes) :
    characters (a :: s) =
      (a :: s.take (charLength a - 1)) :: characters (s.drop (charLength a - 1)) := by
  rw [characters, charactersAux_eq]
  rfl

theorem flatten_charactersAux (text : Bytes) (left : Nat) (piece : Bytes) (done : List Bytes) :
    (charactersAux text left piece done).flatten =
      done.reverse.flatten ++ piece.reverse ++ text := by
  fun_induction charactersAux text left piece done with
  | case1 left piece done => simp
  | case2 piece done a s ih => simp [ih]
  | case3 piece done a s left ih => simp [ih]

/-- Nothing is lost in cutting. -/
@[simp] theorem flatten_characters (text : Bytes) : (characters text).flatten = text := by
  cases text with
  | nil => rfl
  | cons a s => simp [characters, flatten_charactersAux]

/-! ### Counting and cutting -/

/-- The number of characters: the bytes that are not continuation bytes. -/
def length (text : Bytes) : Nat := text.countP (!isContinuation ·)

/-- The work of `truncate`, with the bytes already kept, last one first. -/
def truncateAux : (n : Nat) → (text : Bytes) → (kept : Bytes) → Bytes
  | _, [], kept => kept.reverse
  | 0, b :: s, kept => if isContinuation b then truncateAux 0 s (b :: kept) else kept.reverse
  | n + 1, b :: s, kept => truncateAux (if isContinuation b then n + 1 else n) s (b :: kept)

/-- The longest part from the start that has at most `n` characters. -/
def truncate (n : Nat) (text : Bytes) : Bytes := truncateAux n text []

theorem truncateAux_eq (n : Nat) (text kept : Bytes) :
    truncateAux n text kept = kept.reverse ++ truncate n text := by
  induction text generalizing n kept with
  | nil => simp [truncate, truncateAux]
  | cons b s ih =>
    cases n with
    | zero =>
      rw [truncate, truncateAux, truncateAux, ih 0 (b :: kept), ih 0 [b]]
      split <;> simp
    | succ n =>
      rw [truncate, truncateAux, truncateAux, ih _ (b :: kept), ih _ [b]]
      simp

@[simp] theorem truncate_nil (n : Nat) : truncate n [] = [] := by simp [truncate, truncateAux]

theorem truncate_zero_cons (b : UInt8) (s : Bytes) :
    truncate 0 (b :: s) = if isContinuation b then b :: truncate 0 s else [] := by
  rw [truncate, truncateAux, truncateAux_eq]
  rfl

theorem truncate_succ_cons (n : Nat) (b : UInt8) (s : Bytes) :
    truncate (n + 1) (b :: s) = b :: truncate (if isContinuation b then n + 1 else n) s := by
  rw [truncate, truncateAux, truncateAux_eq]
  rfl

end Utf8

end PlaceFeed
