import PlaceFeed.Text.Clean

/-!
# Texts as scalar values

A well-formed text stands for a list of Unicode scalar values, which are the values of `Char`.
`Scalars.encode` is the standard encoding, and cleaning is defined a second time, on characters
instead of bytes: `Scalars.clean`.  `Scalars.IsSafe` says which texts cleaning may leave behind.
-/

namespace PlaceFeed

namespace Scalars

/-- The UTF-8 encoding of some characters. -/
def encode (cs : List Char) : Bytes := cs.flatMap String.utf8EncodeChar

/-- The character has the Unicode property White_Space. -/
def isSpace (c : Char) : Bool := WhiteSpace.isSpace c.toNat

/-- Carriage return, the line and paragraph separators with the bidirectional embeddings after
them, and three combining marks. -/
def isInvisible (c : Char) : Bool :=
  c.toNat == 0x0D || (0x2028 ≤ c.toNat && c.toNat ≤ 0x202E) ||
    c.toNat == 0x30A || c.toNat == 0x333 || c.toNat == 0x33F

/-- A control character other than tab, line feed and carriage return. -/
def isControl (c : Char) : Bool :=
  (c.toNat < 0x20 && c.toNat != 0x09 && c.toNat != 0x0A && c.toNat != 0x0D) || c.toNat == 0x7F

/-- The characters without the invisible ones, and with a space for each control character. -/
def scrub (cs : List Char) : List Char :=
  (cs.filter (!isInvisible ·)).map fun c => if isControl c then ' ' else c

/-- The characters without white space at the start and at the end. -/
def strip (cs : List Char) : List Char :=
  ((cs.dropWhile isSpace).reverse.dropWhile isSpace).reverse

/-- The clean form of some characters. -/
def clean (cs : List Char) : List Char := strip ((scrub cs).take Clean.maxLength)

/-- A text that may leave: well-formed, not too long, without the characters that cleaning treats,
and without white space at either end. -/
def IsSafe (text : Bytes) : Prop :=
  ∃ cs : List Char, text = encode cs ∧ cs.length ≤ Clean.maxLength ∧
    (∀ c ∈ cs, isInvisible c = false ∧ isControl c = false) ∧
    (∀ c ∈ cs.head?, isSpace c = false) ∧ (∀ c ∈ cs.getLast?, isSpace c = false)

end Scalars

end PlaceFeed
