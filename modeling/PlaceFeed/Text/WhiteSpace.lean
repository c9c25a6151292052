import PlaceFeed.Text.Utf8

/-!
# White space around a text

`WhiteSpace.isSpace` is the Unicode property White_Space.  `WhiteSpace.trim` strips it from both
ends of a byte string: from the start the text is cut forwards (`Utf8.characters`), from the end it
is cut before each first byte (`Utf8.groups`), and a piece is stripped when it is as long as its
first byte announces and its code is a space.  No byte is checked beyond that, so `trim` is defined
on ill-formed text too, where a stray `0x85` or `0xA0` at the start is a space of one byte.
-/

namespace PlaceFeed

namespace WhiteSpace

/-- The code has the Unicode property White_Space. -/
def isSpace (code : Nat) : Bool :=
  (0x09 ≤ code && code ≤ 0x0D) || (0x2000 ≤ code && code ≤ 0x200A) ||
    [0x20, 0x85, 0xA0, 0x1680, 0x2028, 0x2029, 0x202F, 0x205F, 0x3000].contains code

/-- A whole character, by its length, that is a space. -/
def isSpaceCharacter : Bytes → Bool
  | [] => false
  | a :: s => Utf8.charLength a == (a :: s).length && isSpace (Utf8.code (a :: s))

/-- Strips white space from the start. -/
def trimStart (text : Bytes) : Bytes :=
  ((Utf8.characters text).dropWhile isSpaceCharacter).flatten

/-- Strips white space from the end. -/
def trimEnd (text : Bytes) : Bytes :=
  ((Utf8.groups text).reverse.dropWhile isSpaceCharacter).reverse.flatten

/-- Strips white space from both ends, the start first. -/
def trim (text : Bytes) : Bytes := trimEnd (trimStart text)

end WhiteSpace

end PlaceFeed
