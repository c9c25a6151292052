/-!
# Byte strings

Feeds, settings files and every text inside them are plain lists of bytes, which need not be
well-formed in any encoding.  This file names the bytes that the formats mention and cuts a text
into lines:

* `Bytes.ofString` : the bytes of a string literal, in UTF-8;
* `Bytes.lines` : the pieces between line feeds; a last piece counts only when it is non-empty, so
  a final line feed changes nothing;
* `Bytes.isBlank` : a line of spaces, tabs and carriage returns only.
-/

namespace PlaceFeed

/-- A byte string. -/
abbrev Bytes := List UInt8

/-! ### Bytes with a name -/

namespace Ascii

abbrev tab : UInt8 := 0x09
abbrev lineFeed : UInt8 := 0x0A
abbrev carriageReturn : UInt8 := 0x0D
abbrev space : UInt8 := 0x20
abbrev quote : UInt8 := 0x22
abbrev plus : UInt8 := 0x2B
abbrev comma : UInt8 := 0x2C
abbrev minus : UInt8 := 0x2D
abbrev point : UInt8 := 0x2E
abbrev slash : UInt8 := 0x2F
abbrev zero : UInt8 := 0x30
abbrev colon : UInt8 := 0x3A
abbrev leftBracket : UInt8 := 0x5B
abbrev backslash : UInt8 := 0x5C
abbrev rightBracket : UInt8 := 0x5D
abbrev leftBrace : UInt8 := 0x7B
abbrev rightBrace : UInt8 := 0x7D

/-- The value of a decimal digit. -/
def digit? (b : UInt8) : Option Nat :=
  if 0x30 ≤ b ∧ b ≤ 0x39 then some (b.toNat - 0x30) else none

/-- The value of a hexadecimal digit, in either case. -/
def hexDigit? (b : UInt8) : Option Nat :=
  if 0x30 ≤ b ∧ b ≤ 0x39 then some (b.toNat - 0x30)
  else if 0x41 ≤ b ∧ b ≤ 0x46 then some (b.toNat - 0x37)
  else if 0x61 ≤ b ∧ b ≤ 0x66 then some (b.toNat - 0x57)
  else none

/-- The lower-case hexadecimal digit of a value below sixteen. -/
def hexDigit (d : Nat) : UInt8 :=
  if d < 10 then UInt8.ofNat (0x30 + d) else UInt8.ofNat (0x57 + d)

end Ascii

namespace Bytes

/-! ### Building -/

/-- The UTF-8 bytes of a string. -/
def ofString (s : String) : Bytes := s.toList.flatMap String.utf8EncodeChar

/-- A number in decimal digits. -/
def ofNat (n : Nat) : Bytes := (Nat.toDigits 10 n).flatMap String.utf8EncodeChar

/-- An integer in decimal digits, with a leading minus sign below zero. -/
def ofInt : Int → Bytes
  | .ofNat n => ofNat n
  | .negSucc n => Ascii.minus :: ofNat (n + 1)

/-- The last `width` hexadecimal digits of a number. -/
def hex : (width : Nat) → (n : Nat) → Bytes
  | 0, _ => []
  | width + 1, n => hex width (n / 16) ++ [Ascii.hexDigit (n % 16)]

/-! ### Lines -/

/-- The lines of a text: its pieces between line feeds, without a last piece that is empty. -/
def lines (text : Bytes) : List Bytes :=
  let pieces := text.splitOn Ascii.lineFeed
  if pieces.getLast? = some [] then pieces.dropLast else pieces

/-- A line holds nothing but spaces, tabs and carriage returns. -/
def isBlank (line : Bytes) : Bool :=
  line.all fun b => b == Ascii.space || b == Ascii.tab || b == Ascii.carriageReturn

end Bytes

end PlaceFeed
