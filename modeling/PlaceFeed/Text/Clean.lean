import PlaceFeed.Text.WhiteSpace

/-!
# Cleaning a text

A text from the feed is cleaned before it may leave: `Clean.clean` refuses ill-formed UTF-8 and
treats each character of anything else on its own (`Clean.treat`).

* A control character becomes one space; tab and line feed stay, carriage return goes.
* The line and paragraph separators with the bidirectional embeddings after them (U+2028 to
  U+202E), and three combining marks (U+030A, U+0333, U+033F), go.
* All else stays as it is.

The rest is cut to `Clean.maxLength` characters, and then stripped of white space at both ends.
What was removed does not count towards the limit.
-/

namespace PlaceFeed

namespace Clean

/-- The most characters that a clean text has. -/
def maxLength : Nat := 35000

/-- A character that is dropped. -/
def isDropped : Bytes → Bool
  | [a] => a == Ascii.carriageReturn
  | [0xCC, b] => b == 0x8A || b == 0xB3 || b == 0xBF
  | [0xE2, 0x80, c] => 0xA8 ≤ c && c ≤ 0xAE
  | _ => false

/-- A control character that a space replaces. -/
def isControl : Bytes → Bool
  | [a] => a ≤ 8 || a == 11 || a == 12 || (14 ≤ a && a ≤ 31) || a == 127
  | _ => false

/-- What a character leaves behind. -/
def treat (character : Bytes) : Bytes :=
  if isDropped character then []
  else if isControl character then [Ascii.space]
  else character

/-- The text with each of its characters treated. -/
def scrub (text : Bytes) : Bytes := (Utf8.characters text).flatMap treat

/-- The **clean form of a text**, or `none` when it is not well-formed UTF-8. -/
def clean (text : Bytes) : Option Bytes :=
  if Utf8.isValid text then
    some (WhiteSpace.trim (Utf8.truncate maxLength (scrub text)))
  else none

end Clean

end PlaceFeed
