import PlaceFeed.Json.Basic

/-!
# Printing JSON

`Json.print` writes a value in one of two layouts: without any white space, or with one member or
item a line, indented by two spaces a level.  The members of an object come in the order of their
keys' bytes, each key once, with the value of its last member.  Numbers that are not integers are
written as strings of their bits (`Binary64.toBytes`).
-/

namespace PlaceFeed

namespace Json

/-- How a value is laid out. -/
inductive Layout
  | compact
  | indented
deriving DecidableEq

namespace Layout

/-- The line break before an item at some depth. -/
def lineBreak : Layout → (depth : Nat) → Bytes
  | compact, _ => []
  | indented, depth => Ascii.lineFeed :: List.replicate (2 * depth) Ascii.space

/-- What stands between a key and its value. -/
def colon : Layout → Bytes
  | compact => [Ascii.colon]
  | indented => [Ascii.colon, Ascii.space]

/-- Items between two brackets, at some depth. -/
def enclose (layout : Layout) (depth : Nat) (left right : UInt8) : List Bytes → Bytes
  | [] => [left, right]
  | items =>
    left :: layout.lineBreak (depth + 1)
      ++ (items.intersperse (Ascii.comma :: layout.lineBreak (depth + 1))).flatten
      ++ layout.lineBreak depth ++ [right]

end Layout

/-- The letters that stand for a byte after a backslash. -/
def escapeLetters : List (UInt8 × UInt8) := [
  (Ascii.quote, Ascii.quote), (Ascii.backslash, Ascii.backslash),
  (0x08, 0x62), (0x0C, 0x66), (Ascii.lineFeed, 0x6E), (Ascii.carriageReturn, 0x72),
  (Ascii.tab, 0x74)]

/-- A byte inside a printed string. -/
def escapeByte (b : UInt8) : Bytes :=
  match escapeLetters.lookup b with
  | some letter => [Ascii.backslash, letter]
  | none => if b < Ascii.space then Bytes.ofString "\\u" ++ Bytes.hex 4 b.toNat else [b]

/-- A string between quotes. -/
def quoted (s : Bytes) : Bytes := Ascii.quote :: s.flatMap escapeByte ++ [Ascii.quote]

/-- Puts a member in its place among members in the order of their keys; a member with the same
key gives way. -/
def insertMember (m : Bytes × α) : List (Bytes × α) → List (Bytes × α)
  | [] => [m]
  | n :: rest =>
    if m.1 < n.1 then m :: n :: rest
    else if n.1 < m.1 then n :: insertMember m rest
    else m :: rest

/-- The members in the order of their keys, each key once, with its last value. -/
def sortMembers (members : List (Bytes × α)) : List (Bytes × α) :=
  members.foldl (fun sorted m => insertMember m sorted) []

mutual

/-- A value at some depth. -/
def printAt (layout : Layout) (depth : Nat) : Json → Bytes
  | null => Bytes.ofString "null"
  | bool true => Bytes.ofString "true"
  | bool false => Bytes.ofString "false"
  | int n => Bytes.ofInt n
  | float x => quoted x.toBytes
  | str s => quoted s
  | arr items =>
    layout.enclose depth Ascii.leftBracket Ascii.rightBracket (printItems layout (depth + 1) items)
  | obj members =>
    layout.enclose depth Ascii.leftBrace Ascii.rightBrace
      ((sortMembers (printMembers layout (depth + 1) members)).map fun m =>
        quoted m.1 ++ layout.colon ++ m.2)

/-- The items of an array, each on its own. -/
def printItems (layout : Layout) (depth : Nat) : List Json → List Bytes
  | [] => []
  | v :: items => printAt layout depth v :: printItems layout depth items

/-- The members of an object, each with its value printed. -/
def printMembers (layout : Layout) (depth : Nat) : List (Bytes × Json) → List (Bytes × Bytes)
  | [] => []
  | (k, v) :: members => (k, printAt layout depth v) :: printMembers layout depth members

end

/-- A **value as a text**. -/
def print (layout : Layout) (v : Json) : Bytes := printAt layout 0 v

end Json

end PlaceFeed
