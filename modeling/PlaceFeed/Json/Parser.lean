import PlaceFeed.Json.Token

/-!
# From tokens to a value

`Builder` holds a JSON value that is partly read: the containers around the present place, from
the inside out, and what may come next.  Each token moves it on (`Builder.step?`); when the tokens
end, the value must be complete and inside no container (`Builder.finish?`).  Nesting costs no
depth of recursion.

`Json.parse?` reads a whole text.  A byte order mark at its very start is skipped.
-/

namespace PlaceFeed

namespace Json

/-- A container whose end is still to come. -/
inductive Frame
  /-- An array with these items, last one first. -/
  | arr (items : List Json)
  /-- An object with these members, last one first, in the value of a key. -/
  | obj (members : Members) (key : Bytes)

/-- A value that is partly read, inside the containers `around` the present place. -/
inductive Builder
  /-- A value must follow. -/
  | value (around : List Frame)
  /-- An array has just begun: its end may follow, or a value. -/
  | firstItem (around : List Frame)
  /-- An object has just begun: its end may follow, or a key. -/
  | firstKey (around : List Frame)
  /-- A key must follow. -/
  | key (members : Members) (around : List Frame)
  /-- The colon after a key must follow. -/
  | colon (members : Members) (key : Bytes) (around : List Frame)
  /-- A value is complete. -/
  | complete (v : Json) (around : List Frame)

namespace Builder

/-- The token that starts a value. -/
def start? (around : List Frame) : Token → Option Builder
  | .value v => some (.complete v around)
  | .leftBracket => some (.firstItem around)
  | .leftBrace => some (.firstKey around)
  | _ => none

/-- One more token. -/
def step? : Builder → Token → Option Builder
  | .value around, t => start? around t
  | .firstItem around, .rightBracket => some (.complete (.arr []) around)
  | .firstItem around, t => start? (.arr [] :: around) t
  | .firstKey around, .rightBrace => some (.complete (.obj []) around)
  | .firstKey around, .value (.str k) => some (.colon [] k around)
  | .key ms around, .value (.str k) => some (.colon ms k around)
  | .colon ms k around, .colon => some (.value (.obj ms k :: around))
  | .complete v (.arr items :: around), .comma => some (.value (.arr (v :: items) :: around))
  | .complete v (.arr items :: around), .rightBracket =>
    some (.complete (.arr (v :: items).reverse) around)
  | .complete v (.obj ms k :: around), .comma => some (.key ((k, v) :: ms) around)
  | .complete v (.obj ms k :: around), .rightBrace =>
    some (.complete (.obj ((k, v) :: ms).reverse) around)
  | _, _ => none

/-- The value, when it is complete and nothing is open. -/
def finish? : Builder → Option Json
  | .complete v [] => some v
  | _ => none

end Builder

/-- The value of a list of tokens. -/
def ofTokens? (tokens : List Token) : Option Json :=
  (tokens.foldlM Builder.step? (.value [])).bind Builder.finish?

/-- The text without a byte order mark at its start. -/
def dropByteOrderMark : Bytes → Bytes
  | 0xEF :: 0xBB :: 0xBF :: text => text
  | text => text

/-- The **value of a JSON text**, or `none` when it is not one. -/
def parse? (text : Bytes) : Option Json :=
  (Token.scan? (dropByteOrderMark text)).bind ofTokens?

end Json

end PlaceFeed
