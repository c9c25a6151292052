import PlaceFeed.Number.Decimal

/-!
# JSON values

A `Json` value keeps the members of an object in the order in which they were read, repeated keys
included.  A repeated key has the value of its **last** member (`Json.lookup`).  Integers are kept
apart from other numbers; both can be read as binary64 numbers (`Json.number?`).
-/

namespace PlaceFeed

/-- A JSON value. -/
inductive Json
  | null
  | bool (b : Bool)
  | int (n : Int)
  | float (x : Binary64)
  | str (s : Bytes)
  | arr (items : List Json)
  | obj (members : List (Bytes × Json))

namespace Json

/-- An object with keys given as strings. -/
def object (members : List (String × Json)) : Json :=
  obj (members.map fun m => (Bytes.ofString m.1, m.2))

/-- A string given as a string literal. -/
def string (s : String) : Json := str (Bytes.ofString s)

/-! ### Reading a value as one kind -/

/-- Any number. -/
def number? : Json → Option Binary64
  | int n => Binary64.ofInt? n
  | float x => some x
  | _ => none

/-- A string. -/
def string? : Json → Option Bytes
  | str s => some s
  | _ => none

/-- A truth value. -/
def bool? : Json → Option Bool
  | bool b => some b
  | _ => none

/-! ### Members -/

/-- The members of an object. -/
abbrev Members := List (Bytes × Json)

/-- The value of a key: that of its last member. -/
def lookup (members : Members) (key : Bytes) : Option Json := members.reverse.lookup key

/-- The value of a key read as one kind, with a default for an absent key.  A value of another
kind is refused. -/
def read (kind : Json → Option α) (default : α) (members : Members) (key : String) : Option α :=
  match lookup members (Bytes.ofString key) with
  | none => some default
  | some v => kind v

end Json

end PlaceFeed
