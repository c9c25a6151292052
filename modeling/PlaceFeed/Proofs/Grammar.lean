import PlaceFeed.Json.Parser
import PlaceFeed.Proofs.ExactValues
import PlaceFeed.Text.Scalars

/-!
# The grammar of JSON

A JSON text is defined here by how it is written, without a reader: numerals by their parts
(`Json.Literal`), strings by what each of their bytes and escapes stands for (`Json.Body`), tokens
by the bytes that spell them (`Token.Spelling`), and values by their tokens (`Json.tokens`), with
white space around each token.  `Json.IsText` is all of it: the text, without a byte order mark,
spells the tokens of the value.

A numeral stands for a rational number (`Literal.number`), and what it means to a reader with
64-bit integers (`Literal.Means`) is that number or the binary64 number nearest to it.  The bytes of
a string are well-formed when they are an encoding of scalar values.  Repeated keys are kept, so the
members of an object are those of the text in their order.

With the reader it shares the types of tokens and values, and four tables: the one-letter escapes,
the hexadecimal digits, the white space and the byte order mark.
-/

namespace PlaceFeed

namespace Json

/-! ### Numerals -/

/-- The byte of a decimal digit. -/
def digitByte (d : Fin 10) : UInt8 := UInt8.ofNat (0x30 + d)

/-- The number with some digits, after those of another number. -/
def appendDigits (n : Nat) (ds : List (Fin 10)) : Nat := ds.foldl (fun n d => n * 10 + d.val) n

/-- One or more decimal digits. -/
structure Digits where
  first : Fin 10
  rest : List (Fin 10)

namespace Digits

def toList (ds : Digits) : List (Fin 10) := ds.first :: ds.rest

def bytes (ds : Digits) : Bytes := ds.toList.map digitByte

/-- The number with these digits. -/
def value (ds : Digits) : Nat := appendDigits 0 ds.toList

end Digits

/-- The sign of an exponent, which may be absent. -/
inductive ExponentSign
  | absent
  | plus
  | minus
deriving DecidableEq

def ExponentSign.bytes : ExponentSign → Bytes
  | absent => []
  | plus => [Ascii.plus]
  | minus => [Ascii.minus]

/-- An exponent as it is written. -/
structure Exponent where
  /-- The mark is `E`, not `e`. -/
  upper : Bool
  sign : ExponentSign
  digits : Digits

namespace Exponent

def bytes (e : Exponent) : Bytes :=
  (if e.upper then 0x45 else 0x65) :: (e.sign.bytes ++ e.digits.bytes)

def value (e : Exponent) : Int :=
  if e.sign = .minus then -(e.digits.value : Int) else e.digits.value

end Exponent

/-- A numeral as it is written. -/
structure Literal where
  negative : Bool
  whole : Digits
  fraction : Option Digits
  exponent : Option Exponent
  no_leading_zero : whole.first = 0 → whole.rest = []

namespace Literal

def bytes (l : Literal) : Bytes :=
  (if l.negative then [Ascii.minus] else []) ++ (l.whole.bytes ++
    (l.fraction.elim [] (fun ds => Ascii.point :: ds.bytes) ++ l.exponent.elim [] Exponent.bytes))

/-- The numeral has neither a point nor an exponent. -/
def isInteger (l : Literal) : Bool := l.fraction.isNone && l.exponent.isNone

/-- The digits before the exponent, without the point. -/
def digits (l : Literal) : Nat := appendDigits l.whole.value (l.fraction.elim [] Digits.toList)

/-- The power of ten that the digits are multiplied by. -/
def scale (l : Literal) : Int :=
  l.exponent.elim 0 Exponent.value - (l.fraction.elim 0 fun ds => ds.toList.length : Nat)

/-- The digits with the sign. -/
def int (l : Literal) : Int := if l.negative then -(l.digits : Int) else l.digits

/-- The number that the numeral stands for. -/
def number (l : Literal) : ℚ := Binary64.signed l.negative (l.digits * 10 ^ l.scale)

/-- The numeral is written as an integer, and has 64 bits with or without a sign. -/
def IsInt (l : Literal) : Prop :=
  l.isInteger = true ∧ -0x8000000000000000 ≤ l.int ∧ l.int < 0x10000000000000000

/-- The **value of a numeral**.  If it is not that of an integer it is the nearest binary64 number,
with the sign that is written; from the overflow on there is none. -/
inductive Means (l : Literal) : Json → Prop
  | int (h : l.IsInt) : Means l (.int l.int)
  | float {x : Binary64} (h : ¬l.IsInt) (hsign : x.isNegative = l.negative)
    (hlt : |l.number| < Binary64.overflow) (hx : x.IsNearest l.number) : Means l (.float x)

end Literal

/-! ### Strings -/

/-- The number with four hexadecimal digits. -/
def hexCode? : Bytes → Option Nat
  | [a, b, c, d] => do
    let a ← Ascii.hexDigit? a
    let b ← Ascii.hexDigit? b
    let c ← Ascii.hexDigit? c
    let d ← Ascii.hexDigit? d
    return ((a * 16 + b) * 16 + c) * 16 + d
  | _ => none

/-- The first half of a surrogate pair. -/
def IsHigh (code : Nat) : Prop := 0xD800 ≤ code ∧ code ≤ 0xDBFF

/-- The second half of a surrogate pair. -/
def IsLow (code : Nat) : Prop := 0xDC00 ≤ code ∧ code ≤ 0xDFFF

instance : DecidablePred IsHigh := fun _ => inferInstanceAs (Decidable (_ ∧ _))

instance : DecidablePred IsLow := fun _ => inferInstanceAs (Decidable (_ ∧ _))

/-- The escape of a code with these hexadecimal digits. -/
def escapedCode (digits : Bytes) : Bytes := Ascii.backslash :: 0x75 :: digits

/-- The smallest parts of a string, as they are written and what they stand for. -/
inductive Piece : (written meant : Bytes) → Prop
  | byte {b : UInt8} (hspace : Ascii.space ≤ b) (hquote : b ≠ Ascii.quote)
    (hbackslash : b ≠ Ascii.backslash) : Piece [b] [b]
  | letter {letter b : UInt8} (h : (letter, b) ∈ Scanner.escapes) :
    Piece [Ascii.backslash, letter] [b]
  | code {digits : Bytes} {n : Nat} (h : hexCode? digits = some n) (hhigh : ¬IsHigh n)
    (hlow : ¬IsLow n) : Piece (escapedCode digits) (String.utf8EncodeChar (Char.ofNat n))
  | pair {digits₁ digits₂ : Bytes} {high low : Nat} (h₁ : hexCode? digits₁ = some high)
    (h₂ : hexCode? digits₂ = some low) (hhigh : IsHigh high) (hlow : IsLow low) :
    Piece (escapedCode digits₁ ++ escapedCode digits₂)
      (String.utf8EncodeChar (Char.ofNat (0x10000 + (high - 0xD800) * 0x400 + (low - 0xDC00))))

/-- What stands between the quotes of a string, and the bytes of the string. -/
inductive Body : (written meant : Bytes) → Prop
  | nil : Body [] []
  | cons {p q written meant : Bytes} (hp : Piece p q) (h : Body written meant) :
    Body (p ++ written) (q ++ meant)

/-! ### Tokens -/

/-- The bytes of a token.  Those of a string encode scalar values. -/
inductive Token.Spelling : Bytes → Token → Prop
  | leftBrace : Spelling [Ascii.leftBrace] .leftBrace
  | rightBrace : Spelling [Ascii.rightBrace] .rightBrace
  | leftBracket : Spelling [Ascii.leftBracket] .leftBracket
  | rightBracket : Spelling [Ascii.rightBracket] .rightBracket
  | colon : Spelling [Ascii.colon] .colon
  | comma : Spelling [Ascii.comma] .comma
  | null : Spelling (Bytes.ofString "null") (.value .null)
  | true : Spelling (Bytes.ofString "true") (.value (.bool true))
  | false : Spelling (Bytes.ofString "false") (.value (.bool false))
  | numeral {l : Literal} {v : Json} (h : l.Means v) : Spelling l.bytes (.value v)
  | string {written meant : Bytes} (h : Body written meant)
    (hvalid : ∃ cs, Scalars.encode cs = written) :
    Spelling (Ascii.quote :: (written ++ [Ascii.quote])) (.value (.str meant))

/-- Nothing but white space. -/
def IsSpaces (text : Bytes) : Prop := ∀ b ∈ text, Scanner.isSpace b = true

/-- The text is made of these tokens, with white space around them. -/
inductive Lexes : Bytes → List Token → Prop
  | spaces {text : Bytes} (h : IsSpaces text) : Lexes text []
  | cons {spaces p text : Bytes} {t : Token} {ts : List Token} (hspaces : IsSpaces spaces)
    (hp : Token.Spelling p t) (h : Lexes text ts) : Lexes (spaces ++ (p ++ text)) (t :: ts)

/-! ### Values -/

/-- Some runs of tokens with commas between them. -/
def separated (runs : List (List Token)) : List Token := [Token.comma].intercalate runs

mutual

/-- The **tokens of a value**. -/
def tokens : Json → List Token
  | arr items => .leftBracket :: (separated (itemTokens items) ++ [.rightBracket])
  | obj members => .leftBrace :: (separated (memberTokens members) ++ [.rightBrace])
  | v => [.value v]

/-- The tokens of the items of an array, each on its own. -/
def itemTokens : List Json → List (List Token)
  | [] => []
  | v :: items => tokens v :: itemTokens items

/-- The tokens of the members of an object, each on its own. -/
def memberTokens : List (Bytes × Json) → List (List Token)
  | [] => []
  | (k, v) :: members => (.value (.str k) :: .colon :: tokens v) :: memberTokens members

end

/-- The text is a **JSON text** with this value. -/
def IsText (text : Bytes) (v : Json) : Prop := Lexes (dropByteOrderMark text) v.tokens

end Json

end PlaceFeed
