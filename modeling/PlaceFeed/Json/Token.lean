import PlaceFeed.Json.Numeral
import PlaceFeed.Text.Utf8

/-!
# Tokens

A JSON text is first read byte by byte into tokens: brackets, separators and the values that hold
no other values.  `Scanner.step` takes one byte, `Scanner.finish?` closes the token that the end of
the text leaves open, and `Token.scan?` is the fold of the one followed by the other.

Strings are decoded on the way.  A string whose bytes are not well-formed UTF-8, a byte below
`0x20` inside a string, and an escaped surrogate outside a proper pair have no tokens.
-/

namespace PlaceFeed

namespace Json

/-- A token: a bracket, a separator, or a value that holds no other values. -/
inductive Token
  | leftBrace
  | rightBrace
  | leftBracket
  | rightBracket
  | colon
  | comma
  | value (v : Json)

/-- The token that is being read. -/
inductive Pending
  /-- None: the last one is complete. -/
  | idle
  /-- A word with this value, of which these bytes are still to come. -/
  | word (rest : Bytes) (v : Json)
  | numeral (n : Numeral)
  /-- A string with these bytes so far, the last one first. -/
  | text (body : Bytes)
  /-- A string after a backslash. -/
  | escape (body : Bytes)
  /-- A string in the digits of an escaped code, `count` of them read.  `high` is the first half
  of a surrogate pair whose second half this is. -/
  | unicode (body : Bytes) (high : Option Nat) (count : Nat) (code : Nat)
  /-- A string after the first half of a surrogate pair. -/
  | low (body : Bytes) (high : Nat)
  /-- A string after the first half of a surrogate pair and a backslash. -/
  | lowEscape (body : Bytes) (high : Nat)

/-- The tokens read so far, last one first, and the one being read. -/
structure Scanner where
  tokens : List Token
  pending : Pending

namespace Scanner

/-- Adds a complete token. -/
def emit (tokens : List Token) (t : Token) : Scanner := ⟨t :: tokens, .idle⟩

/-- The bytes of a string, last one first, with one more character. -/
def pushCode (body : Bytes) (code : Nat) : Bytes :=
  (String.utf8EncodeChar (Char.ofNat code)).reverse ++ body

/-- The bytes that are tokens of their own. -/
def marks : List (UInt8 × Token) := [
  (Ascii.leftBrace, .leftBrace), (Ascii.rightBrace, .rightBrace),
  (Ascii.leftBracket, .leftBracket), (Ascii.rightBracket, .rightBracket),
  (Ascii.colon, .colon), (Ascii.comma, .comma)]

/-- The words, each by its first byte, the other bytes, and its value. -/
def words : List (UInt8 × Bytes × Json) := [
  (0x6E, Bytes.ofString "ull", .null),
  (0x74, Bytes.ofString "rue", .bool true),
  (0x66, Bytes.ofString "alse", .bool false)]

/-- White space between tokens. -/
def isSpace (b : UInt8) : Bool :=
  b == Ascii.space || b == Ascii.tab || b == Ascii.lineFeed || b == Ascii.carriageReturn

/-- A byte between two tokens. -/
def begin? (tokens : List Token) (b : UInt8) : Option Scanner :=
  if isSpace b then some ⟨tokens, .idle⟩
  else if b = Ascii.quote then some ⟨tokens, .text []⟩
  else match marks.lookup b, words.lookup b with
    | some t, _ => some (emit tokens t)
    | none, some (rest, v) => some ⟨tokens, .word rest v⟩
    | none, none => (Numeral.start? b).map fun n => ⟨tokens, .numeral n⟩

/-- A byte of a string. -/
def text? (tokens : List Token) (body : Bytes) (b : UInt8) : Option Scanner :=
  if b = Ascii.quote then
    let s := body.reverse
    if Utf8.isValid s then some (emit tokens (.value (.str s))) else none
  else if b = Ascii.backslash then some ⟨tokens, .escape body⟩
  else if b < Ascii.space then none
  else some ⟨tokens, .text (b :: body)⟩

/-- The one-letter escapes: the letter after the backslash, and the byte that it stands for. -/
def escapes : List (UInt8 × UInt8) := [
  (Ascii.quote, Ascii.quote), (Ascii.backslash, Ascii.backslash), (Ascii.slash, Ascii.slash),
  (0x62, 0x08), (0x66, 0x0C), (0x6E, Ascii.lineFeed), (0x72, Ascii.carriageReturn),
  (0x74, Ascii.tab)]

/-- A string after an escaped code: a surrogate has to be half of a pair. -/
def afterCode? (body : Bytes) (high : Option Nat) (code : Nat) : Option Pending :=
  let isHigh := 0xD800 ≤ code && code < 0xDC00
  let isLow := 0xDC00 ≤ code && code < 0xE000
  match high with
  | none =>
    if isHigh then some (.low body code)
    else if isLow then none
    else some (.text (pushCode body code))
  | some high =>
    if isLow then some (.text (pushCode body (0x10000 + (high - 0xD800) * 0x400 + (code - 0xDC00))))
    else none

/-- One more byte of the text. -/
def step? (s : Scanner) (b : UInt8) : Option Scanner :=
  match s.pending with
  | .idle => begin? s.tokens b
  | .word [] v => begin? (.value v :: s.tokens) b
  | .word (c :: rest) v => if b = c then some ⟨s.tokens, .word rest v⟩ else none
  | .numeral n =>
    match n.extend? b with
    | some n => some ⟨s.tokens, .numeral n⟩
    | none => n.value?.bind fun v => begin? (.value v :: s.tokens) b
  | .text body => text? s.tokens body b
  | .escape body =>
    if b = 0x75 then some ⟨s.tokens, .unicode body none 0 0⟩
    else (escapes.lookup b).map fun c => ⟨s.tokens, .text (c :: body)⟩
  | .unicode body high count code =>
    (Ascii.hexDigit? b).bind fun d =>
      let code := code * 16 + d
      if count < 3 then some ⟨s.tokens, .unicode body high (count + 1) code⟩
      else (afterCode? body high code).map fun p => ⟨s.tokens, p⟩
  | .low body high => if b = Ascii.backslash then some ⟨s.tokens, .lowEscape body high⟩ else none
  | .lowEscape body high =>
    if b = 0x75 then some ⟨s.tokens, .unicode body (some high) 0 0⟩ else none

/-- The tokens of a text that ends here. -/
def finish? (s : Scanner) : Option (List Token) :=
  match s.pending with
  | .idle => some s.tokens.reverse
  | .word [] v => some (.value v :: s.tokens).reverse
  | .numeral n => n.value?.map fun v => (.value v :: s.tokens).reverse
  | _ => none

end Scanner

/-- The tokens of a text. -/
def Token.scan? (text : Bytes) : Option (List Token) :=
  (text.foldlM Scanner.step? ⟨[], .idle⟩).bind Scanner.finish?

end Json

end PlaceFeed
