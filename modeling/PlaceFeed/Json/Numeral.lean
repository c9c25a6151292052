import PlaceFeed.Json.Basic

/-!
# Numerals

A JSON numeral is read byte by byte (`Numeral.start?`, `Numeral.extend?`) and has a value when it
may end where it ends (`Numeral.value?`).  A numeral without a fraction and an exponent is an
integer when it fits into 64 bits, signed with a minus sign and unsigned without one; all others
are binary64 numbers, and those that would be infinite have no value.
-/

namespace PlaceFeed

namespace Json

/-- The part of a numeral that its last byte belongs to. -/
inductive Numeral.Part
  | sign
  | zero
  | whole
  | point
  | fraction
  | exponentMark
  | exponentSign
  | exponent
deriving DecidableEq

/-- A numeral, as far as it has been read. -/
structure Numeral where
  part : Numeral.Part
  negative : Bool := false
  /-- The digits before the exponent, without the point. -/
  digits : Nat := 0
  /-- How many of them follow the point. -/
  places : Nat := 0
  exponentNegative : Bool := false
  exponent : Nat := 0
deriving DecidableEq

namespace Numeral

/-- The numeral that a byte starts. -/
def start? (b : UInt8) : Option Numeral :=
  if b = Ascii.minus then some { part := .sign, negative := true }
  else if b = Ascii.zero then some { part := .zero }
  else (Ascii.digit? b).map fun d => { part := .whole, digits := d }

/-- The byte introduces an exponent. -/
def isExponentMark (b : UInt8) : Bool := b == 0x65 || b == 0x45

/-- The numeral with one more byte, when the byte belongs to it. -/
def extend? (n : Numeral) (b : UInt8) : Option Numeral :=
  match n.part with
  | .sign =>
    if b = Ascii.zero then some { n with part := .zero }
    else (Ascii.digit? b).map fun d => { n with part := .whole, digits := d }
  | .zero =>
    if b = Ascii.point then some { n with part := .point }
    else if isExponentMark b then some { n with part := .exponentMark }
    else none
  | .whole =>
    if b = Ascii.point then some { n with part := .point }
    else if isExponentMark b then some { n with part := .exponentMark }
    else (Ascii.digit? b).map fun d => { n with digits := n.digits * 10 + d }
  | .point =>
    (Ascii.digit? b).map fun d =>
      { n with part := .fraction, digits := n.digits * 10 + d, places := 1 }
  | .fraction =>
    if isExponentMark b then some { n with part := .exponentMark }
    else (Ascii.digit? b).map fun d =>
      { n with digits := n.digits * 10 + d, places := n.places + 1 }
  | .exponentMark =>
    if b = Ascii.plus then some { n with part := .exponentSign }
    else if b = Ascii.minus then some { n with part := .exponentSign, exponentNegative := true }
    else (Ascii.digit? b).map fun d => { n with part := .exponent, exponent := d }
  | .exponentSign =>
    (Ascii.digit? b).map fun d => { n with part := .exponent, exponent := d }
  | .exponent =>
    (Ascii.digit? b).map fun d => { n with exponent := n.exponent * 10 + d }

/-- The power of ten that the digits are multiplied by. -/
def scale (n : Numeral) : Int :=
  (if n.exponentNegative then -(n.exponent : Int) else n.exponent) - n.places

/-- The value as a binary64 number. -/
def float? (n : Numeral) : Option Json :=
  (Binary64.ofDecimal? n.negative n.digits n.scale).map .float

/-- The value of a numeral without a fraction and an exponent. -/
def int? (n : Numeral) : Option Json :=
  if n.negative then
    if n.digits ≤ 0x8000000000000000 then some (.int (-(n.digits : Int))) else n.float?
  else if n.digits < 0x10000000000000000 then some (.int n.digits)
  else n.float?

/-- The value of a numeral that may end here. -/
def value? (n : Numeral) : Option Json :=
  match n.part with
  | .zero | .whole => n.int?
  | .fraction | .exponent => n.float?
  | .sign | .point | .exponentMark | .exponentSign => none

end Numeral

end Json

end PlaceFeed
