import PlaceFeed.Bytes

/-!
# Binary64 numbers

A `Binary64` is the 64 bits of an IEEE 754 double.  Every finite one is an integer multiple of
`2 ^ -1074`, the distance between the smallest two, so its exact value is the integer
`Binary64.units`, and comparisons and rounding up need no arithmetic but that of integers.
-/

namespace PlaceFeed

/-- A number in the IEEE 754 binary64 format, by its bits. -/
structure Binary64 where
  bits : UInt64
deriving DecidableEq

namespace Binary64

/-- The number one in units of `2 ^ -1074`. -/
def one : Nat := Nat.pow 2 1074

/-! ### The fields of the format -/

/-- The sign bit. -/
def isNegative (x : Binary64) : Bool := 0x8000000000000000 ≤ x.bits.toNat

/-- The exponent field. -/
def exponent (x : Binary64) : Nat := x.bits.toNat / 0x10000000000000 % 0x800

/-- The fraction field. -/
def fraction (x : Binary64) : Nat := x.bits.toNat % 0x10000000000000

/-- Neither infinite nor a NaN. -/
def isFinite (x : Binary64) : Bool := x.exponent != 2047

/-- Not a number. -/
def isNaN (x : Binary64) : Bool := x.exponent == 2047 && x.fraction != 0

/-! ### Values -/

/-- The exact absolute value, in units of `2 ^ -1074`.  For an infinity this is the power of two
above all finite values. -/
def absUnits (x : Binary64) : Nat :=
  if x.exponent = 0 then x.fraction
  else (0x10000000000000 + x.fraction) * Nat.pow 2 (x.exponent - 1)

/-- The exact value, in units of `2 ^ -1074`. -/
def units (x : Binary64) : Int := if x.isNegative then -x.absUnits else x.absUnits

/-- Numerical equality: the two zeros are equal, and a NaN is equal to nothing. -/
def sameValue (x y : Binary64) : Bool := !x.isNaN && !y.isNaN && x.units == y.units

/-- A finite number whose absolute value is at most `limit`. -/
def Within (x : Binary64) (limit : Nat) : Prop := x.isFinite ∧ x.absUnits ≤ limit * one

instance (x : Binary64) (limit : Nat) : Decidable (x.Within limit) :=
  inferInstanceAs (Decidable (_ ∧ _))

/-- The absolute value, rounded up to an integer. -/
def ceilAbs (x : Binary64) : Nat := (x.absUnits + (one - 1)) / one

/-! ### Constants and text -/

/-- Positive zero. -/
def zero : Binary64 := ⟨0⟩

/-- The quiet NaN without a sign or payload. -/
def nan : Binary64 := ⟨0x7FF8000000000000⟩

/-- The bits in sixteen hexadecimal digits, after the mark `f64:`. -/
def toBytes (x : Binary64) : Bytes := Bytes.ofString "f64:" ++ Bytes.hex 16 x.bits.toNat

end Binary64

end PlaceFeed
