import PlaceFeed.Number.Binary64

/-!
# From decimal to binary64

`Binary64.ofRatio?` rounds a non-negative fraction to the nearest binary64 number, a tie to the
even neighbour.  It works in units of `2 ^ -1074`: a value of at most 53 bits in these units keeps
all its whole units, a larger one keeps its first 53 bits.  That is the spacing of the format, and
the bits of the result are the number of spacings, counted from zero: a value that rounds up into
the next binade needs no case of its own.  Values that round past the largest finite number have
no result.

`Binary64.ofDecimal?` does the same for a decimal number with an exponent, and decides without
arithmetic where the exponent alone settles the answer.
-/

namespace PlaceFeed

namespace Binary64

/-- The quotient, rounded to the nearest integer, a tie to the even one. -/
def roundHalfEven (num den : Nat) : Nat :=
  let floor := num / den
  let twice := 2 * (num % den)
  if twice < den then floor
  else if den < twice then floor + 1
  else floor + floor % 2

/-- The bits below the sign of the binary64 number nearest to `num / den`. -/
def magnitudeOfRatio (num den : Nat) : Nat :=
  let scaled := num * one
  let shift := (scaled / den).log2 - 52
  shift * 0x10000000000000 + roundHalfEven scaled (den * Nat.pow 2 shift)

/-- The number with this sign and these bits below it, unless they are those of an infinity. -/
def ofMagnitude? (negative : Bool) (magnitude : Nat) : Option Binary64 :=
  if magnitude < 2047 * 0x10000000000000 then
    some ⟨UInt64.ofNat (if negative then 0x8000000000000000 + magnitude else magnitude)⟩
  else none

/-- The number nearest to `num / den`, with a sign, or `none` when it rounds to infinity. -/
def ofRatio? (negative : Bool) (num den : Nat) : Option Binary64 :=
  ofMagnitude? negative (magnitudeOfRatio num den)

/-- The number nearest to `digits * 10 ^ exponent`, with a sign, or `none` when it rounds to
infinity. -/
def ofDecimal? (negative : Bool) (digits : Nat) : (exponent : Int) → Option Binary64
  | .ofNat e =>
    if digits = 0 then ofMagnitude? negative 0
    else if 310 < e then none
    else ofRatio? negative (digits * Nat.pow 10 e) 1
  | .negSucc e =>
    if digits = 0 ∨ digits.log2 + 1077 ≤ 3 * (e + 1) then ofMagnitude? negative 0
    else ofRatio? negative digits (Nat.pow 10 (e + 1))

/-- The number nearest to an integer. -/
def ofInt? (n : Int) : Option Binary64 := ofRatio? (n < 0) n.natAbs 1

end Binary64

end PlaceFeed
