/-!
# Double precision numbers

A number is its 64 bits. Every operation the library needs (classification, comparison, conversion
to and from integers, rounding of a quotient) is arithmetic on naturals, so that statements about
numbers are statements about naturals. A finite non-negative number is `mantissa * 2 ^ exponent`.

`nearest?` is the one place that rounds: the nearest double to a quotient of naturals, an exact tie
going to the even mantissa. Integers and decimal texts both come through it.
-/

namespace GraphRows

/-- A double precision number, by its bits. -/
structure Double where
  bits : UInt64
deriving DecidableEq, Inhabited

namespace Double

/-- The sign bit. -/
def isNegative (x : Double) : Bool := x.bits.toNat ≥ Nat.pow 2 63

/-- The bits without the sign. -/
def magnitudeBits (x : Double) : Nat := x.bits.toNat % Nat.pow 2 63

/-- The exponent field. -/
def exponentField (x : Double) : Nat := x.magnitudeBits / Nat.pow 2 52

/-- The fraction field. -/
def fractionField (x : Double) : Nat := x.magnitudeBits % Nat.pow 2 52

/-- Neither infinite nor a NaN. -/
def isFinite (x : Double) : Bool := x.exponentField < 2047

/-- Not a number. -/
def isNaN (x : Double) : Bool := x.magnitudeBits > 2047 * Nat.pow 2 52

/-- One of the two infinities. -/
def isInfinite (x : Double) : Bool := x.magnitudeBits == 2047 * Nat.pow 2 52

/-- One of the two zeros. -/
def isZero (x : Double) : Bool := x.magnitudeBits == 0

/-- The integer factor of a finite number. -/
def mantissa (x : Double) : Nat :=
  if x.exponentField == 0 then x.fractionField else Nat.pow 2 52 + x.fractionField

/-- The power of two of a finite number. -/
def exponent (x : Double) : Int :=
  if x.exponentField == 0 then -1074 else (x.exponentField : Int) - 1075

/-- The number that is none. -/
def nan : Double := ⟨0x7FF8000000000000⟩

/-- Positive infinity. -/
def infinity : Double := ⟨0x7FF0000000000000⟩

/-- Negative infinity. -/
def negInfinity : Double := ⟨0xFFF0000000000000⟩

/-- Positive zero. -/
def zero : Double := ⟨0⟩

/-- Negative zero. -/
def negZero : Double := ⟨0x8000000000000000⟩

/-- The number with the given sign and magnitude bits. -/
def ofParts (negative : Bool) (magnitude : Nat) : Double :=
  ⟨UInt64.ofNat ((if negative then Nat.pow 2 63 else 0) + magnitude)⟩

/-- A quotient rounded to the nearest natural, an exact tie to the even one. -/
def roundDiv (num den : Nat) : Nat :=
  let q := num / den
  let r := num % den
  if 2 * r > den || (2 * r == den && q % 2 == 1) then q + 1 else q

/-- The least exponent `e` with `num / den < 2 ^ e`, for a quotient that is not zero. -/
def binaryScale (num den : Nat) : Int :=
  let guess := (num.log2 : Int) - den.log2
  -- the quotient lies between `2 ^ (guess - 1)` and `2 ^ (guess + 1)`
  if num * Nat.pow 2 (-guess).toNat < den * Nat.pow 2 guess.toNat then guess else guess + 1

/-- The magnitude bits of the double nearest to `num / den`, or nothing when it is beyond the
largest finite one. -/
def nearest? (num den : Nat) : Option Nat :=
  if num == 0 then some 0
  else
    -- mantissas have 53 bits, and no exponent goes below that of the subnormal numbers
    let q := max (binaryScale num den - 53) (-1074)
    let m := roundDiv (num * Nat.pow 2 (-q).toNat) (den * Nat.pow 2 q.toNat)
    -- a mantissa of `2 ^ 53` carries into the exponent field by plain addition
    let magnitude := (q + 1074).toNat * Nat.pow 2 52 + m
    if magnitude < 2047 * Nat.pow 2 52 then some magnitude else none

/-- The double nearest to an integer; beyond the largest finite one, an infinity. -/
def ofInt (n : Int) : Double :=
  ofParts (n < 0) ((nearest? n.natAbs 1).getD (2047 * Nat.pow 2 52))

/-- The largest integer below which every integer is a double. -/
def maxSafe : Nat := Nat.pow 2 53 - 1

/-- The integer that a finite number without fraction is. -/
def toInt? (x : Double) : Option Int :=
  if !x.isFinite then none
  else
    let n := x.mantissa * Nat.pow 2 x.exponent.toNat
    let d := Nat.pow 2 (-x.exponent).toNat
    if n % d == 0 then some (if x.isNegative then -(n / d : Nat) else (n / d : Nat)) else none

/-- The integer that a number stands for exactly: no fraction, at most `maxSafe`, and not the
negative zero. -/
def safeInt? (x : Double) : Option Int :=
  if x.isZero && x.isNegative then none
  else x.toInt?.filter fun n => n.natAbs ≤ maxSafe

/-- The same value: all NaNs are one, and the two zeros differ. -/
def sameValue (x y : Double) : Bool := (x.isNaN && y.isNaN) || x == y

end Double

end GraphRows
