import GraphRows.Number.Double

/-!
# Decimals

A decimal is `digits * 10 ^ scale`. Two directions are needed: the shortest decimal that stands for
a double, and the double a decimal stands for.

The reals that round to a double form an interval, from halfway to the neighbour below to halfway to
the neighbour above, with its ends included exactly when the mantissa is even. `shortest` looks for
the fewest digits: on the grid of one digit, then two, and so on, it tests the two neighbours of the
number, and the first grid with a hit wins. Of two hits the nearer is taken; which of two equally
near ones is a matter of the layout.
-/

namespace GraphRows

/-- The number `digits * 10 ^ scale`. -/
structure Decimal where
  digits : Nat
  scale : Int
deriving DecidableEq, Repr

/-- Which of two equally near decimals is taken: the one whose last digit is even, or the one
farther from zero. -/
inductive Tie where
  | toEven
  | away
deriving DecidableEq, Repr

namespace Decimal

/-- Compare `a * 10 ^ i` with `n * 2 ^ j`. -/
def compareScaled (a : Nat) (i : Int) (n : Nat) (j : Int) : Ordering :=
  compare (a * Nat.pow 10 i.toNat * Nat.pow 2 (-j).toNat)
    (n * Nat.pow 2 j.toNat * Nat.pow 10 (-i).toNat)

/-- Whether the decimal rounds to the magnitude of `x`. -/
def roundsTo (d : Decimal) (x : Double) : Bool :=
  -- in quarters of the last place: the neighbour below is half as far when the mantissa is the
  -- least of its exponent
  let below := if x.fractionField == 0 && x.exponentField > 1 then 1 else 2
  let low := compareScaled d.digits d.scale (4 * x.mantissa - below) (x.exponent - 2)
  let high := compareScaled d.digits d.scale (4 * x.mantissa + 2) (x.exponent - 2)
  let closed := x.mantissa % 2 == 0
  (low == .gt || (closed && low == .eq)) && (high == .lt || (closed && high == .eq))

/-- The numerator and the denominator of the magnitude of `x` in units of `10 ^ scale`. -/
def inUnits (x : Double) (scale : Int) : Nat × Nat :=
  (x.mantissa * Nat.pow 2 x.exponent.toNat * Nat.pow 10 (-scale).toNat,
   Nat.pow 2 (-x.exponent).toNat * Nat.pow 10 scale.toNat)

/-- Whether `num / den` goes up to the next integer rather than down. -/
def goesUp (tie : Tie) (num den : Nat) : Bool :=
  match compare (2 * (num % den)) den with
  | .lt => false
  | .gt => true
  | .eq => tie == .away || num / den % 2 == 1

/-- The best decimal on the grid of `10 ^ scale`, if one rounds to `x`. -/
def onGrid? (tie : Tie) (x : Double) (scale : Int) : Option Decimal :=
  let (num, den) := inUnits x scale
  let down : Decimal := ⟨num / den, scale⟩
  let up : Decimal := ⟨num / den + 1, scale⟩
  match down.roundsTo x, up.roundsTo x with
  | true, true => some (if goesUp tie num den then up else down)
  | true, false => some down
  | false, true => some up
  | false, false => none

/-- The least `k` with magnitude below `10 ^ k`, for a finite number that is not zero. -/
def decimalScale (x : Double) : Int :=
  -- 30103 / 100000 is a little more than the decimal logarithm of two
  let guess := (((x.mantissa.log2 : Int) + x.exponent) * 30103).fdiv 100000 - 1
  let fits (k : Int) : Bool := compareScaled 1 k x.mantissa x.exponent == .gt
  if fits guess then guess else if fits (guess + 1) then guess + 1
  else if fits (guess + 2) then guess + 2 else guess + 3

/-- Drop trailing zeros, at most `fuel` of them. -/
def strip : Nat → Decimal → Decimal
  | 0, d => d
  | fuel + 1, d => if d.digits % 10 == 0 && d.digits != 0 then strip fuel ⟨d.digits / 10,
    d.scale + 1⟩ else d

/-- The first hit on the grids of `n`, `n + 1`, ... digits. -/
def search (tie : Tie) (x : Double) (top : Int) : Nat → Nat → Option Decimal
  | 0, _ => none
  | fuel + 1, n => (onGrid? tie x (top - n)) <|> search tie x top fuel (n + 1)

/-- The decimal with the fewest digits that rounds to the magnitude of a finite number. -/
def shortest (tie : Tie) (x : Double) : Decimal :=
  if x.isZero then ⟨0, 0⟩
  else
    match search tie x (decimalScale x) 17 1 with
    | some d => strip 20 d
    | none =>
      -- the exact value, should the search ever end without a hit
      ⟨x.mantissa * Nat.pow 2 x.exponent.toNat * Nat.pow 5 (-x.exponent).toNat, min x.exponent 0⟩

/-- The magnitude bits of the double nearest to a decimal, or nothing when it is too large. Decimals
whose order of magnitude is beyond every double are settled without computing the power. -/
def toMagnitude? (d : Decimal) : Option Nat :=
  let order := (Nat.toDigits 10 d.digits).length + d.scale
  if d.digits == 0 || order < -400 then some 0
  else if order > 400 then none
  else Double.nearest? (d.digits * Nat.pow 10 d.scale.toNat) (Nat.pow 10 (-d.scale).toNat)

/-- How a decimal is laid out as text. -/
structure Layout where
  /-- the exponents of the first digit that are written positionally -/
  positional : Int → Bool
  /-- whether an integral value carries `.0` in positional notation -/
  point : Bool
  /-- which of two equally near decimals stands for a double -/
  tie : Tie

/-- The digits with the decimal point in place, for a first digit worth `10 ^ lead`. -/
def positionalText (digits : List Char) (lead : Int) (point : Bool) : List Char :=
  if lead < 0 then '0' :: '.' :: List.replicate (-lead - 1).toNat '0' ++ digits
  else
    let whole := lead.toNat + 1
    if digits.length ≤ whole then
      digits ++ List.replicate (whole - digits.length) '0' ++ (if point then ['.', '0'] else [])
    else digits.take whole ++ '.' :: digits.drop whole

/-- The digits with one before the point and a signed exponent. -/
def scientificText (digits : List Char) (lead : Int) : List Char :=
  let sign := if lead < 0 then '-' else '+'
  let exponent := sign :: Nat.toDigits 10 lead.natAbs
  match digits with
  | [] => 'e' :: exponent
  | [d] => d :: 'e' :: exponent
  | d :: ds => d :: '.' :: ds ++ 'e' :: exponent

/-- A decimal as text. -/
def chars (layout : Layout) (d : Decimal) : List Char :=
  let digits := Nat.toDigits 10 d.digits
  let lead := d.scale + digits.length - 1
  if layout.positional lead then positionalText digits lead layout.point
  else scientificText digits lead

end Decimal

namespace Double

/-- A finite number as text, with the fewest digits that stand for it. -/
def chars (layout : Decimal.Layout) (x : Double) : List Char :=
  (if x.isNegative then ['-'] else []) ++ (Decimal.shortest layout.tie x).chars layout

/-- Plain text: never an exponent, no point unless there is a fraction, and a tie goes away from
zero. -/
def plain : Decimal.Layout := ⟨fun _ => true, false, .away⟩

/-- A number as plain text. -/
def text (x : Double) : String :=
  if x.isNaN then "NaN"
  else if x.isInfinite then (if x.isNegative then "-inf" else "inf")
  else String.ofList (x.chars plain)

end Double

end GraphRows
