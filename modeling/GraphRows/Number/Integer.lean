/-!
# Integer texts

Two grammars: unsigned indexes with a bound, and integers of any size in which digits may be grouped
by underscores.
-/

namespace GraphRows.Integer

/-- The value of a decimal digit. -/
def digit? (c : Char) : Option Nat :=
  if '0' ≤ c && c ≤ '9' then some (c.toNat - '0'.toNat) else none

/-- The value of a list of digits, most significant first. -/
def value? (cs : List Char) : Option Nat :=
  cs.foldl (fun acc c => acc.bind fun n => (digit? c).map (n * 10 + ·)) (some 0)

/-- An index below `2 ^ 64`: one `+` may stand before the digits, and there is at least one
digit. -/
def index? (s : String) : Option Nat :=
  let digits := match s.toList with
    | '+' :: rest => rest
    | cs => cs
  if digits.isEmpty then none
  else (value? digits).filter (· < Nat.pow 2 64)

/-- Digits of any number, grouped by underscores anywhere but in front. -/
def grouped? (cs : List Char) : Option Nat :=
  match cs with
  | [] => none
  | '_' :: _ => none
  | cs => value? (cs.filter (· != '_'))

/-- An integer of any size: one sign, then grouped digits. -/
def read? (s : String) : Option Int :=
  match s.toList with
  | '-' :: rest => (grouped? rest).map fun n => -(n : Int)
  | '+' :: rest => (grouped? rest).map Int.ofNat
  | cs => (grouped? cs).map Int.ofNat

end GraphRows.Integer
