import GraphRows.Text.Bytes

/-!
# Hexadecimal

Row ids and lengths are written in lowercase hexadecimal without leading zeros. Reading accepts both
letter cases.
-/

namespace GraphRows.Hex

/-- The value of a hexadecimal digit. -/
def digit? (c : Char) : Option Nat :=
  if '0' ≤ c && c ≤ '9' then some (c.toNat - '0'.toNat)
  else if 'a' ≤ c && c ≤ 'f' then some (c.toNat - 'a'.toNat + 10)
  else if 'A' ≤ c && c ≤ 'F' then some (c.toNat - 'A'.toNat + 10)
  else none

/-- The digits of a number, without leading zeros; zero is one digit. -/
def chars (n : Nat) : List Char := Nat.toDigits 16 n

/-- A number in lowercase hexadecimal. -/
def text (n : Nat) : String := String.ofList (chars n)

/-- The value of a list of digits, most significant first. -/
def value? : List Char → Option Nat
  | cs => cs.foldl (fun acc c => acc.bind fun n => (digit? c).map (n * 16 + ·)) (some 0)

/-- Read an unsigned number below `bound`: one `+` may stand before the digits, and there is at
least one digit. -/
def read? (bound : Nat) (cs : List Char) : Option Nat :=
  let digits := match cs with
    | '+' :: rest => rest
    | _ => cs
  if digits.isEmpty then none
  else (value? digits).filter (· < bound)

/-- A number in exactly `width` digits, cut from the left. -/
def padded (width n : Nat) : String :=
  let ds := chars (n % Nat.pow 16 width)
  String.ofList (List.replicate (width - ds.length) '0' ++ ds)

/-- Two digits for every byte. -/
def ofBytes (bs : Bytes) : String := String.join (bs.map fun b => padded 2 b.toNat)

/-- The bytes written by pairs of digits. -/
def toBytes? : List Char → Option Bytes
  | [] => some []
  | [_] => none
  | h :: l :: rest => do
    let hi ← digit? h
    let lo ← digit? l
    let tail ← toBytes? rest
    return UInt8.ofNat (hi * 16 + lo) :: tail

end GraphRows.Hex
