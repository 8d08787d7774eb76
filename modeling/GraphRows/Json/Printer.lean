import GraphRows.Json.Basic
import GraphRows.Number.Decimal
import GraphRows.Text.Hex

/-!
# Printing JSON

No blanks, fields in their order. Inside strings only the quote, the backslash and the control
characters are escaped, so a printed value never holds a raw newline: that is what lets a row end
with one.
-/

namespace GraphRows.Json

/-- Doubles are positional from `0.00001` to sixteen digits before the point, with `.0` on integral
values, and otherwise carry a signed exponent. A tie goes to the even digit. -/
def numberLayout : Decimal.Layout := ⟨fun lead => -5 ≤ lead && lead ≤ 15, true, .toEven⟩

/-- One character of a string. -/
def escapeChar (c : Char) : List Char :=
  match c with
  | '"' => ['\\', '"']
  | '\\' => ['\\', '\\']
  | '\n' => ['\\', 'n']
  | '\r' => ['\\', 'r']
  | '\t' => ['\\', 't']
  | '\x08' => ['\\', 'b']
  | '\x0c' => ['\\', 'f']
  | c => if c.toNat < 0x20 then ['\\', 'u', '0', '0'] ++ (Hex.padded 2 c.toNat).toList else [c]

/-- A string with its quotes. -/
def stringChars (s : String) : List Char := '"' :: s.toList.flatMap escapeChar ++ ['"']

/-- A double; the values without a decimal form are `null`. -/
def floatChars (x : Double) : List Char :=
  if x.isFinite then x.chars numberLayout else "null".toList

mutual

/-- The characters of a value. -/
def chars : Json → List Char
  | .null => "null".toList
  | .bool true => "true".toList
  | .bool false => "false".toList
  | .int n => (toString n).toList
  | .float x => floatChars x
  | .str s => stringChars s
  | .arr items => '[' :: itemChars items ++ [']']
  | .obj fields => '\x7b' :: fieldChars fields ++ ['\x7d']

/-- The items of an array, divided by commas. -/
def itemChars : List Json → List Char
  | [] => []
  | [j] => chars j
  | j :: rest => chars j ++ ',' :: itemChars rest

/-- The fields of an object, divided by commas. -/
def fieldChars : List (String × Json) → List Char
  | [] => []
  | [(k, j)] => stringChars k ++ ':' :: chars j
  | (k, j) :: rest => stringChars k ++ ':' :: chars j ++ ',' :: fieldChars rest

end

/-- The text of a value. -/
def print (j : Json) : String := String.ofList (chars j)

end GraphRows.Json
