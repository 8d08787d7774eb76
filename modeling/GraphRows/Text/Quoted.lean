import GraphRows.Text.Hex
import GraphRows.Text.Shown

/-!
# Quoted text

Texts, characters and bytes as they appear inside messages and inspections: between quotes, with the
characters that would be invisible or ambiguous written as escapes. The quote character that closes
the text is the only one escaped.
-/

namespace GraphRows.Quoted

/-- One character inside the given quotes. -/
def escape (quote c : Char) : List Char :=
  match c with
  | '\x00' => ['\\', '0']
  | '\t' => ['\\', 't']
  | '\n' => ['\\', 'n']
  | '\r' => ['\\', 'r']
  | '\\' => ['\\', '\\']
  | c =>
    if c == quote then ['\\', c]
    else if Shown.isShown c then [c]
    else ['\\', 'u', '\x7b'] ++ Hex.chars c.toNat ++ ['\x7d']

/-- A text in double quotes. -/
def text (s : String) : String :=
  String.ofList ('"' :: s.toList.flatMap (escape '"') ++ ['"'])

/-- A character in single quotes. -/
def char (c : Char) : String :=
  String.ofList ('\x27' :: escape '\x27' c ++ ['\x27'])

/-- One byte inside double quotes. -/
def escapeByte (b : UInt8) : List Char :=
  match latin b with
  | '\x00' => ['\\', '0']
  | '\t' => ['\\', 't']
  | '\n' => ['\\', 'n']
  | '\r' => ['\\', 'r']
  | '\\' => ['\\', '\\']
  | '"' => ['\\', '"']
  | c => if 0x20 ≤ b && b < 0x7F then [c] else ['\\', 'x'] ++ (Hex.padded 2 b.toNat).toList

/-- Bytes in double quotes behind a `b`. -/
def bytes (bs : Bytes) : String :=
  String.ofList ('b' :: '"' :: bs.flatMap escapeByte ++ ['"'])

end GraphRows.Quoted
