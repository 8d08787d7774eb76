import GraphRows.Json.Basic
import GraphRows.Number.Decimal
import GraphRows.Number.Integer
import GraphRows.Text.Hex
import GraphRows.Text.Utf8

/-!
# Reading JSON

A strict reader: four kinds of blanks, no leading zeros, no raw control characters and no lone
surrogates in strings, nothing after the value. Arrays and objects may nest up to a limit. A number
that no double can hold is an error.

The reader works on characters and returns what it leaves. Every turn consumes a character, so the
number of characters bounds the number of turns; that bound is the fuel, and a reader given it never
runs dry.

`readRaw` keeps repeated keys of an object; `read` merges them, the first place and the last value
winning.
-/

namespace GraphRows.Json

/-- Why a text is no JSON value. -/
inductive ReadError where
  | unexpectedEnd
  | unexpected (c : Char)
  | badEscape
  | badNumber
  | tooDeep
  | badText
  | badShape
deriving DecidableEq, Repr

/-- The reason in words. -/
def ReadError.message : ReadError → String
  | .unexpectedEnd => "the text ends too early"
  | .unexpected _ => "an unexpected character"
  | .badEscape => "an invalid escape"
  | .badNumber => "a number out of range"
  | .tooDeep => "nested too deeply"
  | .badText => "not a text"
  | .badShape => "not of the expected shape"

/-- How deep arrays and objects may nest. -/
def depthLimit : Nat := 127

/-- A blank between tokens. -/
def isBlank (c : Char) : Bool := c == ' ' || c == '\n' || c == '\t' || c == '\r'

/-- The text without leading blanks. -/
def skip (cs : List Char) : List Char := cs.dropWhile isBlank

/-- The error at the start of a text. -/
def refuse {α : Type} : List Char → Except ReadError α
  | [] => .error .unexpectedEnd
  | c :: _ => .error (.unexpected c)

/-- Four hexadecimal digits. -/
def hex4 : List Char → Except ReadError (Nat × List Char)
  | a :: b :: c :: d :: rest =>
    match Hex.value? [a, b, c, d] with
    | some n => .ok (n, rest)
    | none => .error .badEscape
  | _ => .error .unexpectedEnd

/-- The character of a `\u` escape, after the `u`. A high surrogate is followed by the escape of a
low one. -/
def unicodeEscape (cs : List Char) : Except ReadError (Char × List Char) := do
  let (n, rest) ← hex4 cs
  if 0xDC00 ≤ n && n ≤ 0xDFFF then .error .badEscape
  else if 0xD800 ≤ n && n ≤ 0xDBFF then
    match rest with
    | '\\' :: 'u' :: rest =>
      let (m, rest) ← hex4 rest
      if 0xDC00 ≤ m && m ≤ 0xDFFF then
        return (Char.ofNat ((n - 0xD800) * 0x400 + (m - 0xDC00) + 0x10000), rest)
      else .error .badEscape
    | _ => .error .badEscape
  else return (Char.ofNat n, rest)

/-- The character of an escape, after the backslash. -/
def escape : List Char → Except ReadError (Char × List Char)
  | [] => .error .unexpectedEnd
  | c :: rest =>
    match c with
    | '"' => .ok ('"', rest)
    | '\\' => .ok ('\\', rest)
    | '/' => .ok ('/', rest)
    | 'b' => .ok ('\x08', rest)
    | 'f' => .ok ('\x0c', rest)
    | 'n' => .ok ('\n', rest)
    | 'r' => .ok ('\r', rest)
    | 't' => .ok ('\t', rest)
    | 'u' => unicodeEscape rest
    | _ => .error .badEscape

/-- The rest of a string after its opening quote; `acc` holds the characters read, last first. -/
def stringRest : Nat → List Char → List Char → Except ReadError (String × List Char)
  | 0, _, _ => .error .unexpectedEnd
  | _, _, [] => .error .unexpectedEnd
  | fuel + 1, acc, c :: rest =>
    if c == '"' then .ok (String.ofList acc.reverse, rest)
    else if c == '\\' then do
      let (d, rest) ← escape rest
      stringRest fuel (d :: acc) rest
    else if c.toNat < 0x20 then .error (.unexpected c)
    else stringRest fuel (c :: acc) rest

/-- The exponent of a number, if there is one. -/
def exponentPart : List Char → Except ReadError (Option Int × List Char)
  | c :: rest =>
    if c == 'e' || c == 'E' then
      let (negative, rest) := match rest with
        | '-' :: more => (true, more)
        | '+' :: more => (false, more)
        | _ => (false, rest)
      let ds := rest.takeWhile Char.isDigit
      match ds, Integer.value? ds with
      | [], _ => refuse rest
      | _, none => refuse rest
      | _, some n => .ok (some (if negative then -(n : Int) else n), rest.dropWhile Char.isDigit)
    else .ok (none, c :: rest)
  | [] => .ok (none, [])

/-- The digits after the point of a number, if there is one. -/
def fractionPart : List Char → Except ReadError (Option (List Char) × List Char)
  | '.' :: rest =>
    let ds := rest.takeWhile Char.isDigit
    if ds.isEmpty then refuse rest else .ok (some ds, rest.dropWhile Char.isDigit)
  | cs => .ok (none, cs)

/-- The value of a number given by its parts. -/
def numberValue (negative : Bool) (whole : List Char) (fraction : Option (List Char))
    (exponent : Option Int) : Except ReadError Json :=
  let digits := whole ++ fraction.getD []
  let n := (Integer.value? digits).getD 0
  let signed : Int := if negative then -(n : Int) else n
  if fraction.isNone && exponent.isNone && fitsInt signed && !(negative && n == 0) then
    .ok (.int signed)
  else
    match Decimal.toMagnitude? ⟨n, exponent.getD 0 - (fraction.getD []).length⟩ with
    | some magnitude => .ok (.float (Double.ofParts negative magnitude))
    | none => .error .badNumber

/-- A number, from its first digit on. -/
def numberRest (negative : Bool) (cs : List Char) : Except ReadError (Json × List Char) := do
  let whole := cs.takeWhile Char.isDigit
  let rest := cs.dropWhile Char.isDigit
  match whole with
  | [] => refuse cs
  | '0' :: d :: _ => .error (.unexpected d)
  | _ =>
    let (fraction, rest) ← fractionPart rest
    let (exponent, rest) ← exponentPart rest
    let value ← numberValue negative whole fraction exponent
    return (value, rest)

/-- A fixed word. -/
def word (expected : List Char) (value : Json) (cs : List Char) :
    Except ReadError (Json × List Char) :=
  if expected.isPrefixOf cs then .ok (value, cs.drop expected.length) else refuse cs

mutual

/-- One value, with `depth` levels of nesting left. -/
def value : Nat → Nat → List Char → Except ReadError (Json × List Char)
  | 0, _, _ => .error .unexpectedEnd
  | fuel + 1, depth, cs =>
    match skip cs with
    | [] => .error .unexpectedEnd
    | c :: rest =>
      if c == '"' then do
        let (s, rest) ← stringRest fuel [] rest
        return (.str s, rest)
      else if c == '[' then
        match depth with
        | 0 => .error .tooDeep
        | depth + 1 =>
          match skip rest with
          | ']' :: rest => .ok (.arr [], rest)
          | _ => do
            let (items, rest) ← items fuel depth rest
            return (.arr items, rest)
      else if c == '\x7b' then
        match depth with
        | 0 => .error .tooDeep
        | depth + 1 =>
          match skip rest with
          | '\x7d' :: rest => .ok (.obj [], rest)
          | _ => do
            let (fields, rest) ← fields fuel depth rest
            return (.obj fields, rest)
      else if c == '-' then numberRest true rest
      else if c.isDigit then numberRest false (c :: rest)
      else if c == 't' then word "true".toList (.bool true) (c :: rest)
      else if c == 'f' then word "false".toList (.bool false) (c :: rest)
      else if c == 'n' then word "null".toList .null (c :: rest)
      else .error (.unexpected c)

/-- The items of an array up to its closing bracket. -/
def items : Nat → Nat → List Char → Except ReadError (List Json × List Char)
  | 0, _, _ => .error .unexpectedEnd
  | fuel + 1, depth, cs => do
    let (j, rest) ← value fuel depth cs
    match skip rest with
    | ',' :: rest => do
      let (more, rest) ← items fuel depth rest
      return (j :: more, rest)
    | ']' :: rest => return ([j], rest)
    | rest => refuse rest

/-- The fields of an object up to its closing brace. -/
def fields : Nat → Nat → List Char → Except ReadError (List (String × Json) × List Char)
  | 0, _, _ => .error .unexpectedEnd
  | fuel + 1, depth, cs =>
    match skip cs with
    | '"' :: rest => do
      let (key, rest) ← stringRest fuel [] rest
      match skip rest with
      | ':' :: rest => do
        let (j, rest) ← value fuel depth rest
        match skip rest with
        | ',' :: rest => do
          let (more, rest) ← fields fuel depth rest
          return ((key, j) :: more, rest)
        | '\x7d' :: rest => return ([(key, j)], rest)
        | rest => refuse rest
      | rest => refuse rest
    | rest => refuse rest

end

/-- Read a whole text, keeping repeated keys. -/
def readRaw (limit : Nat) (s : String) : Except ReadError Json := do
  let cs := s.toList
  let (j, rest) ← value (cs.length + 1) limit cs
  match skip rest with
  | [] => return j
  | c :: _ => .error (.unexpected c)

/-- Read a whole text. -/
def read (s : String) : Except ReadError Json := (readRaw depthLimit s).map merge

/-- Read a whole text from its bytes. -/
def readBytes (bs : Bytes) : Except ReadError Json :=
  match Utf8.decode? bs with
  | some s => read s
  | none => .error .badText

end GraphRows.Json
