import GraphRows.Json.Reader

/-!
# Passing over JSON

A value nobody asks for is passed over. It has to have the form of JSON, but nothing is made of it:
its numbers may be too large for a double, its escapes may name lone surrogates, and it may nest
without limit.

Passing over a value keeps the brackets that are open around the place it has reached, innermost
first. Every turn but the last consumes a character, so the number of characters bounds the number
of turns; that bound is the fuel.
-/

namespace GraphRows.Json

/-- The text behind the rest of a string, after its opening quote. -/
def passString : List Char → Except ReadError (List Char)
  | [] => .error .unexpectedEnd
  | '"' :: rest => .ok rest
  | '\\' :: 'u' :: a :: b :: c :: d :: rest =>
    if (Hex.value? [a, b, c, d]).isSome then passString rest else .error .badEscape
  | '\\' :: c :: rest =>
    if "\"\\/bfnrt".toList.contains c then passString rest else .error .badEscape
  | c :: rest => if c == '\\' || c.toNat < 0x20 then .error (.unexpected c) else passString rest

/-- The text behind a number, from its first digit on. -/
def passNumber (cs : List Char) : Except ReadError (List Char) := do
  match cs.takeWhile Char.isDigit with
  | [] => refuse cs
  | '0' :: d :: _ => .error (.unexpected d)
  | _ =>
    let (_, rest) ← fractionPart (cs.dropWhile Char.isDigit)
    let (_, rest) ← exponentPart rest
    return rest

/-- The text behind a value that is neither an array nor an object. -/
def passScalar : List Char → Except ReadError (List Char)
  | [] => .error .unexpectedEnd
  | '"' :: rest => passString rest
  | '-' :: rest => passNumber rest
  | c :: rest =>
    if c.isDigit then passNumber (c :: rest)
    else do
      let words := ["true".toList, "false".toList, "null".toList]
      match words.find? (·.isPrefixOf (c :: rest)) with
      | some w => return (c :: rest).drop w.length
      | none => .error (.unexpected c)

/-- The text behind the key of a field and its colon. -/
def passKey (cs : List Char) : Except ReadError (List Char) := do
  match skip cs with
  | '"' :: rest =>
    match skip (← passString rest) with
    | ':' :: rest => return rest
    | rest => refuse rest
  | rest => refuse rest

/-- The bracket that closes another. -/
def closing (bracket : Char) : Char := if bracket == '[' then ']' else '\x7d'

/-- The text in front of the next value inside a bracket: an item, or the value of a field. -/
def passLead (bracket : Char) (cs : List Char) : Except ReadError (List Char) :=
  if bracket == '[' then .ok cs else passKey cs

/-- Pass over what is left of a value: with `before`, a value comes next, and otherwise one has just
ended. -/
def passRest : Nat → Bool → List Char → List Char → Except ReadError (List Char)
  | 0, _, _, _ => .error .unexpectedEnd
  | fuel + 1, true, brackets, cs =>
    match skip cs with
    | [] => .error .unexpectedEnd
    | c :: rest =>
      if c == '[' || c == '\x7b' then
        match skip rest with
        | [] => .error .unexpectedEnd
        | d :: more =>
          if d == closing c then passRest fuel false brackets more
          else
            match passLead c (d :: more) with
            | .error e => .error e
            | .ok rest => passRest fuel true (c :: brackets) rest
      else
        match passScalar (c :: rest) with
        | .error e => .error e
        | .ok rest => passRest fuel false brackets rest
  | _ + 1, false, [], cs => .ok cs
  | fuel + 1, false, bracket :: brackets, cs =>
    match skip cs with
    | [] => .error .unexpectedEnd
    | c :: rest =>
      if c == closing bracket then passRest fuel false brackets rest
      else if c == ',' then
        match passLead bracket rest with
        | .error e => .error e
        | .ok rest => passRest fuel true (bracket :: brackets) rest
      else .error (.unexpected c)

/-- The text behind a value. The fuel is enough if it exceeds the number of characters. -/
def pass (fuel : Nat) (cs : List Char) : Except ReadError (List Char) := passRest fuel true [] cs

/-! ## Objects read field by field -/

/-- The fields of an object up to its closing brace, with each value read as its key asks. -/
def fieldsWith {α : Type} (read : String → List Char → Except ReadError (α × List Char)) :
    Nat → List Char → Except ReadError (List (String × α) × List Char)
  | 0, _ => .error .unexpectedEnd
  | fuel + 1, cs =>
    match skip cs with
    | '"' :: rest => do
      let (key, rest) ← stringRest fuel [] rest
      match skip rest with
      | ':' :: rest => do
        let (a, rest) ← read key rest
        match skip rest with
        | ',' :: rest => do
          let (more, rest) ← fieldsWith read fuel rest
          return ((key, a) :: more, rest)
        | '\x7d' :: rest => return ([(key, a)], rest)
        | rest => refuse rest
      | rest => refuse rest
    | rest => refuse rest

/-- An object, with each value read as its key asks. -/
def objectWith {α : Type} (read : String → List Char → Except ReadError (α × List Char))
    (fuel : Nat) (cs : List Char) : Except ReadError (List (String × α) × List Char) :=
  match skip cs with
  | '\x7b' :: rest =>
    match skip rest with
    | '\x7d' :: rest => .ok ([], rest)
    | rest => fieldsWith read fuel rest
  | rest => refuse rest

end GraphRows.Json
