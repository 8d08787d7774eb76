import GraphRows.Time.Calendar
import GraphRows.Number.Integer

/-!
# Instants

An instant is a count of seconds since the start of 1970 and the nanoseconds after that second. A
leap second is the second before it with a nanosecond count of a thousand million or more, so that
it is written `:60` and lies between its neighbours.

`format` writes milliseconds and `Z`, dropping what is finer; `formatFull` writes the offset in
digits and as many digits of the fraction as are needed, in groups of three. `parse?` reads the
internet profile of the standard notation: four digits of the year, a `T` or a blank, a fraction of
any length of which nine digits count, and an offset.
-/

namespace GraphRows

/-- A point in time. -/
structure Instant where
  seconds : Int
  nanos : Nat
deriving DecidableEq, Repr

namespace Instant

/-- The part finer than a millisecond dropped. -/
def truncate (t : Instant) : Instant := ⟨t.seconds, t.nanos - t.nanos % 1000000⟩

/-- A number in at least `width` decimal digits. -/
def pad (width n : Nat) : List Char :=
  let ds := Nat.toDigits 10 n
  List.replicate (width - ds.length) '0' ++ ds

/-- A year: four digits, and a sign before those that need more or are negative. -/
def yearChars (y : Int) : List Char :=
  if 0 ≤ y && y ≤ 9999 then pad 4 y.toNat
  else (if y < 0 then '-' else '+') :: pad 4 y.natAbs

/-- The date and the time of day, to the second. -/
def clockChars (t : Instant) : List Char :=
  let dayNumber := t.seconds.fdiv 86400
  let second := (t.seconds - dayNumber * 86400).toNat
  let d := Day.ofNumber dayNumber
  let leap := if t.nanos ≥ 1000000000 then 1 else 0
  yearChars d.year ++ '-' :: pad 2 d.month ++ '-' :: pad 2 d.day ++ 'T' :: pad 2 (second / 3600)
    ++ ':' :: pad 2 (second / 60 % 60) ++ ':' :: pad 2 (second % 60 + leap)

/-- The instant to the millisecond, at offset zero. -/
def format (t : Instant) : String :=
  String.ofList (clockChars t ++ '.' :: pad 3 (t.nanos % 1000000000 / 1000000) ++ ['Z'])

/-- The fraction in none, three, six or nine digits, whichever is the least that loses nothing. -/
def fractionChars (nanos : Nat) : List Char :=
  if nanos == 0 then []
  else if nanos % 1000000 == 0 then '.' :: pad 3 (nanos / 1000000)
  else if nanos % 1000 == 0 then '.' :: pad 6 (nanos / 1000)
  else '.' :: pad 9 nanos

/-- The instant in full. -/
def formatFull (t : Instant) : String :=
  String.ofList (clockChars t ++ fractionChars (t.nanos % 1000000000) ++ "+00:00".toList)

/-! ## Reading -/

/-- Exactly `n` decimal digits. -/
def digits (n : Nat) (cs : List Char) : Option (Nat × List Char) :=
  if n ≤ cs.length then (Integer.value? (cs.take n)).map (·, cs.drop n) else none

/-- One given character. -/
def expect (c : Char) : List Char → Option (List Char)
  | d :: rest => if c == d then some rest else none
  | [] => none

/-- An optional fraction of a second, in nanoseconds. -/
def fraction : List Char → Option (Nat × List Char)
  | '.' :: rest =>
    let ds := rest.takeWhile Char.isDigit
    if ds.isEmpty then none
    else do
      let n ← Integer.value? (ds.take 9)
      return (n * Nat.pow 10 (9 - min 9 ds.length), rest.dropWhile Char.isDigit)
  | cs => some (0, cs)

/-- An offset from universal time, in minutes. -/
def offset : List Char → Option (Int × List Char)
  | [] => none
  | sign :: rest =>
    if sign == 'Z' || sign == 'z' then some (0, rest)
    else do
      let negative ←
        if sign == '+' then some false
        else if sign == '-' || sign == Char.ofNat 0x2212 then some true
        else none
      let (h, rest) ← digits 2 rest
      let rest ← expect ':' rest
      let (m, rest) ← digits 2 rest
      if h ≤ 23 && m ≤ 59 then
        let total : Int := h * 60 + m
        return (if negative then -total else total, rest)
      else none

/-- Read an instant. -/
def parse? (s : String) : Option Instant := do
  let (year, cs) ← digits 4 s.toList
  let cs ← expect '-' cs
  let (month, cs) ← digits 2 cs
  let cs ← expect '-' cs
  let (day, cs) ← digits 2 cs
  let cs ← expect 'T' cs <|> expect 't' cs <|> expect ' ' cs
  let (hour, cs) ← digits 2 cs
  let cs ← expect ':' cs
  let (minute, cs) ← digits 2 cs
  let cs ← expect ':' cs
  let (second, cs) ← digits 2 cs
  let (nanos, cs) ← fraction cs
  let (shift, cs) ← offset cs
  let date : Day := ⟨year, month, day⟩
  if cs.isEmpty && date.isValid && hour ≤ 23 && minute ≤ 59 && second ≤ 60 then
    let clock : Int := hour * 3600 + minute * 60 + min second 59
    return ⟨date.toNumber * 86400 + clock - shift * 60,
      nanos + (if second == 60 then 1000000000 else 0)⟩
  else none

end Instant

end GraphRows
