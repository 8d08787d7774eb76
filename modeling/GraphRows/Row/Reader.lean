import GraphRows.Row.Basic

/-!
# Reading rows

The reader is a machine that takes one byte at a time. Between bytes it knows the part of a row it
is in and what it has read of it, nothing else; so cutting the input into pieces cannot change what
is read.

A byte that cannot belong to a header is refused: the machine stays as it was, and the rest of the
piece is dropped. A counted row of length zero is complete with the comma of its header.
-/

namespace GraphRows

/-- A row as read: the id, the tag byte (zero when there was none) and the bytes of the payload. -/
structure RawRow where
  id : Nat
  tag : UInt8
  payload : Bytes
deriving DecidableEq, Inhabited

/-- Where the reader stands between two bytes. Payloads are kept last byte first. -/
inductive RowReader where
  | atId (n : Nat)
  | atTag (id : Nat)
  | atLength (id : Nat) (tag : UInt8) (n : Nat)
  | inLine (id : Nat) (tag : UInt8) (payload : Bytes)
  | inBytes (id : Nat) (tag : UInt8) (left : Nat) (payload : Bytes)
deriving DecidableEq

namespace RowReader

/-- The reader before any byte. -/
def start : RowReader := .atId 0

instance : Inhabited RowReader := ⟨start⟩

/-- Whether the reader is between rows and has seen no part of an id that matters. -/
def isIdle (r : RowReader) : Bool := r == start

/-- Append a digit to a header number below `bound`. -/
def extend (bound : Nat) (tooLarge : Fault) (n : Nat) (b : UInt8) : Except Fault Nat :=
  if n * 16 ≥ bound then .error tooLarge
  else
    match Hex.digit? (latin b) with
    | some d => .ok (n * 16 + d)
    | none => .error (.badHeaderDigit (latin b))

/-- One byte of a line. -/
def lineStep (id : Nat) (tag : UInt8) (payload : Bytes) (b : UInt8) : RowReader × Option RawRow :=
  if b == newline then (start, some ⟨id, tag, payload.reverse⟩) else (.inLine id tag
    (b :: payload), none)

/-- One byte. -/
def step (r : RowReader) (b : UInt8) : Except Fault (RowReader × Option RawRow) :=
  match r with
  | .atId n =>
    if b == byte ':' then .ok (.atTag n, none)
    else (extend (Nat.pow 2 32) .rowIdTooLarge n b).map fun n => (.atId n, none)
  | .atTag id =>
    if RowTag.isCounted b then .ok (.atLength id b 0, none)
    else if RowTag.isLine b then .ok (.inLine id b [], none)
    else .ok (lineStep id 0 [] b)
  | .atLength id tag n =>
    if b == byte ',' then
      if n == 0 then .ok (start, some ⟨id, tag, []⟩) else .ok (.inBytes id tag n [], none)
    else (extend (Nat.pow 2 64) .rowLengthTooLarge n b).map fun n => (.atLength id tag n, none)
  | .inLine id tag payload => .ok (lineStep id tag payload b)
  | .inBytes id tag left payload =>
    if left ≤ 1 then .ok (start, some ⟨id, tag, (b :: payload).reverse⟩)
    else .ok (.inBytes id tag (left - 1) (b :: payload), none)

/-- What feeding a piece comes to: the rows completed, the reader after it, and the fault that
stopped it. -/
structure Fed where
  rows : List RawRow
  reader : RowReader
  fault : Option Fault

/-- Feed a piece. A fault drops the rest of the piece. -/
def feed (r : RowReader) : Bytes → Fed
  | [] => ⟨[], r, none⟩
  | b :: rest =>
    match r.step b with
    | .error f => ⟨[], r, some f⟩
    | .ok (r, none) => feed r rest
    | .ok (r, some row) =>
      let fed := feed r rest
      { fed with rows := row :: fed.rows }

/-- Feed another piece, unless a fault has stopped the reading. -/
def Fed.andThen (a : Fed) (piece : Bytes) : Fed :=
  match a.fault with
  | some _ => a
  | none => { a.reader.feed piece with rows := a.rows ++ (a.reader.feed piece).rows }

/-- **Where the bytes are cut does not matter**: two pieces read as one. -/
theorem feed_append (r : RowReader) (a b : Bytes) : r.feed (a ++ b) = (r.feed a).andThen b := by
  induction a generalizing r with
  | nil => simp [feed, Fed.andThen]
  | cons x a ih =>
    simp only [List.cons_append, feed]
    split
    · rfl
    · exact ih _
    · rename_i r' row _
      cases h : (r'.feed a).fault <;> simp [ih, Fed.andThen, h]

/-- Feed a piece to a taker of rows that may refuse one. The refused row is taken all the same, and
the rest of the piece is dropped. `n` counts the rows taken so far. -/
def feedUntil (refuse : Nat → Option Fault) (r : RowReader) (n : Nat) : Bytes → Fed
  | [] => ⟨[], r, none⟩
  | b :: rest =>
    match r.step b with
    | .error f => ⟨[], r, some f⟩
    | .ok (r, none) => feedUntil refuse r n rest
    | .ok (r, some row) =>
      match refuse n with
      | some f => ⟨[row], r, some f⟩
      | none =>
        let fed := feedUntil refuse r (n + 1) rest
        { fed with rows := row :: fed.rows }

end RowReader

end GraphRows
