import GraphRows.Text.Bytes

/-!
# Sinks

A sink takes chunks of bytes and answers each time whether it wants more. The answer is a function
of how many chunks it was given and how many bytes it holds, so that a sink with a high-water mark
and a sink that answers in any pattern are both sinks. A sink that answers no has taken the chunk
all the same.

A batch stands before a sink and collects rows until they would exceed its size; a row longer than
that goes out alone, behind what was collected.
-/

namespace GraphRows

/-- A taker of chunks. -/
structure Sink where
  /-- the chunks it holds, oldest first -/
  chunks : List Bytes := []
  /-- how many chunks it was ever given -/
  writes : Nat := 0
  /-- how often it was closed -/
  closes : Nat := 0
  /-- the answer, from the chunks given so far and the bytes held -/
  ready : Nat → Nat → Bool := fun _ _ => true
deriving Inhabited

namespace Sink

/-- A sink that always wants more. -/
def unlimited : Sink := {}

/-- A sink that wants more while it holds fewer bytes than its mark. -/
def withMark (mark : Nat) : Sink := { ready := fun _ held => held < mark }

/-- The bytes held. -/
def bytes (s : Sink) : Bytes := s.chunks.flatten

/-- How many bytes are held. -/
def held (s : Sink) : Nat := s.chunks.foldl (fun n chunk => n + chunk.length) 0

/-- Whether the sink was closed. -/
def isClosed (s : Sink) : Bool := s.closes > 0

/-- Give a chunk, and hear whether more is wanted. -/
def write (s : Sink) (chunk : Bytes) : Bool × Sink :=
  let s := { s with chunks := s.chunks ++ [chunk], writes := s.writes + 1 }
  (s.ready s.writes s.held, s)

/-- Close the sink. -/
def close (s : Sink) : Sink := { s with closes := s.closes + 1 }

/-- Take everything out. -/
def takeAll (s : Sink) : List Bytes × Sink := (s.chunks, { s with chunks := [] })

/-- Take the oldest chunk out. -/
def pop (s : Sink) : Option Bytes × Sink :=
  match s.chunks with
  | [] => (none, s)
  | c :: rest => (some c, { s with chunks := rest })

@[simp] theorem bytes_write (s : Sink) (chunk : Bytes) :
    (s.write chunk).2.bytes = s.bytes ++ chunk := by
  simp [write, bytes]

end Sink

/-- Rows collected before they go to a sink. -/
structure Batch where
  view : Bytes := []
  size : Nat
deriving Inhabited

namespace Batch

/-- Send what was collected, and hear whether more is wanted. -/
def complete (b : Batch) (s : Sink) : Bool × Batch × Sink :=
  if b.view.isEmpty then (true, b, s)
  else
    let (ready, s) := s.write b.view
    (ready, { b with view := [] }, s)

/-- Add a row, sending what was collected if the row does not fit beside it. -/
def add (b : Batch) (s : Sink) (row : Bytes) : Bool × Batch × Sink :=
  if row.length > b.size then
    let (ready, b, s) := b.complete s
    let (wanted, s) := s.write row
    (wanted && ready, b, s)
  else if b.view.length + row.length > b.size then
    let (ready, b, s) := b.complete s
    (ready, { b with view := b.view ++ row }, s)
  else (true, { b with view := b.view ++ row }, s)

theorem bytes_complete (b : Batch) (s : Sink) :
    (b.complete s).2.2.bytes ++ (b.complete s).2.1.view = s.bytes ++ b.view := by
  unfold complete
  split
  · simp
  · simp

/-- **Batching loses nothing**: what the sink holds and what is still collected is what there was,
and the row. -/
theorem bytes_add (b : Batch) (s : Sink) (row : Bytes) :
    (b.add s row).2.2.bytes ++ (b.add s row).2.1.view = s.bytes ++ b.view ++ row := by
  have view_complete : (b.complete s).2.1.view = [] := by
    unfold complete
    split <;> simp_all
  have sent := bytes_complete b s
  rw [view_complete, List.append_nil] at sent
  unfold add
  split
  · simp [view_complete, sent]
  · split
    · simp [view_complete, sent]
    · simp

end Batch

end GraphRows
