import GraphRows.Encoder.Basic

/-!
# Flushing

The queues are emptied in their order into the sink, through the batch, until the sink answers that
it wants no more. Rows never leave their order within a queue and are never split or dropped; the
row on which the sink answered no has been taken. At the end of every flush the batch is empty. When
nothing is owed any more, the sink is closed and let go.
-/

namespace GraphRows

/-- What a flush changes besides the queues. -/
structure Outflow where
  pending : Nat
  batch : Batch
  sink : Sink

namespace Outflow

/-- Send one row. -/
def send (o : Outflow) (counted : Bool) (r : Row) : Bool × Outflow :=
  let (ready, batch, sink) := o.batch.add o.sink r.encode
  (ready, ⟨if counted then o.pending - 1 else o.pending, batch, sink⟩)

/-- Send the rows of a queue until the sink wants no more. The rows left are returned, and whether
it wants more. -/
def pour (counted : Bool) (o : Outflow) : List Row → List Row × Bool × Outflow
  | [] => ([], true, o)
  | r :: rest =>
    match o.send counted r with
    | (true, o) => pour counted o rest
    | (false, o) => (rest, false, o)

/-- Send the rows of a queue if the sink wants more. -/
def pourIf (o : Outflow) (ready counted : Bool) (rows : List Row) : List Row × Bool × Outflow :=
  if ready then o.pour counted rows else (rows, false, o)

end Outflow

namespace Encoder

/-- Send queued rows to the sink, and close it when nothing is owed any more. -/
def flush (e : Encoder) (s : Store) : Encoder × Store :=
  match e.sink with
  | none => (e, s)
  | some i =>
    let o : Outflow := ⟨e.pending, e.batch, s.sink i⟩
    let (imports, ready, o) := o.pour true e.imports
    let (hints, ready, o) := o.pourIf ready false e.hints
    let (regular, ready, o) := o.pourIf ready true e.regular
    let (errors, ready, o) := o.pourIf ready true e.errors
    let (wanted, batch, sink) := o.batch.complete o.sink
    let e := { e with
      imports, hints, regular, errors, batch, pending := o.pending, flowing :=
        e.flowing && ready && wanted }
    if e.pending == 0 && e.hints.isEmpty && e.status != .closed then
      ({ e with status := .closed, sink := none }, s.setSink i sink.close)
    else (e, s.setSink i sink)

end Encoder

end GraphRows
