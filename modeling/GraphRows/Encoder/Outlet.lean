import GraphRows.Encoder.Work

/-!
# Outlets

An outlet is an encoder with a sink of its own, read chunk by chunk. Polling it lets the encoder
work as far as it can; when there is nothing to hand out and more may come, the bell is rung once
something has settled.
-/

namespace GraphRows

/-- An encoder read chunk by chunk. -/
structure Outlet where
  encoder : Encoder
  sink : Nat
deriving Inhabited

namespace Outlet

/-- Read an encoder chunk by chunk. An encoder that already flows elsewhere goes on doing so. -/
def create (e : Encoder) (s : Store) : Outlet × Store :=
  let (sink, s) := s.newSink .unlimited
  match e.startFlowing s sink with
  | .ok (e, s) => (⟨e, sink⟩, s)
  | .error _ => (⟨e, sink⟩, s)

/-- Take a chunk that is there. -/
def take? (o : Outlet) (s : Store) : Option Bytes × Store :=
  let (chunk, sink) := (s.sink o.sink).pop
  (chunk, s.setSink o.sink sink)

/-- Ask for a chunk. -/
def poll {η : Type} (run : Force η) (fuel : Nat) (o : Outlet) (bell : Nat) (s : Store) (host : η) :
    Option (Polled Bytes × Outlet × Store × η) :=
  match o.take? s with
  | (some chunk, s) => some (.got chunk, o, s, host)
  | (none, s) => do
    let (result, e, s, host) ← o.encoder.work run fuel (s.listen o.encoder.mailbox bell) host
    match result with
    | .error _ => return (.ended, { o with encoder := e }, s, host)
    | .ok () =>
      let (e, s) := e.pull s
      let o := { o with encoder := e }
      match o.take? s with
      | (some chunk, s) => return (.got chunk, o, s, host)
      | (none, s) => return (if (s.sink o.sink).isClosed then .ended else .waiting, o, s, host)

end Outlet

end GraphRows
