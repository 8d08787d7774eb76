import GraphRows.Store.Basic

/-!
# Streams

Events are pushed at one end and read at the other, in order. A terminal event ends the pushing;
reading it ends the reading. One party may subscribe and is then told of every event; a cancelled
stream drops what it holds and takes no more.
-/

namespace GraphRows

/-- What polling finds: nothing yet, the end, or something. -/
inductive Polled (α : Type) where
  | waiting
  | ended
  | got (a : α)
deriving Inhabited

namespace Store

/-- A new stream. -/
def newStream (s : Store) (kind : StreamKind) : CellId × Store := s.alloc (.stream { kind })

/-- Push an event. The answer is whether the stream took it. -/
def push (s : Store) (id : CellId) (e : StreamEvent) : Bool × Store :=
  match s.stream? id with
  | none => (false, s)
  | some st =>
    if st.finished || st.cancelled.isSome then (false, s)
    else
      let s := s.write id (.stream
        { st with buffer := st.buffer ++ [e], finished := e.isTerminal, bell := none })
      let s := match st.subscriber with
        | some (mailbox, task) => s.post mailbox (.stream task)
        | none => s
      (true, match st.bell with
        | some bell => s.ring bell
        | none => s)

/-- Cancel a stream. Only the first reason counts. -/
def cancel (s : Store) (id : CellId) (reason : Rejection) : Store :=
  match s.stream? id with
  | none => s
  | some st =>
    if st.cancelled.isSome then s
    else s.write id (.stream { st with cancelled := some reason, buffer := [], subscriber := none })

/-- Read the next event. -/
def next (s : Store) (id : CellId) : Option StreamEvent × Store :=
  match s.stream? id with
  | none => (none, s)
  | some st =>
    match st.buffer with
    | [] => (none, s)
    | e :: rest =>
      let st := { st with buffer := rest }
      let st := match e with
        | .item _ => st
        | .close v => { st with terminated := true, returned := v }
        | .error _ => { st with terminated := true }
      (some e, s.write id (.stream st))

/-- Read the events that are there, at most `fuel` of them. -/
def drainWith : Nat → CellId → Store → List StreamEvent × Store
  | 0, _, s => ([], s)
  | fuel + 1, id, s =>
    match s.next id with
    | (none, s) => ([], s)
    | (some e, s) =>
      let (es, s) := drainWith fuel id s
      (e :: es, s)

/-- Read all events that are there. -/
def drain (s : Store) (id : CellId) : List StreamEvent × Store :=
  drainWith (((s.stream? id).map (·.buffer.length)).getD 0) id s

/-- Subscribe to a stream, hearing at once if it holds events. -/
def subscribe (s : Store) (id : CellId) (mailbox task : Nat) : Except Fault Store :=
  match s.stream? id with
  | none => .ok s
  | some st =>
    if st.locked then .error .streamLocked
    else
      let s := s.write id (.stream { st with locked := true, subscriber := some (mailbox, task) })
      .ok (if st.buffer.isEmpty then s else s.post mailbox (.stream task))

/-- Read the next event, or leave a bell to be rung when there is one. -/
def pollStream (s : Store) (id : CellId) (bell : Nat) : Polled Outcome × Store :=
  match s.stream? id with
  | none => (.ended, s)
  | some st =>
    if st.terminated then (.ended, s)
    else
      match s.next id with
      | (some (.item v), s) => (.got (.ok v), s)
      | (some (.close _), s) => (.ended, s)
      | (some (.error r), s) => (.got (.error r), s)
      | (none, s) =>
        if st.cancelled.isSome then (.ended, s)
        else (.waiting, s.write id (.stream { st with bell := some bell }))

end Store

end GraphRows
