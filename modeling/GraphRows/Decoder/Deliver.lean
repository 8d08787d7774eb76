import GraphRows.Decoder.Revive

/-!
# Delivering

Items of a stream are delivered in the order of their rows. An item that is a model row has an entry
of its own, without a row id; while that entry waits for other rows, the items behind it wait too.

When an entry settles, its watchers run once, and entries that settle thereby follow in turn. An
entry settles at most once and none is created meanwhile, so the number of entries bounds the turns;
that bound is the fuel.
-/

namespace GraphRows.DecodeM

/-- The event a stream entry turns into, or the entry it waits for. -/
def eventOf (d : Decoder) : StreamEntry → Except Nat StreamEvent
  | .ready v => .ok (.item v)
  | .error r => .ok (.error r)
  | .close none => .ok (.close none)
  | .entry i =>
    match (d.entry i).state with
    | .fulfilled v => .ok (.item v)
    | .rejected r => .ok (.error r)
    | _ => .error i
  | .close (some i) =>
    match (d.entry i).state with
    | .fulfilled v => .ok (.close (some v))
    | .rejected r => .ok (.error r)
    | _ => .error i

/-- Deliver what can be delivered of a stream's queue, at most `fuel` events. -/
def deliverWith : Nat → Nat → DecodeM Unit
  | 0, _ => pure ()
  | fuel + 1, id => do
    let d ← decoder
    match d.stream? id with
    | none => pure ()
    | some st =>
      match st.queue with
      | [] => pure ()
      | front :: rest =>
        match eventOf d front with
        | .error i =>
          if !st.waiting then
            modifyDecoder (·.setStream id { st with waiting := true })
            modifyDecoder (·.modifyEntry i fun e =>
              { e with watchers := e.watchers ++ [.stream id] })
        | .ok event =>
          modifyDecoder (·.setStream id { st with queue := rest, waiting := false })
          modifyStore fun s => (s.push st.stream event).2
          if event.isTerminal then modifyDecoder (·.dropStream id) else deliverWith fuel id

/-- Deliver what can be delivered of a stream's queue. -/
def deliver (id : Nat) : DecodeM Unit := do
  deliverWith ((((← decoder).stream? id).map (·.queue.length)).getD 0 + 1) id

/-- Something has come for a stream. -/
def enqueue (id : Nat) (entry : StreamEntry) : DecodeM Unit := do
  match (← decoder).stream? id with
  | none => pure ()
  | some st =>
    modifyDecoder (·.setStream id { st with queue := st.queue ++ [entry] })
    deliver id

/-- Run a watcher of an entry that has settled. -/
def runWatcher (index : Nat) : Watcher → DecodeM Unit
  | .hole target hole path shape cyclic => fillHole index target hole path shape cyclic
  | .stream id => deliver id

/-- Run the watchers of the entries that have settled, for at most `fuel` entries. -/
def runWatchersWith : Nat → DecodeM Unit
  | 0 => pure ()
  | fuel + 1 => do
    match (← decoder).wake with
    | [] => pure ()
    | i :: rest =>
      let watchers := ((← decoder).entry i).watchers
      modifyDecoder fun d => { d with wake := rest }
      modifyDecoder (·.modifyEntry i ({ · with watchers := [] }))
      watchers.forM (runWatcher i)
      runWatchersWith fuel

/-- Run the watchers of all entries that have settled. -/
def runWatchers : DecodeM Unit := do
  let d ← decoder
  runWatchersWith (d.entries.size + d.wake.length + 1)

end GraphRows.DecodeM
