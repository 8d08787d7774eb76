import GraphRows.Encoder.Flush
import GraphRows.Encoder.Render
import GraphRows.Store.Inspect

/-!
# Running an encoder

The host drives an encoder: it lets it work whenever something the graph waits for has settled,
attaches a sink once, and asks for more when the sink has room again. An abort answers for
everything outstanding: one row says why, every open task refers to it, and every open stream ends
with the reason.
-/

namespace GraphRows

namespace Render

open EncodeM

variable {η : Type}

/-- The reason of an item that waits. Below a row no value waits, so this never comes up. -/
def bareSuspension (s : Store) (promise : CellId) : Rejection :=
  .ofText ("Stream item suspended on " ++ s.inspect (.cell promise))

/-- Queue the row of one stream item. -/
def emitItem (run : Force η) (fuel : Nat) (task : Task) (item : Value) :
    EncodeM η (Except Rejection Unit) := do
  let body : Except Rejection RowBody ← match item, (← store).cellOf? item with
    | .string t, _ => pure (.ok (.text t))
    | _, some (.binary data) => pure (.ok (.binary data))
    | _, _ =>
      match ← renderModel run fuel task.id none "" item with
      | .ok j => pure (.ok (.model j))
      | .error (.throw r) => pure (.error r)
      | .error (.suspend _ p _) => pure (.error (bareSuspension (← store) p))
  match body with
  | .error r => return .error r
  | .ok body =>
    modifyEncoder fun e => { e with pending := e.pending + 1 }
    modifyEncoder (·.push .regular ⟨task.id, body⟩)
    return .ok ()

/-- Write the events a stream holds. -/
def writeEvents (run : Force η) : Nat → Task → CellId → EncodeM η Unit
  | 0, _, _ => exhausted
  | fuel + 1, task, source => do
    match ← onStore (·.next source) with
    | none => modifyEncoder (·.keepStream task)
    | some (.item v) =>
      match ← emitItem run fuel task v with
      | .ok () => writeEvents run fuel task source
      | .error r =>
        emitRejection task.id r
        modifyStore (·.cancel source r)
    | some (.close none) => modifyEncoder (·.push .regular ⟨task.id, .closing none⟩)
    | some (.close (some v)) =>
      let row ← outline run fuel v
      modifyEncoder (·.push .regular ⟨task.id, .closing (some (Encoder.rowJson row))⟩)
    | some (.error r) => emitRejection task.id r

/-- Act on a message. -/
def handle (run : Force η) (fuel : Nat) : Ping → EncodeM η Unit
  | .retry id => do
    match ← onEncoder (·.takeTask id) with
    | some task => retryTask run fuel task
    | none => pure ()
  | .fulfilled id v => do
    match ← onEncoder (·.takeTask id) with
    | some task => retryTask run fuel { task with model := v }
    | none => pure ()
  | .rejected id r => do
    match ← onEncoder (·.takeTask id) with
    | some _ =>
      modifyEncoder (·.dropAbortable id)
      emitRejection id r
    | none => pure ()
  | .stream id => do
    match ← onEncoder (·.takeStream id) with
    | some task =>
      match task.model with
      | .cell source => writeEvents run fuel task source
      | _ => pure ()
    | none => pure ()

/-- Act on messages until there are none. -/
def handleAll (run : Force η) : Nat → EncodeM η Unit
  | 0 => exhausted
  | fuel + 1 => do
    let e ← encoder
    match ← onStore (·.receive e.mailbox) with
    | none => pure ()
    | some ping =>
      handle run fuel ping
      handleAll run fuel

/-- Flush if the sink wants more. -/
def flushIfFlowing : EncodeM η Unit := do
  if (← encoder).flowing then onBoth Encoder.flush

/-- Do all that can be done now. Only one encoder at a time may hold a slot. -/
def work (run : Force η) (fuel : Nat) : EncodeM η (Except Fault Unit) := do
  let slot := (← encoder).slot
  match (← store).takeSlot slot with
  | .error f => return .error f
  | .ok s =>
    modifyStore fun _ => s
    handleAll run fuel
    flushIfFlowing
    modifyStore (·.freeSlot slot)
    return .ok ()

end Render

namespace Encoder

/-- A new encoder for a model. Its first task is the row with id zero. -/
def create (s : Store) (model : Value) (manifest : Manifest) (options : EncoderOptions) :
    Encoder × Store :=
  let (mailbox, s) := s.newMailbox
  let (slot, s) := match options.slot with
    | some slot => (slot, s)
    | none => s.newSlot
  let e : Encoder := {
    config := options.config, manifest, mailbox, slot, digest := options.digest,
    observePostpone := options.observePostpone, temporaries := options.temporaries,
    batch := { size := options.config.chunkSize } }
  let (task, e) := e.createTask model []
  (e.keepTask task, s.post mailbox (.retry task.id))

/-- Attach a sink. A closed encoder ignores it. -/
def startFlowing (e : Encoder) (s : Store) (sink : Nat) : Except Fault (Encoder × Store) :=
  if e.sink.isSome then .error .alreadyFlowing
  else if e.status == .closed then .ok (e, s)
  else .ok ({ e with sink := some sink, flowing := true }.flush s)

/-- The sink has room again. -/
def pull (e : Encoder) (s : Store) : Encoder × Store :=
  if e.sink.isSome && e.status != .closed then { e with flowing := true }.flush s else (e, s)

/-- Offer a hint. The answer is whether it was queued. -/
def hint (e : Encoder) (s : Store) (h : Hint) : Bool × Encoder × Store :=
  match e.queueHint h with
  | (true, e) => (true, if e.flowing then e.flush s else (e, s))
  | (false, e) => (false, e, s)

/-- Answer for the tasks that are outstanding. -/
def abortTasks (e : Encoder) (s : Store) (reason : Rejection) : Encoder × Store :=
  if e.abortable.isEmpty then (e, s)
  else
    let (fatal, e) := e.allocateRow
    let (e, s) := { e with fatal := some fatal }.emitRejection s fatal reason
    let e := e.abortable.foldl (fun e id =>
      match e.takeTask id with
      | (some _, e) => e.pushModel .errors id (rowJson fatal)
      | (none, e) => e) { e with abortable := [] }
    (e, s)

/-- End the open streams. -/
def abortStreams (e : Encoder) (s : Store) (reason : Rejection) : Encoder × Store :=
  let reason := if reason.isPostpone then Rejection.abortedByPostpone else reason
  e.streams.foldl (fun (e, s) task =>
    let (e, s) := e.emitRejection s task.id reason
    match task.model with
    | .cell source => (e, s.cancel source reason)
    | _ => (e, s)) ({ e with streams := [] }, s)

/-- Stop, and answer for everything outstanding. -/
def abort (e : Encoder) (s : Store) (reason : Option Rejection) : Encoder × Store :=
  if e.status == .closed then (e, s)
  else
    let reason := reason.getD .aborted
    let (e, s) := { e with status := .aborting }.abortTasks s reason
    let (e, s) := e.abortStreams s reason
    let s := s.clearMailbox e.mailbox
    if e.sink.isSome then e.flush s else (e, s)

/-- Do all that can be done now. -/
def work {η : Type} (run : Force η) (fuel : Nat) (e : Encoder) (s : Store) (host : η) :
    Option (Except Fault Unit × Encoder × Store × η) :=
  (Render.work run fuel ⟨e, s, host⟩).map fun (r, x) => (r, x.encoder, x.store, x.host)

end Encoder

end GraphRows
