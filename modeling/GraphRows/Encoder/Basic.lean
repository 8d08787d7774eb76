import GraphRows.Config
import GraphRows.Encoder.Thunk
import GraphRows.Reference.Manifest
import GraphRows.Reference.Table
import GraphRows.Reference.Token
import GraphRows.Row.Basic

/-!
# Encoders

An encoder turns one value graph into rows. The graph is cut into tasks, one for each row that needs
a value; finished rows wait in four queues until a sink takes them. Imports go out first, then
hints, then ordinary rows, then errors.

`pending` counts the rows still owed to the wire: one for each task, one for each open stream, one
for each queued row other than a hint. When it is zero and no hint waits, nothing can follow.
-/

namespace GraphRows

/-- How far an encoder is. -/
inductive Status where
  | running | aborting | closed
deriving DecidableEq, Inhabited

/-- The name of a status. -/
def Status.name : Status → String
  | .running => "Open"
  | .aborting => "Aborting"
  | .closed => "Closed"

/-- How far a task is. A task that was completed, has failed or was aborted is dropped, so it has no
status any more. -/
inductive TaskStatus where
  | pending | rendering
deriving DecidableEq, Inhabited

/-- A row that waits for its value. Its key path and its slot are the same for every task, and are
not kept. -/
structure Task where
  id : Nat
  status : TaskStatus := .pending
  model : Value
  /-- the promises its thunk has read -/
  recalled : List CellId := []
deriving Inhabited

/-- The four queues of finished rows. -/
inductive Queue where
  | imports | hints | regular | errors
deriving DecidableEq, Inhabited

/-- What is said about errors: a digest from the number of errors before this one and its text. -/
abbrev Digest := Nat → String → Option String

/-- The choices an encoder is created with. -/
structure EncoderOptions where
  config : Config := {}
  digest : Option Digest := none
  /-- whether postponements are noted -/
  observePostpone : Bool := false
  temporaries : Option Nat := none
  slot : Option Nat := none
deriving Inhabited

/-- The state of an encoder. -/
structure Encoder where
  status : Status := .running
  config : Config
  manifest : Manifest
  refs : RefTable Token := {}
  tasks : List Task := []
  /-- the tasks an abort has to answer for, ascending -/
  abortable : List Nat := []
  /-- the open streams, ascending -/
  streams : List Task := []
  mailbox : Nat
  pending : Nat := 0
  imports : List Row := []
  hints : List Row := []
  regular : List Row := []
  errors : List Row := []
  /-- the row that says why the encoder was aborted -/
  fatal : Option Nat := none
  hintKeys : List String := []
  digest : Option Digest
  /-- how many errors were reported -/
  errorCount : Nat := 0
  observePostpone : Bool
  temporaries : Option Nat
  sink : Option Nat := none
  flowing : Bool := false
  batch : Batch
  slot : Nat
deriving Inhabited

namespace Encoder

/-- The rows of a queue. -/
def queue (e : Encoder) : Queue → List Row
  | .imports => e.imports
  | .hints => e.hints
  | .regular => e.regular
  | .errors => e.errors

/-- Queue a row. -/
def push (e : Encoder) (q : Queue) (r : Row) : Encoder :=
  match q with
  | .imports => { e with imports := e.imports ++ [r] }
  | .hints => { e with hints := e.hints ++ [r] }
  | .regular => { e with regular := e.regular ++ [r] }
  | .errors => { e with errors := e.errors ++ [r] }

/-- A new id. -/
def freshId (e : Encoder) : Nat × Encoder :=
  let (id, refs) := e.refs.fresh
  (id, { e with refs })

/-- A new id for a row that is owed. -/
def allocateRow (e : Encoder) : Nat × Encoder :=
  let (id, e) := e.freshId
  (id, { e with pending := e.pending + 1 })

/-- Remember how to refer to a value. -/
def record (e : Encoder) (v : Value) (t : Token) : Encoder := { e with refs := e.refs.record v t }

/-- Insert into an ascending list. -/
def insertId (id : Nat) : List Nat → List Nat
  | [] => [id]
  | i :: rest =>
    if id < i then id :: i :: rest else if id == i then i :: rest else i :: insertId id rest

/-- An abort has to answer for the task. -/
def makeAbortable (e : Encoder) (id : Nat) : Encoder :=
  { e with abortable := insertId id e.abortable }

/-- An abort need not answer for the task any more. -/
def dropAbortable (e : Encoder) (id : Nat) : Encoder :=
  { e with abortable := e.abortable.filter (· != id) }

/-- A new task; from now on its model is referred to by its id. -/
def createTask (e : Encoder) (model : Value) (recalled : List CellId) : Task × Encoder :=
  let (id, e) := e.allocateRow
  let e := (e.record model (.row { row := id })).makeAbortable id
  ({ id, model, recalled }, e)

/-- Keep a task until it is asked for. -/
def keepTask (e : Encoder) (t : Task) : Encoder := { e with tasks := t :: e.tasks }

/-- Take a task out. -/
def takeTask (e : Encoder) (id : Nat) : Option Task × Encoder :=
  match e.tasks.find? (·.id == id) with
  | some t => (some t, { e with tasks := e.tasks.filter (·.id != id) })
  | none => (none, e)

/-- Insert into a list of tasks that ascends by id. -/
def insertTask (t : Task) : List Task → List Task
  | [] => [t]
  | u :: rest =>
    if t.id < u.id then t :: u :: rest
    else if t.id == u.id then t :: rest
    else u :: insertTask t rest

/-- Keep an open stream. -/
def keepStream (e : Encoder) (t : Task) : Encoder := { e with streams := insertTask t e.streams }

/-- Take an open stream out. -/
def takeStream (e : Encoder) (id : Nat) : Option Task × Encoder :=
  match e.streams.find? (·.id == id) with
  | some t => (some t, { e with streams := e.streams.filter (·.id != id) })
  | none => (none, e)

/-- Queue a model row. -/
def pushModel (e : Encoder) (q : Queue) (id : Nat) (j : Json) : Encoder := e.push q ⟨id, .model j⟩

/-- A plain reference to a row, as a payload. -/
def rowJson (id : Nat) : Json := .str (Token.render (.row { row := id }))

/-- Queue a hint unless it came before or the encoder is closed. A hint takes an id but is never
owed. -/
def queueHint (e : Encoder) (h : Hint) : Bool × Encoder :=
  if e.status == .closed || e.hintKeys.contains h.key then (false, e)
  else
    let (id, e) := { e with hintKeys := h.key :: e.hintKeys }.freshId
    (true, e.push .hints ⟨id, .hint h.code h.payload⟩)

/-- The payload of an error row. -/
def errorPayload (expose : Bool) (digest : String) (cause : Cause) : Json :=
  if expose then
    let stack := "\n".intercalate (cause.causes.map ("    caused by: " ++ ·))
    .obj [("digest", .str digest), ("message", .str cause.message), ("stack", .str stack)]
  else .obj [("digest", .str digest)]

/-- Report an error and hear its digest. -/
def reportError (e : Encoder) (s : Store) (cause : Cause) : String × Encoder × Store :=
  match e.digest with
  | none => ("", e, s)
  | some digest =>
    ((digest e.errorCount cause.message).getD "", { e with errorCount := e.errorCount + 1 },
      s.note (.error cause.message))

/-- Queue the row of a rejection. -/
def emitRejection (e : Encoder) (s : Store) (id : Nat) (reason : Rejection) : Encoder × Store :=
  match reason with
  | .postpone r =>
    let s := if e.observePostpone then s.note (.postponed r) else s
    (e.push .errors ⟨id, .postpone (.obj [("reason", .str r)])⟩, s)
  | .error cause =>
    let (digest, e, s) := e.reportError s cause
    (e.push .errors ⟨id, .error (errorPayload e.config.exposeErrors digest cause)⟩, s)

/-- The row that says why the encoder was aborted. -/
def fatalRow (e : Encoder) (s : Store) : Nat × Encoder × Store :=
  match e.fatal with
  | some id => (id, e, s)
  | none =>
    let (id, e) := e.allocateRow
    let (e, s) := { e with fatal := some id }.emitRejection s id .aborted
    (id, e, s)

end Encoder

/-- An encoder at work: its own state, the store, and the state of the host. -/
structure Encoding (η : Type) where
  encoder : Encoder
  store : Store
  host : η

/-- Work of an encoder. No answer means that the fuel ran out or that the host gave up. -/
abbrev EncodeM (η : Type) := StateT (Encoding η) Option

namespace EncodeM

variable {η : Type}

/-- Give up. -/
def exhausted {α : Type} : EncodeM η α := fun _ => none

/-- The encoder's own state. -/
def encoder : EncodeM η Encoder := fun x => some (x.encoder, x)

/-- The store. -/
def store : EncodeM η Store := fun x => some (x.store, x)

/-- Change the encoder. -/
def modifyEncoder (f : Encoder → Encoder) : EncodeM η Unit :=
  fun x => some ((), { x with encoder := f x.encoder })

/-- Change the store. -/
def modifyStore (f : Store → Store) : EncodeM η Unit :=
  fun x => some ((), { x with store := f x.store })

/-- Run a step of the encoder that has an answer. -/
def onEncoder {α : Type} (f : Encoder → α × Encoder) : EncodeM η α := fun x =>
  let (a, e) := f x.encoder
  some (a, { x with encoder := e })

/-- Run a step of the store that has an answer. -/
def onStore {α : Type} (f : Store → α × Store) : EncodeM η α := fun x =>
  let (a, s) := f x.store
  some (a, { x with store := s })

/-- Run a step of both. -/
def onBoth (f : Encoder → Store → Encoder × Store) : EncodeM η Unit := fun x =>
  let (e, s) := f x.encoder x.store
  some ((), { x with encoder := e, store := s })

/-- Queue the row of a rejection. -/
def emitRejection (id : Nat) (reason : Rejection) : EncodeM η Unit :=
  onBoth (·.emitRejection · id reason)

/-- The row that says why the encoder was aborted. -/
def fatalRow : EncodeM η Nat := fun x =>
  let (id, e, s) := x.encoder.fatalRow x.store
  some (id, { x with encoder := e, store := s })

end EncodeM

end GraphRows
