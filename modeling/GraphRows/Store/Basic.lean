import GraphRows.Report
import GraphRows.Sink

/-!
# The store

All that several parties share: the cells of the value graphs, the mailboxes of encoders, sinks,
bells, slots, sets of temporary references, the names the host has given to values, and the events
noted so far. Everything is addressed by its index and nothing is ever removed, so an index once
handed out stays good, and writing at one index changes no other.

The four lemmas on reading after allocating and after writing are all that later arguments need of
cells.
-/

namespace GraphRows

/-- Messages to an encoder, and the bell to ring when one arrives. -/
structure Mailbox where
  pings : List Ping := []
  bell : Option Nat := none
deriving Inhabited

/-- Names for values that cross the wire by name only. -/
structure TemporarySet where
  ids : List (CellId × String) := []
  values : List (String × Value) := []
deriving Inhabited

/-- The shared state. -/
structure Store where
  cells : Array Cell := #[]
  mailboxes : Array Mailbox := #[]
  sinks : Array Sink := #[]
  /-- how often each bell was rung -/
  bells : Array Nat := #[]
  /-- whether each slot is held -/
  slots : Array Bool := #[]
  temporaries : Array TemporarySet := #[]
  names : List (String × Value) := []
  events : List Event := []
deriving Inhabited

namespace Store

/-! ## Cells -/

/-- The content of a cell. -/
def cell? (s : Store) (id : CellId) : Option Cell := s.cells[id]?

/-- The cell a value names. -/
def cellOf? (s : Store) : Value → Option Cell
  | .cell id => s.cell? id
  | _ => none

/-- A new cell. -/
def alloc (s : Store) (c : Cell) : CellId × Store :=
  (s.cells.size, { s with cells := s.cells.push c })

/-- A new cell, as a value. -/
def make (s : Store) (c : Cell) : Value × Store :=
  (.cell s.cells.size, { s with cells := s.cells.push c })

/-- Change the content of a cell. -/
def write (s : Store) (id : CellId) (c : Cell) : Store :=
  { s with cells := s.cells.setIfInBounds id c }

theorem cell?_alloc_new (s : Store) (c : Cell) : (s.alloc c).2.cell? (s.alloc c).1 = some c := by
  simp [alloc, cell?]

theorem cell?_alloc_old (s : Store) (c : Cell) {id : CellId} (h : id < s.cells.size) :
    (s.alloc c).2.cell? id = s.cell? id := by
  simp [alloc, cell?, Array.getElem?_push, Nat.ne_of_lt h]

theorem cell?_write_self (s : Store) (c : Cell) {id : CellId} (h : id < s.cells.size) :
    (s.write id c).cell? id = some c := by
  simp [write, cell?, h]

theorem cell?_write_ne (s : Store) (c : Cell) {id other : CellId} (h : id ≠ other) :
    (s.write id c).cell? other = s.cell? other := by
  simp [write, cell?, h]

/-- Change the content of the cell a value names. -/
def modifyCell (s : Store) (v : Value) (f : Cell → Cell) : Store :=
  match v with
  | .cell id => { s with cells := s.cells.modify id f }
  | _ => s

/-- The promise in a cell. -/
def promise? (s : Store) (id : CellId) : Option Promise :=
  match s.cell? id with
  | some (.promise p) => some p
  | _ => none

/-- The stream in a cell. -/
def stream? (s : Store) (id : CellId) : Option Stream :=
  match s.cell? id with
  | some (.stream st) => some st
  | _ => none

/-- The name of a value's type. -/
def typeName (s : Store) : Value → String
  | .undefined => "undefined"
  | .null => "null"
  | .bool _ => "boolean"
  | .number _ => "number"
  | .string _ => "string"
  | .bigint _ => "bigint"
  | .date _ => "Date"
  | .symbol _ => "symbol"
  | .cell id => ((s.cell? id).map Cell.typeName).getD "undefined"

/-- A field of an object. -/
def field? (s : Store) (v : Value) (key : String) : Option Value :=
  match s.cellOf? v with
  | some (.object fields) => fields.lookup key
  | _ => none

/-- An item of an array or a set. -/
def item? (s : Store) (v : Value) (i : Nat) : Option Value :=
  match s.cellOf? v with
  | some (.array items) | some (.set items) => items[i]?
  | _ => none

/-- The number of entries of a container. -/
def count? (s : Store) (v : Value) : Option Nat :=
  match s.cellOf? v with
  | some (.array items) | some (.set items) => some items.length
  | some (.object fields) => some fields.length
  | some (.map entries) => some entries.length
  | some (.form entries) => some entries.length
  | _ => none

mutual

/-- The value graph of a JSON value. -/
def ofJson (s : Store) : Json → Value × Store
  | .null => (.null, s)
  | .bool b => (.bool b, s)
  | .int n => (.number (Double.ofInt n), s)
  | .float x => (.number x, s)
  | .str t => (.string t, s)
  | .arr items =>
    let (vs, s) := ofJsonItems s items
    s.make (.array vs)
  | .obj fields =>
    let (vs, s) := ofJsonFields s fields
    s.make (.object vs)

/-- The values of a list of JSON values, in their order. -/
def ofJsonItems (s : Store) : List Json → List Value × Store
  | [] => ([], s)
  | j :: rest =>
    let (v, s) := ofJson s j
    let (vs, s) := ofJsonItems s rest
    (v :: vs, s)

/-- The values of fields, in their order. -/
def ofJsonFields (s : Store) : List (String × Json) → List (String × Value) × Store
  | [] => ([], s)
  | (k, j) :: rest =>
    let (v, s) := ofJson s j
    let (vs, s) := ofJsonFields s rest
    ((k, v) :: vs, s)

end

/-! ## Events, names and bells -/

/-- Note an event. -/
def note (s : Store) (e : Event) : Store := { s with events := e :: s.events }

/-- Give a name to a value. -/
def bind (s : Store) (name : String) (v : Value) : Store := { s with names := (name, v) :: s.names }

/-- The value with a name. -/
def named? (s : Store) (name : String) : Option Value := s.names.lookup name

/-- A new bell. -/
def newBell (s : Store) : Nat × Store := (s.bells.size, { s with bells := s.bells.push 0 })

/-- Ring a bell. -/
def ring (s : Store) (bell : Nat) : Store := { s with bells := s.bells.modify bell (· + 1) }

/-! ## Mailboxes -/

/-- A new mailbox. -/
def newMailbox (s : Store) : Nat × Store :=
  (s.mailboxes.size, { s with mailboxes := s.mailboxes.push {} })

/-- Send a message and ring the bell, which then has to be set again. -/
def post (s : Store) (mailbox : Nat) (p : Ping) : Store :=
  match s.mailboxes[mailbox]? with
  | none => s
  | some m =>
    let s := { s with mailboxes := s.mailboxes.setIfInBounds mailbox ⟨m.pings ++ [p], none⟩ }
    match m.bell with
    | some bell => s.ring bell
    | none => s

/-- Take the oldest message. -/
def receive (s : Store) (mailbox : Nat) : Option Ping × Store :=
  match s.mailboxes[mailbox]? with
  | some ⟨p :: rest, bell⟩ =>
    (some p, { s with mailboxes := s.mailboxes.setIfInBounds mailbox ⟨rest, bell⟩ })
  | _ => (none, s)

/-- Drop all messages. -/
def clearMailbox (s : Store) (mailbox : Nat) : Store :=
  { s with mailboxes := s.mailboxes.modify mailbox fun m => { m with pings := [] } }

/-- Set the bell of a mailbox. -/
def listen (s : Store) (mailbox bell : Nat) : Store :=
  { s with mailboxes := s.mailboxes.modify mailbox fun m => { m with bell := some bell } }

/-! ## Sinks -/

/-- A new sink. -/
def newSink (s : Store) (sink : Sink) : Nat × Store :=
  (s.sinks.size, { s with sinks := s.sinks.push sink })

/-- A sink; one that does not exist is empty. -/
def sink (s : Store) (i : Nat) : Sink := (s.sinks[i]?).getD {}

/-- Change a sink. -/
def setSink (s : Store) (i : Nat) (sink : Sink) : Store :=
  { s with sinks := s.sinks.setIfInBounds i sink }

/-! ## Slots -/

/-- A new slot that nobody holds. -/
def newSlot (s : Store) : Nat × Store := (s.slots.size, { s with slots := s.slots.push false })

/-- Whether a slot is held. -/
def isHeld (s : Store) (slot : Nat) : Bool := (s.slots[slot]?).getD false

/-- Take a slot. -/
def takeSlot (s : Store) (slot : Nat) : Except Fault Store :=
  if s.isHeld slot then .error .slotBusy
  else .ok { s with slots := s.slots.setIfInBounds slot true }

/-- Give a slot back. -/
def freeSlot (s : Store) (slot : Nat) : Store :=
  { s with slots := s.slots.setIfInBounds slot false }

/-! ## Temporary references -/

/-- A new set of temporary references. -/
def newTemporaries (s : Store) : Nat × Store :=
  (s.temporaries.size, { s with temporaries := s.temporaries.push {} })

/-- A set of temporary references; one that does not exist is empty. -/
def temporarySet (s : Store) (set : Nat) : TemporarySet := (s.temporaries[set]?).getD {}

/-- The name a set has for a value. -/
def temporaryId? (s : Store) (set : Nat) (v : Value) : Option String :=
  v.identity?.bind fun id => (s.temporarySet set).ids.lookup id

/-- The value a set has for a name. -/
def temporary? (s : Store) (set : Nat) (id : String) : Option Value :=
  (s.temporarySet set).values.lookup id

/-- Enter a value under a name, if it has an identity. -/
def registerTemporary (s : Store) (set : Nat) (v : Value) (id : String) : Bool × Store :=
  match v.identity? with
  | none => (false, s)
  | some cell =>
    (true, { s with temporaries := s.temporaries.modify set fun t =>
      ⟨(cell, id) :: t.ids, Json.setField id v t.values⟩ })

/-- The value a set has for a name, or a new opaque one. -/
def resolveTemporary (s : Store) (set : Nat) (id : String) : Value × Store :=
  match s.temporary? set id with
  | some v => (v, s)
  | none =>
    let (v, s) := s.make (.temporary id)
    (v, (s.registerTemporary set v id).2)

end Store

end GraphRows
