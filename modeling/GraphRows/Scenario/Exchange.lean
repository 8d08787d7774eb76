import GraphRows.Scenario.Run

/-!
# One exchange

A model is encoded in one go, bytes are decoded in one go, or both in turn. After decoding, the
streams that can be reached from the root are read to their ends, since a description of a stream
does not show what it holds.
-/

namespace GraphRows

/-- What encoding a model gives. -/
structure Encoded where
  wire : Bytes
  /-- the length of each chunk -/
  sizes : List Nat
  pending : Nat
  closed : Bool

/-- How bytes are decoded. -/
structure DecodePlan where
  choice : DecoderChoice := {}
  split : Option Nat := none
  /-- the rows asked about -/
  ids : List Nat := []
  close : Bool := false

/-- What decoding bytes gives. -/
structure Decoded where
  result : Except Fault Unit
  root : Report
  statuses : List (Nat × Option EntryState)
  streams : List (List Report)

namespace Session

/-- A walk through a graph: the identities met, the streams read, and the store. -/
structure Harvest where
  met : List CellId := []
  streams : List (List Report) := []
  store : Store

/-- Walk from a value and read every stream met. Every step down meets a cell for the first time, so
the number of cells bounds the depth. -/
def harvestWith : Nat → Harvest → Value → Harvest
  | 0, w, _ => w
  | fuel + 1, w, .cell id =>
    if w.met.contains id then w
    else
      let w := { w with met := id :: w.met }
      match w.store.cell? id with
      | some (.array items) | some (.set items) => items.foldl (harvestWith fuel) w
      | some (.object fields) => (fields.map (·.2)).foldl (harvestWith fuel) w
      | some (.promise ⟨some (.ok v), _, _⟩) => harvestWith fuel w v
      | some (.stream _) =>
        let (events, s) := w.store.drain id
        let w := { w with streams := w.streams ++ [events.map s.reportEvent], store := s }
        (events.filterMap StreamEvent.item?).foldl (harvestWith fuel) w
      | _ => w
  | _, w, _ => w

/-- Read the streams that can be reached from a value. -/
def harvest (s : Store) (v : Value) : Harvest := harvestWith (s.cells.size + 1) { store := s } v

/-- Encode a model in one go. -/
def encode (programs : Array Program) (spec : EncoderSpec) : StepM Encoded := do
  let e ← StepM.newEncoder [] spec
  let sink ← StepM.onStore (·.newSink .unlimited)
  let (_, e) ← StepM.flow sink e
  let (_, e) ← StepM.work (Scenario.force programs Scenario.ampleFuel) Scenario.ampleFuel e
  let out := (← StepM.store).sink sink
  return ⟨out.bytes, out.chunks.map List.length, e.pending, out.isClosed⟩

/-- Decode bytes in one go. -/
def decode (plan : DecodePlan) (bs : Bytes) : StepM Decoded := do
  let d ← StepM.newDecoder plan.choice
  let (root, d, s) := d.run (← StepM.store) (DecodeM.handle 0)
  let (result, d, s) := d.run s (DecodeM.feedAll (piecesOf plan.split bs))
  let ((), d, s) := if plan.close then d.run s DecodeM.close else ((), d, s)
  let (streams, s) := match s.outcome? root with
    | some (.ok v) =>
      let w := harvest s v
      (w.streams, w.store)
    | _ => ([], s)
  StepM.modifyStore fun _ => s
  return ⟨result, s.reportSettled root, plan.ids.map fun id => (id, d.status? id), streams⟩

end Session

end GraphRows
