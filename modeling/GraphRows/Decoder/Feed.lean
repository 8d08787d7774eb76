import GraphRows.Decoder.Deliver

/-!
# Feeding a decoder

Bytes come in pieces of any size. The rows of a piece are acted on in order, and then a fault of the
framing, if there was one, closes the decoder. Closing settles everything: entries without a row are
rejected, the rejections spread to what waits for them, what is left only waits for itself and is
rejected too, and open streams end with the reason.
-/

namespace GraphRows

namespace DecodeM

/-- The reason an error row carries. -/
def errorReason (payload : Bytes) : Rejection :=
  match Json.readBytes payload with
  | .error e => .ofFault (.badJson e)
  | .ok j =>
    let text (key : String) : Option String := (j.field? key).bind Json.str?
    .ofFault (.ofWire ((text "digest").getD "") (text "message") (text "stack"))

/-- The reason a postpone row carries. -/
def postponeReason (payload : Bytes) : Rejection :=
  match Json.readBytes payload with
  | .error e => .ofFault (.badJson e)
  | .ok j => .postpone (((j.field? "reason").bind Json.str?).getD "")

/-- A row with a value of its own has come. -/
def takeValue (id : Nat) (o : Outcome) : DecodeM Unit := do
  if ((← decoder).stream? id).isSome then
    enqueue id (match o with
      | .ok v => .ready v
      | .error r => .error r)
  else
    match ← openRow? id with
    | some i => settleEntry i o
    | none => pure ()

/-- Binary data has come. -/
def takeBinary (id : Nat) (kind : BinaryKind) (payload : Bytes) : DecodeM Unit := do
  match Binary.make kind payload with
  | .error f => takeValue id (.error (.ofFault f))
  | .ok data => takeValue id (.ok (← onStore (·.make (.binary data))))

/-- A model has come, for a row or as an item of a stream. -/
def takeModel (id : Nat) (text : String) : DecodeM Unit := do
  if ((← decoder).stream? id).isSome then
    let i ← newEntry .pending
    reviveRow i text
    enqueue id (.entry i)
  else
    match ← openRow? id with
    | some i => reviveRow i text
    | none => pure ()

/-- Load a module. -/
def loadModule (payload : Bytes) : DecodeM Outcome := do
  match Json.readBytes payload with
  | .error e => return .error (.ofFault (.badJson e))
  | .ok j =>
    match Import.ofJson j with
    | .error f => return .error (.ofFault f)
    | .ok m =>
      let loader := (← decoder).options.loader
      if loader.observed then modifyStore (·.note (.load m.toJson))
      onStore (loader.load m)

/-- An import has come. -/
def takeImport (id : Nat) (payload : Bytes) : DecodeM Unit := do
  match ← openRow? id with
  | some i => settleEntry i (← loadModule payload)
  | none => pure ()

/-- A hint has come. Hints that cannot be read are passed over. -/
def takeHint (payload : Bytes) : DecodeM Unit := do
  if (← decoder).options.observeHints then
    match payload with
    | [] => pure ()
    | code :: rest =>
      match Json.readBytes rest with
      | .error _ => pure ()
      | .ok j =>
        match Hint.ofPayload (latin code) j with
        | .ok h => modifyStore (·.note (.hint h))
        | .error _ => pure ()

/-- A stream opens. -/
def openStream (id : Nat) (kind : StreamKind) : DecodeM Unit := do
  match ← openRow? id with
  | none => pure ()
  | some i =>
    let stream ← onStore (·.newStream kind)
    modifyDecoder fun d => { d with streams := d.streams ++ [(id, { stream })] }
    settleEntry i (.ok (.cell stream))

/-- A stream closes, with or without a value. -/
def closeStream (id : Nat) (text : String) : DecodeM Unit := do
  if ((← decoder).stream? id).isSome then
    if text.isEmpty then enqueue id (.close none)
    else
      let i ← newEntry .pending
      reviveRow i text
      enqueue id (.close (some i))

/-- Act on a row. Rows for developers and rows of unknown kinds are passed over. -/
def takeRow (row : RawRow) : DecodeM Unit := do
  if row.tag == 0 then takeModel row.id (Utf8.decodeLossy row.payload)
  else
    match BinaryKind.ofTag? row.tag, RowTag.ofTag? row.tag with
    | some kind, _ => takeBinary row.id kind row.payload
    | none, some .text => takeValue row.id (.ok (.string (Utf8.decodeLossy row.payload)))
    | none, some .importing => takeImport row.id row.payload
    | none, some .hint => takeHint row.payload
    | none, some .error => takeValue row.id (.error (errorReason row.payload))
    | none, some .postpone => takeValue row.id (.error (postponeReason row.payload))
    | none, some (.stream kind) => openStream row.id kind
    | none, some .close => closeStream row.id (Utf8.decodeLossy row.payload)
    | none, _ => pure ()
  runWatchers

/-- Reject the entries whose state passes a test. -/
def rejectEntries (test : EntryState → Bool) (reason : Rejection) : DecodeM Unit := do
  (List.range (← decoder).entries.size).forM fun i => do
    if test ((← decoder).entry i).state then settleEntry i (.error reason)

/-- Nothing more will come. -/
def closeWith (reason : Rejection) : DecodeM Unit := do
  if (← decoder).closed.isNone then
    modifyDecoder fun d => { d with closed := some reason }
    rejectEntries EntryState.isPending reason
    runWatchers
    -- what is left waits for itself only
    rejectEntries (fun st => !st.isTerminal) reason
    runWatchers
    let streams := (← decoder).streams
    modifyDecoder fun d => { d with streams := [] }
    streams.forM fun (_, st) => modifyStore fun s => (s.push st.stream (.error reason)).2

/-- Feed a piece. A closed decoder ignores it. -/
def feed (piece : Bytes) : DecodeM (Except Fault Unit) := do
  let d ← decoder
  if d.closed.isSome then return .ok ()
  let fed := d.reader.feed piece
  modifyDecoder ({ · with reader := fed.reader })
  fed.rows.forM takeRow
  match fed.fault with
  | none => return .ok ()
  | some f =>
    closeWith (.ofFault f)
    return .error f

/-- Feed pieces one after the other, up to the first that cannot be read. -/
def feedAll : List Bytes → DecodeM (Except Fault Unit)
  | [] => return .ok ()
  | piece :: rest => do
    match ← feed piece with
    | .ok () => feedAll rest
    | .error f => return .error f

/-- Close the decoder at the end of the bytes. -/
def close : DecodeM Unit := closeWith (.ofFault .connectionClosed)

/-- The handle of a row. -/
def handle (id : Nat) : DecodeM CellId := do
  let i ← entryOf id
  return ((← decoder).entry i).handle

end DecodeM

namespace Decoder

/-- Run a step of a decoder on a store. -/
def run {α : Type} (d : Decoder) (s : Store) (step : DecodeM α) : α × Decoder × Store :=
  let (a, x) := step ⟨d, s⟩
  (a, x.decoder, x.store)

/-- Whether nothing more will come. -/
def isClosed (d : Decoder) : Bool := d.closed.isSome

end Decoder

end GraphRows
