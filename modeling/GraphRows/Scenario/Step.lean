import GraphRows.Scenario.Build
import GraphRows.Store.Equality
import GraphRows.Store.Inspect

/-!
# Steps

A step changes the session and answers with a report. A step fails where what it asks for fails, and
the scenario goes on behind it. A step that names something that does not exist does nothing.

While an encoder works, its thunks may take steps; the encoder is not in its place until its work is
done, so these steps cannot reach it, and what they put under its name stays. The host runs out of
fuel only if its programs never end.

What a step names is found before the values of the step are built, which may give the name to
something else.
-/

namespace GraphRows

/-- Cut bytes into pieces of `n`, and of one if `n` is zero. -/
def pieces (n : Nat) (bs : Bytes) : List Bytes :=
  if bs.isEmpty then [] else bs.take (max n 1) :: pieces n (bs.drop (max n 1))
termination_by bs.length
decreasing_by
  have : bs.length ≠ 0 := by simpa using ‹¬bs.isEmpty = true›
  simp only [List.length_drop]
  omega

/-- Pieces of `n` bytes, or one piece. -/
def piecesOf (split : Option Nat) (bs : Bytes) : List Bytes :=
  match split with
  | some n => pieces n bs
  | none => [bs]

namespace LoaderChoice

/-- The loader of a choice. All but the standard one are observed. -/
def loader : LoaderChoice → Loader
  | .standard => .standard
  | .failing => ⟨true, fun m s => (.error (.error (.host ("cannot load " ++ m.id) [])), s)⟩
  | .joined => ⟨true, fun m s => (.ok (.string (m.id ++ "/" ++ m.name)), s)⟩
  | .fields => ⟨true, fun m s =>
    let (chunks, s) := s.make (.array (m.chunks.map .string))
    let (v, s) := s.make (.object
      [("id", .string m.id), ("chunks", chunks), ("name", .string m.name),
        ("async", .bool m.isAsync)])
    (.ok v, s)⟩
  | .named name => ⟨true, fun _ s => (.ok ((s.named? name).getD .undefined), s)⟩

end LoaderChoice

/-- A step in progress, which may fail. -/
abbrev StepM := ExceptT Fault (StateT Session Option)

namespace StepM

/-! ## The session -/

/-- The host. -/
def host : StepM Host := do return (← get).host

/-- Change the host. -/
def modifyHost (f : Host → Host) : StepM Unit := modify fun x => { x with host := f x.host }

/-- The store. -/
def store : StepM Store := do return (← get).store

/-- Change the store. -/
def modifyStore (f : Store → Store) : StepM Unit := modify fun x => { x with store := f x.store }

/-- Change the store with an answer. -/
def onStore {α : Type} (f : Store → α × Store) : StepM α := do
  let (a, s) := f (← store)
  modifyStore fun _ => s
  return a

/-- Do something with a thing that may not exist. -/
def withSome {α : Type} (a? : Option α) (f : α → StepM Report) : StepM Report :=
  match a? with
  | some a => f a
  | none => return .none

/-- Build a value. -/
def value (used : List Value) (e : Expr) : StepM Value := do
  let (v, x) := (← get).build used e
  set x
  MonadExcept.ofExcept v

/-- Do something with the cell a variable names. -/
def withCell (name : String) (f : CellId → StepM Report) : StepM Report :=
  do withSome ((← get).cell? name) f

/-- The bell with a name. -/
def bell (name : String) : StepM Nat := do
  let (b, x) := (← get).bell name
  set x
  return b

/-- Name a value, if there is a name. -/
def bindName (name : Option String) (v : Value) : StepM Unit :=
  match name with
  | some n => modifyStore (·.bind n v)
  | none => pure ()

/-- What polling found. -/
def reportPolled {α : Type} (f : α → Report) : Polled α → Report
  | .waiting => .text "pending"
  | .ended => .record [("ready", .none)]
  | .got a => .record [("ready", f a)]

/-- A value with everything below it. -/
def sketched (v : Value) : StepM Report := do return .value ((← store).sketch v)

/-! ## Encoders -/

/-- The state of an encoder. -/
def stateReport (e : Encoder) (ok : Report) : Report :=
  .record [("ok", ok), ("status", .text e.status.name), ("pending", .int e.pending)]

/-- A new encoder. -/
def newEncoder (used : List Value) (spec : EncoderSpec) : StepM Encoder := do
  let model ← value used spec.model
  let manifest ← match spec.manifest with
    | some text => MonadExcept.ofExcept (Manifest.read text)
    | none => pure {}
  let x ← get
  let options : EncoderOptions := {
    config := spec.choice.config
    digest := spec.choice.digest
    observePostpone := spec.choice.observePostpone
    temporaries := spec.choice.temporaries.map x.temporarySet
    slot := spec.choice.slot.bind fun n => x.host.slots.lookup n }
  onStore fun s => Encoder.create s model manifest options

/-- Do something with an encoder; it is out of reach until that is done. -/
def withEncoder (name : String) (f : Encoder → StepM (Report × Encoder)) : StepM Report := do
  withSome ((← host).encoders.find? name) fun (i, e) => do
    modifyHost fun h => { h with encoders := h.encoders.clear i }
    let (ok, e) ← f e
    modifyHost fun h => { h with encoders := h.encoders.put i e }
    return stateReport e ok

/-- Do something with the encoder of an outlet. -/
def withOutlet (name : String) (f : Encoder → StepM (Report × Encoder)) : StepM Report := do
  withSome ((← host).outlets.find? name) fun (i, o) => do
    let (ok, e) ← f o.encoder
    modifyHost fun h => { h with outlets := h.outlets.put i { o with encoder := e } }
    return stateReport e ok

/-- Attach a sink. -/
def flow (sink : Nat) (e : Encoder) : StepM (Report × Encoder) := do
  match e.startFlowing (← store) sink with
  | .error f => return (.fault f, e)
  | .ok (e, s) =>
    modifyStore fun _ => s
    return (.none, e)

/-- Let an encoder work. -/
def work (run : Force Host) (fuel : Nat) (e : Encoder) : StepM (Report × Encoder) := do
  let x ← get
  let (result, e, s, h) ← (e.work run fuel x.store x.host : Option _)
  set (Session.mk s h)
  match result with
  | .ok () => return (.none, e)
  | .error f => return (.fault f, e)

/-- Change an encoder and the store. -/
def both (f : Encoder → Store → Encoder × Store) (e : Encoder) : StepM (Report × Encoder) := do
  let e ← onStore (f e)
  return (.none, e)

/-- Offer a hint to an encoder. -/
def offer (h : Hint) (e : Encoder) : StepM (Report × Encoder) := do
  let (taken, e, s) := e.hint (← store) h
  modifyStore fun _ => s
  return (.bool taken, e)

/-- Keep an outlet. -/
def keepOutlet (name : String) (e : Encoder) : StepM Report := do
  let o ← onStore (Outlet.create e)
  modifyHost fun h => { h with outlets := h.outlets.add name o }
  return .none

/-! ## Decoders -/

/-- A new decoder. -/
def newDecoder (choice : DecoderChoice) : StepM Decoder := do
  let x ← get
  return Decoder.create {
    config := choice.config
    loader := choice.loader.loader
    observeHints := choice.observeHints
    temporaries := choice.temporaries.map x.temporarySet }

/-- Do something with a decoder. -/
def withDecoder {α : Type} (name : String) (act : DecodeM α) (f : α → Decoder → StepM Report) :
    StepM Report := do
  withSome ((← host).decoders.find? name) fun (i, d) => do
    let (a, d, s) := d.run (← store) act
    modifyStore fun _ => s
    modifyHost fun h => { h with decoders := h.decoders.put i d }
    f a d

/-- Whether something could be done. -/
def reportResult : Except Fault Unit → Report
  | .ok () => .none
  | .error f => .fault f

/-- The bytes of a source. -/
def bytesOf : ByteSource → StepM Bytes
  | .bytes bs => return bs
  | .sink name => do
    let i := (← get).sink name
    let (chunks, sink) := ((← store).sink i).takeAll
    modifyStore (·.setSink i sink)
    return chunks.flatten

/-- Keep a new intake and name the handle of its root. -/
def keepIntake (name : String) (asName : Option String) (choice : DecoderChoice)
    (source : ChunkSource) : StepM Report := do
  let d ← newDecoder choice
  let (root, d, s) := d.run (← store) (DecodeM.handle 0)
  modifyStore fun _ => s
  bindName asName (.cell root)
  modifyHost fun h => { h with intakes := h.intakes.add name ⟨d, source⟩ }
  return .none

/-! ## Tables of references -/

/-- Use a table. -/
def useTable (used : List Value) (t : RefTable String) : TableUse → StepM (Report × RefTable String)
  | .nextId =>
    let (id, t) := t.fresh
    return (.int id, t)
  | .get e => do return (.ofOption .text (t.get? (← value used e)), t)
  | .record e r => do return (.none, t.record (← value used e) r)
  | .symbol key => return (.ofOption (.int ·) (t.symbol? key), t)
  | .recordSymbol key id => return (.none, t.recordSymbol key id)
  | .client key => return (.ofOption (.int ·) (t.client? key), t)
  | .recordClient key id => return (.none, t.recordClient key id)
  | .server e => do return (.ofOption .text (t.server? (← value used e)), t)
  | .recordServer e r => do return (.none, t.recordServer (← value used e) r)

/-! ## Taking a step -/

/-- Push an event into a stream. -/
def pushTo (name : String) (event : StepM StreamEvent) : StepM Report :=
  withCell name fun id => do
    let e ← event
    return .bool (← onStore (·.push id e))

/-- Settle a promise. -/
def settle (name : String) (outcome : StepM Outcome) : StepM Report :=
  withCell name fun id => do
    let o ← outcome
    return .bool (← onStore (·.settle id o))

/-- What is known of a promise. -/
def promiseInfo (s : Store) (id : CellId) : Report :=
  match s.outcome? id with
  | none => .record [("status", .text "Pending"), ("pending", .bool true), ("value", .none),
    ("reason", .none)]
  | some (.ok v) => .record
    [("status", .text "Fulfilled"), ("pending", .bool false), ("value", .value (s.sketch v)),
      ("reason", .none)]
  | some (.error r) => .record
    [("status", .text "Rejected"), ("pending", .bool false), ("value", .none),
      ("reason", .reason r)]

/-- What is known of a stream. -/
def streamInfo (s : Store) (st : Stream) : Report :=
  .record [("kind", .text st.kind.name), ("finished", .bool st.finished),
    ("locked", .bool st.locked),
    ("cancelled", .ofOption .reason st.cancelled),
    ("return", .ofOption (fun v => .value (s.sketch v)) st.returned)]

/-- What is known of a sink. -/
def sinkInfo (s : Sink) : Report :=
  .record [("bytes", .bytes s.bytes), ("buffered", .int s.held), ("closed", .bool s.isClosed),
    ("closes", .int s.closes)]

/-- Change the content of the cell a variable names. -/
def modifyNamed (name : String) (change : StepM (Cell → Cell)) : StepM Report :=
  withCell name fun id => do
    let f ← change
    modifyStore (·.modifyCell (.cell id) f)
    return .none

/-- Take a step. Thunks run by `run`, and `used` holds what the running program has read. -/
def take (run : Force Host) (fuel : Nat) (used : List Value) : Step → StepM Report
  | .define name e => do
    let v ← value used e
    modifyStore (·.bind name v)
    return .none
  | .describe e => do sketched (← value used e)
  | .inspect e => do
    let v ← value used e
    return .text ((← store).inspect v)
  | .compare a b => do
    let a ← value used a
    let b ← value used b
    let same := match a.identity?, b.identity? with
      | some i, some j => i == j
      | _, _ => false
    return .record [("eq", .bool ((← store).equal a b)), ("same", .bool same)]
  | .pushItem name e => modifyNamed name do
    let v ← value used e
    return (·.addItem v)
  | .setField name key e => modifyNamed name do
    let v ← value used e
    return (·.addField key v)
  | .pushEntry name key e => modifyNamed name do
    let k ← value used key
    let v ← value used e
    return (·.addEntry k v)
  | .fulfil name e => settle name do return .ok (← value used e)
  | .reject name reason => settle name (return .error reason)
  | .observe name label forward => withCell name fun id => do
    modifyStore (·.andThen id (.observe label forward))
    return .none
  | .promiseInfo name => withCell name fun id => do return promiseInfo (← store) id
  | .pollPromise name bellName => withCell name fun id => do
    let b ← bell bellName
    match ← onStore (·.pollPromise id b) with
    | none => return .text "pending"
    | some o => return .record [("ready", (← store).reportOutcome o)]
  | .rings bellName => do
    let b ← bell bellName
    return .int (((← store).bells[b]?).getD 0)
  | .push name e => pushTo name do return .item (← value used e)
  | .closeStream name => pushTo name (return .close none)
  | .closeStreamWith name e => pushTo name do return .close (some (← value used e))
  | .failStream name reason => pushTo name (return .error reason)
  | .cancelStream name reason => withCell name fun id => do
    modifyStore (·.cancel id reason)
    return .none
  | .nextEvent name => withCell name fun id => do
    let e ← onStore (·.next id)
    let s ← store
    return .ofOption s.reportEvent e
  | .drainStream name => withCell name fun id => do
    let es ← onStore (·.drain id)
    let s ← store
    return .list (es.map s.reportEvent)
  | .streamInfo name => withCell name fun id => do
    let s ← store
    withSome (s.stream? id) fun st => return streamInfo s st
  | .pollStream name bellName => withCell name fun id => do
    let b ← bell bellName
    let p ← onStore (·.pollStream id b)
    return reportPolled (← store).reportOutcome p
  | .newEncoder name spec => do
    let e ← newEncoder used spec
    modifyHost fun h => { h with encoders := h.encoders.add name e }
    return stateReport e
      (.list [.bool e.config.exposeErrors, .int e.config.largeText, .int e.config.chunkSize])
  | .newSink name mark => do
    let i ← onStore (·.newSink (match mark with
      | some m => .withMark m
      | none => .unlimited))
    modifyHost fun h => { h with sinks := (name, i) :: h.sinks }
    return .none
  | .flow name sink => do
    let i := (← get).sink sink
    withEncoder name (flow i)
  | .work name => withEncoder name (work run fuel)
  | .pull name => withEncoder name (both Encoder.pull)
  | .abort name reason => withEncoder name (both (·.abort · reason))
  | .hint name h => withEncoder name (offer h)
  | .takeChunks name => do
    let i := (← get).sink name
    let (chunks, sink) := ((← store).sink i).takeAll
    modifyStore (·.setSink i sink)
    return .record [("chunks", .list (chunks.map .bytes)), ("closes", .int sink.closes)]
  | .popChunk name => do
    let i := (← get).sink name
    let (chunk, sink) := ((← store).sink i).pop
    modifyStore (·.setSink i sink)
    return .ofOption .bytes chunk
  | .peekSink name => do return sinkInfo ((← store).sink ((← get).sink name))
  | .newDecoder name choice => do
    let d ← newDecoder choice
    modifyHost fun h => { h with decoders := h.decoders.add name d }
    return .record [("large_text", .int choice.config.largeText)]
  | .feed name source split => do
    let bs ← bytesOf source
    withDecoder name (DecodeM.feedAll (piecesOf split bs)) fun result d =>
      return .record [("ok", reportResult result), ("closed", .bool d.isClosed)]
  | .handle name id asName valueName =>
    withDecoder name (DecodeM.handle id) fun handle _ => do
      bindName asName (.cell handle)
      let s ← store
      match s.outcome? handle with
      | some (.ok v) => bindName valueName v
      | _ => pure ()
      return s.reportSettled handle
  | .statuses name ids =>
    withDecoder name get fun x _ =>
      return .list (ids.map fun id => .ofOption (fun st => .text (EntryState.name st))
        (x.decoder.status? id))
  | .closeDecoder name => withDecoder name DecodeM.close fun _ d => return .record [("closed",
    .bool d.isClosed)]
  | .failDecoder name reason =>
    withDecoder name (DecodeM.closeWith reason) fun _ d =>
      return .record [("closed", .bool d.isClosed)]
  | .newOutlet name spec => do keepOutlet name (← newEncoder used spec)
  | .outletOf name encoder => do
    withSome ((← host).encoders.find? encoder) fun (i, e) => do
      modifyHost fun h => { h with encoders := h.encoders.clear i }
      keepOutlet name e
  | .pollOutlet name bellName => do
    let b ← bell bellName
    withSome ((← host).outlets.find? name) fun (i, o) => do
      modifyHost fun h => { h with outlets := h.outlets.clear i }
      let x ← get
      let (p, o, s, h) ← (o.poll run fuel b x.store x.host : Option _)
      set (Session.mk s h)
      modifyHost fun h => { h with outlets := h.outlets.put i o }
      return reportPolled .bytes p
  | .abortOutlet name reason => withOutlet name (both (·.abort · reason))
  | .hintOutlet name h => withOutlet name (offer h)
  | .intakeOf name asName choice outlet => do
    withSome ((← host).outlets.find? outlet) fun (i, o) => do
      modifyHost fun h => { h with outlets := h.outlets.clear i }
      keepIntake name asName choice (.outlet o)
  | .intakeOfChunks name asName choice chunks => keepIntake name asName choice (.chunks chunks)
  | .pollIntake name bellName => do
    let b ← bell bellName
    withSome ((← host).intakes.find? name) fun (i, intake) => do
      modifyHost fun h => { h with intakes := h.intakes.clear i }
      let x ← get
      let (result, intake, s, h) ← (Intake.poll run fuel intake b x.store x.host : Option _)
      set (Session.mk s h)
      modifyHost fun h => { h with intakes := h.intakes.put i intake }
      match result with
      | none => return .text "pending"
      | some r => return .record [("ready", reportResult r)]
  | .newSlot name => do
    let i ← onStore Store.newSlot
    modifyHost fun h => { h with slots := (name, i) :: h.slots }
    return .none
  | .takeSlot slot lease => do
    withSome ((← host).slots.lookup slot) fun i => do
      let s ← MonadExcept.ofExcept ((← store).takeSlot i)
      modifyStore fun _ => s
      -- a lease that had the name ends
      match (← host).leases.lookup lease with
      | some old => modifyStore (·.freeSlot old)
      | none => pure ()
      modifyHost fun h => { h with leases := (lease, i) :: without lease h.leases }
      return .bool ((← store).isHeld i)
  | .freeSlot lease => do
    match (← host).leases.lookup lease with
    | none => return .bool false
    | some i =>
      modifyStore (·.freeSlot i)
      modifyHost fun h => { h with leases := without lease h.leases }
      return .bool true
  | .slotHeld slot => do
    withSome ((← host).slots.lookup slot) fun i => return .bool ((← store).isHeld i)
  | .newProxy name path isAsync => do
    modifyHost fun h => { h with proxies := (name, { path, isAsync }) :: h.proxies }
    return .none
  | .proxyInfo name => do
    withSome ((← host).proxies.lookup name) fun p =>
      return .record [("module", .text p.path), ("materialized", .int p.exports.size)]
  | .newTemporaries set => do
    let i ← onStore Store.newTemporaries
    modifyHost fun h => { h with temporaries := (set, i) :: h.temporaries }
    return .none
  | .registerTemporary set e id => do
    let v ← value used e
    let i := (← get).temporarySet set
    return .bool (← onStore (·.registerTemporary i v id))
  | .lookupTemporary set id => do
    let i := (← get).temporarySet set
    let s ← store
    let size := (s.temporarySet i).values.length
    return .record [("value", .ofOption (fun v => .value (s.sketch v)) (s.temporary? i id)),
      ("len", .int size), ("empty", .bool (size == 0))]
  | .temporaryName set e => do
    let v ← value used e
    let i := (← get).temporarySet set
    return .ofOption .text ((← store).temporaryId? i v)
  | .newTable name => do
    modifyHost fun h => { h with tables := (name, {}) :: h.tables }
    return .none
  | .useTable name use => do
    withSome ((← host).tables.lookup name) fun t => do
      let (r, t) ← useTable used t use
      modifyHost fun h => { h with tables := (name, t) :: without name h.tables }
      return r

/-- Take a step; a failure is reported. -/
def report (m : StepM Report) : StateT Session Option Report := do
  match ← m.run with
  | .ok r => return r
  | .error f => return .fault f

end StepM

end GraphRows
