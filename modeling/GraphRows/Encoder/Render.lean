import GraphRows.Encoder.Basic
import GraphRows.Store.Stream

/-!
# Rendering

`renderValue` turns one value into the JSON of its place, giving a row of its own to whatever needs
one. `renderModel` does this at every place below the root of a row: there a value that has to wait
becomes a task of its own, and a postponed one a row of its own, so that the values beside it are
written at once.

A value with an identity is remembered before its parts are rendered: the root of a row by the id of
the row, any other by its path from there. When it is met again, the reference is written instead.
Paths run through arrays and objects only, and a key that contains the separator `:` cannot be part
of one. This is what ends the rendering of a cyclic graph; values that are not remembered (below
such a key, or returned by a lazy value inside a row) may send it round for ever. So rendering
carries fuel, one unit for each call inside another.
-/

namespace GraphRows

/-- Why a value was not rendered. -/
inductive Halt where
  | suspend (model : Value) (promise : CellId) (recalled : List CellId)
  | throw (reason : Rejection)

/-- A part of a row, or why there is none. -/
abbrev Rendered (α : Type) := Except Halt α

namespace Render

open EncodeM

variable {η : Type}

/-- Nothing, because of a fault. -/
def failed {α : Type} (f : Fault) : Rendered α := .error (.throw (.ofFault f))

/-- The JSON of a token. -/
def tokenJson (t : Token) : Json := .str t.render

/-- Force a lazy value, queueing the hints it gives. The promises it has read are returned with the
result. -/
def force (run : Force η) (id : CellId) (recalled : List CellId) :
    EncodeM η (Except Interrupt Value × List CellId) := fun x =>
  match run id { recalled } x.store x.host with
  | none => none
  | some (r, a, store, host) =>
    let encoder := a.hints.foldl (fun e h => (e.queueHint h).2) x.encoder
    some ((r, a.recalled), { encoder, store, host })

/-- A text; a large one gets a row of its own. -/
def renderString (t : String) : EncodeM η Json := do
  if (utf8 t).length ≥ (← encoder).config.largeText then
    let id ← onEncoder (·.allocateRow)
    modifyEncoder (·.push .regular ⟨id, .text t⟩)
    return Encoder.rowJson id
  else return tokenJson (.text t)

/-- A symbol; its row goes out with the imports. -/
def renderSymbol (name : String) : EncodeM η Json := do
  match (← encoder).refs.symbol? name with
  | some id => return Encoder.rowJson id
  | none =>
    let id ← onEncoder (·.allocateRow)
    modifyEncoder (·.pushModel .imports id (tokenJson (.symbol name)))
    modifyEncoder fun e => { e with refs := e.refs.recordSymbol name id }
    return Encoder.rowJson id

/-- A client reference; its row is an import, or an error when the manifest does not know it. -/
def renderClient (path : String) (isAsync : Bool) : EncodeM η Json := do
  let key := clientKey path isAsync
  match (← encoder).refs.client? key with
  | some id => return Encoder.rowJson id
  | none =>
    let id ← onEncoder (·.allocateRow)
    match (← encoder).manifest.resolve path isAsync with
    | .ok m => modifyEncoder (·.push .imports ⟨id, .importing m.toJson⟩)
    | .error f => emitRejection id (.ofFault f)
    modifyEncoder fun e => { e with refs := e.refs.recordClient key id }
    return Encoder.rowJson id

/-- The row of a promise. A pending promise hands its outcome to the row's task when it settles. -/
def promiseRow (id : CellId) : EncodeM η Nat := do
  let task ← onEncoder (·.createTask .null [])
  match (← store).outcome? id with
  | some (.ok v) =>
    modifyEncoder (·.keepTask { task with model := v })
    modifyStore (·.post (← encoder).mailbox (.retry task.id))
  | some (.error r) =>
    modifyEncoder (·.dropAbortable task.id)
    emitRejection task.id r
  | none =>
    if (← encoder).status == .aborting then
      modifyEncoder (·.dropAbortable task.id)
      let fatal ← fatalRow
      modifyEncoder (·.pushModel .regular task.id (Encoder.rowJson fatal))
    else
      modifyEncoder (·.keepTask task)
      modifyStore (·.andThen id (.deliver (← encoder).mailbox task.id))
  return task.id

/-- A promise. As the root of a row it gets a new row even when it has one. -/
def renderPromise (id : CellId) (isRoot : Bool) : EncodeM η Json := do
  match (← encoder).refs.get? (.cell id), isRoot with
  | some t, false => return tokenJson t
  | _, _ =>
    let t := Token.promise (← promiseRow id)
    modifyEncoder (·.record (.cell id) t)
    return tokenJson t

/-- A stream: an open row now, and its items as they come. -/
def renderStream (id : CellId) (st : Stream) : EncodeM η (Rendered Json) := do
  if st.locked then return failed .streamTaken
  let task ← onEncoder (·.createTask (.cell id) [])
  -- a stream ends through its own rows, so an abort does not answer for it like for a task
  modifyEncoder (·.dropAbortable task.id)
  modifyEncoder fun e => { e with pending := e.pending + 1 }
  modifyEncoder (·.push .regular ⟨task.id, .opening st.kind⟩)
  modifyEncoder (·.keepStream task)
  match (← store).subscribe id (← encoder).mailbox task.id with
  | .ok s =>
    modifyStore fun _ => s
    return .ok (Encoder.rowJson task.id)
  | .error f => return failed f

/-- Binary data: a row of its own. -/
def renderBinary (id : CellId) (data : Binary) : EncodeM η Json := do
  let row ← onEncoder (·.allocateRow)
  modifyEncoder (·.push .regular ⟨row, .binary data⟩)
  if ((← encoder).refs.get? (.cell id)).isNone then
    modifyEncoder (·.record (.cell id) (.row { row }))
  return Encoder.rowJson row

/-- The path of a key below a reference, if paths can hold the key. -/
def childReference? (parent : Option Reference) (key : String) : Option Reference :=
  match parent with
  | some r => if key.toList.contains ':' then none else some { r with path := r.path ++ [key] }
  | none => none

/-- Whether the parts of a cell are addressed through it. -/
def isTree : Cell → Bool
  | .array _ | .object _ => true
  | _ => false

/-- The name under which a value crosses the wire without its content. -/
def temporaryName? (e : Encoder) (s : Store) (id : CellId) : Option String :=
  e.temporaries.bind fun set => s.temporaryId? set (.cell id)

/-- Remember the value at a place, as the root of a task or by its path. -/
def remember (task : Nat) (parent : Option Reference) (key : String) (id : CellId)
    (isRoot isTree : Bool) : EncodeM η Unit := do
  if ((← encoder).refs.get? (.cell id)).isNone then
    match childReference? parent key with
    | some r => modifyEncoder (·.record (.cell id) (.row r))
    | none => pure ()
  if isRoot && isTree then modifyEncoder (·.record (.cell id) (.row { row := task }))

/-- How the parts of an array or an object are addressed. -/
def ownReference (id : CellId) : EncodeM η (Option Reference) := do
  match (← encoder).refs.get? (.cell id) with
  | some (.row r) => return some r
  | _ => return none

/-- Entries of two parts each, as arrays. -/
def pairArrays : List (Value × Value) → Store → List Value × Store
  | [], s => ([], s)
  | (k, v) :: rest, s =>
    let (pair, s) := s.make (.array [k, v])
    let (pairs, s) := pairArrays rest s
    (pair :: pairs, s)

/-- The array that stands for a collection in a row of its own. -/
def entriesArray (c : Cell) (s : Store) : Value × Store :=
  match c with
  | .map entries =>
    let (pairs, s) := pairArrays entries s
    s.make (.array pairs)
  | .form entries =>
    let (pairs, s) := pairArrays (entries.map fun (k, v) => (.string k, v)) s
    s.make (.array pairs)
  | .set items => s.make (.array items)
  | .blob mime bytes =>
    let (data, s) := s.make (.binary ⟨.uint8, bytes⟩)
    s.make (.array [.string mime, data])
  | _ => s.make (.array [])

/-- The kind of a collection that is kept in a row of its own. -/
def derivedKind? : Cell → Option Derived
  | .map _ => some .map
  | .set _ => some .set
  | .form _ => some .form
  | .blob .. => some .blob
  | _ => none

/-- Wait for a promise before the task is tried again. -/
def suspendTask (task : Task) (promise : CellId) : EncodeM η Unit := do
  modifyEncoder (·.keepTask task)
  modifyStore (·.andThen promise (.retry (← encoder).mailbox task.id))

/-- Render the parts of an array or an object in order, up to the first that fails. -/
def renderParts (render : String → Value → EncodeM η (Rendered Json)) :
    List (String × Value) → EncodeM η (Rendered (List (String × Json)))
  | [] => return .ok []
  | (k, v) :: rest => do
    match ← render k v with
    | .error h => return .error h
    | .ok j =>
      match ← renderParts render rest with
      | .error h => return .error h
      | .ok js => return .ok ((k, j) :: js)

/-- The items of an array with their indexes as keys. -/
def indexed (items : List Value) : List (String × Value) :=
  items.zipIdx.map fun (v, i) => (toString i, v)

mutual

/-- Try to finish a task. One that is being rendered already is left alone; one that has to wait is
pending again. -/
def retryTask (run : Force η) : Nat → Task → EncodeM η Unit
  | 0, _ => exhausted
  | fuel + 1, task =>
    if task.status != .pending then pure ()
    else do
      let task := { task with status := .rendering }
      let result ← match ← resolveRoot run fuel task.model task.recalled with
        | .ok model => renderValue run fuel task.id none "" model true
        | .error h => pure (.error h)
      match result with
      | .ok j =>
        modifyEncoder (·.dropAbortable task.id)
        modifyEncoder (·.pushModel .regular task.id j)
      | .error (.suspend model promise recalled) =>
        if (← encoder).status == .aborting then
          modifyEncoder (·.dropAbortable task.id)
          let fatal ← fatalRow
          modifyEncoder (·.pushModel .regular task.id (Encoder.rowJson fatal))
        else suspendTask { task with status := .pending, model, recalled } promise
      | .error (.throw reason) =>
        modifyEncoder (·.dropAbortable task.id)
        emitRejection task.id reason

/-- Force the root of a task until it is no lazy value. Each lazy value starts with nothing
remembered. -/
def resolveRoot (run : Force η) : Nat → Value → List CellId → EncodeM η (Rendered Value)
  | 0, _, _ => exhausted
  | fuel + 1, v, recalled => do
    match v, (← store).cellOf? v with
    | .cell id, some .lazy =>
      match ← force run id recalled with
      | (.ok v, _) => resolveRoot run fuel v []
      | (.error (.suspend p), recalled) => return .error (.suspend v p recalled)
      | (.error (.throw r), _) => return .error (.throw r)
    | _, _ => return .ok v

/-- Give a value a row of its own, and try to finish it. -/
def outline (run : Force η) : Nat → Value → EncodeM η Nat
  | 0, _ => exhausted
  | fuel + 1, model => do
    let task ← onEncoder (·.createTask model [])
    retryTask run fuel task
    return task.id

/-- The JSON of a value below the root of a row. -/
def renderModel (run : Force η) : Nat → Nat → Option Reference → String → Value →
    EncodeM η (Rendered Json)
  | 0, _, _, _, _ => exhausted
  | fuel + 1, task, parent, key, v => do
    match ← renderValue run fuel task parent key v false with
    | .ok j => return .ok j
    | .error (.suspend model promise recalled) =>
      if (← encoder).status == .aborting then return .ok (Encoder.rowJson (← fatalRow))
      else
        let outlined ← onEncoder (·.createTask model recalled)
        suspendTask outlined promise
        return .ok (Encoder.rowJson outlined.id)
    | .error (.throw (.postpone reason)) =>
      let id ← onEncoder (·.allocateRow)
      emitRejection id (.postpone reason)
      return .ok (Encoder.rowJson id)
    | .error h => return .error h

/-- The JSON of a value. -/
def renderValue (run : Force η) :
    Nat → Nat → Option Reference → String → Value → Bool → EncodeM η (Rendered Json)
  | 0, _, _, _, _, _ => exhausted
  | fuel + 1, task, parent, key, v, isRoot => do
    match v with
    | .undefined => return .ok (tokenJson .undefined)
    | .null => return .ok .null
    | .bool b => return .ok (.bool b)
    | .number x => return .ok (.ofNumber x)
    | .string t => return .ok (← renderString t)
    | .bigint n => return .ok (tokenJson (.bigint n))
    | .date t => return .ok (tokenJson (.date t))
    | .symbol name => return .ok (← renderSymbol name)
    | .cell id =>
      match (← store).cell? id with
      | none => return .ok (tokenJson .undefined)
      | some .lazy =>
        match ← force run id [] with
        -- the value has no parent that it could be addressed through
        | (.ok v, _) => renderValue run fuel task none "" v false
        | (.error (.suspend p), recalled) => return .error (.suspend (.cell id) p recalled)
        | (.error (.throw r), _) => return .error (.throw r)
      | some (.client path isAsync) => return .ok (← renderClient path isAsync)
      | some (.server name bound) => return .ok (← renderServer run fuel id name bound)
      | some c => renderShared run fuel task parent key id c isRoot

/-- A server reference: its name and bound arguments in a row of their own. -/
def renderServer (run : Force η) : Nat → CellId → String → Option Value → EncodeM η Json
  | 0, _, _, _ => exhausted
  | fuel + 1, id, name, bound => do
    match (← encoder).refs.server? (.cell id) with
    | some t => return tokenJson t
    | none =>
      let model ← onStore (·.make (.object [("id", .string name), ("bound", bound.getD .null)]))
      let t := Token.derived .server (← outline run fuel model)
      modifyEncoder fun e => { e with refs := e.refs.recordServer (.cell id) t }
      return tokenJson t

/-- A value that is written once and referred to afterwards. -/
def renderShared (run : Force η) :
    Nat → Nat → Option Reference → String → CellId → Cell → Bool → EncodeM η (Rendered Json)
  | 0, _, _, _, _, _, _ => exhausted
  | fuel + 1, task, parent, key, id, c, isRoot => do
    match temporaryName? (← encoder) (← store) id, c with
    | some name, _ => return .ok (tokenJson (.temporary name))
    | none, .temporary _ => return failed .unwritableTemporary
    | none, .promise _ => return .ok (← renderPromise id isRoot)
    | none, c =>
      match (← encoder).refs.get? (.cell id), isRoot with
      | some t, false => return .ok (tokenJson t)
      | _, _ =>
        remember task parent key id isRoot (isTree c)
        match c with
        | .array items =>
          let own ← ownReference id
          return (← renderParts (renderModel run fuel task own) (indexed items)).map fun js =>
            .arr (js.map (·.2))
        | .object fields =>
          let own ← ownReference id
          return (← renderParts (renderModel run fuel task own) fields).map .obj
        | .binary data => return .ok (← renderBinary id data)
        | .stream st => renderStream id st
        | c =>
          match derivedKind? c with
          | none => return failed (.unwritable c.typeName)
          | some kind =>
            let entries ← onStore (entriesArray c)
            let t := Token.derived kind (← outline run fuel entries)
            if ((← encoder).refs.get? (.cell id)).isNone then modifyEncoder (·.record (.cell id) t)
            return .ok (tokenJson t)

end

end Render

end GraphRows
