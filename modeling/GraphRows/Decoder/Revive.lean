import GraphRows.Decoder.Basic
import GraphRows.Store.Inspect

/-!
# Reviving rows

A model row is read as JSON and turned into values from the top down. Strings are tokens: most of
them are values at once, and a reference is resolved if the entry it leads to is fulfilled, leaves a
hole if it is not, and fails if it is rejected.
-/

namespace GraphRows

namespace Store

/-- Follow a path through objects and arrays. -/
def walk (s : Store) : Value → List String → Except Fault Value
  | v, [] => .ok v
  | v, key :: rest =>
    let next := match s.cellOf? v with
      | some (.object fields) => fields.lookup key
      | some (.array items) => (Integer.index? key).bind (items[·]?)
      | _ => none
    match next with
    | some v => s.walk v rest
    | none => .error (.badPath key (s.typeName v))

/-- The items of the array behind a reference. -/
def itemsBehind (s : Store) (shape : Shape) (v : Value) : Except Fault (List Value) :=
  match s.cellOf? v with
  | some (.array items) => .ok items
  | _ => .error (.expectedArray shape.name (s.typeName v))

/-- The two parts of an entry. -/
def pairBehind (s : Store) (shape : Shape) (entry : Value) : Except Fault (Value × Value) :=
  match s.item? entry 0, s.item? entry 1 with
  | some k, some v => .ok (k, v)
  | _, _ => .error (.badEntry shape.name (s.inspect entry))

/-- An entry of a form. -/
def formEntryBehind (s : Store) (shape : Shape) (entry : Value) :
    Except Fault (String × Value) := do
  match ← s.pairBehind shape entry with
  | (.string k, v) => .ok (k, v)
  | _ => .error .badFormKey

/-- The bound arguments of a server reference, if they say something. -/
def boundArguments : Option Value → Option Value
  | some .null | some .undefined => none
  | v => v

/-- The type and the bytes of a blob. -/
def blobParts? (s : Store) : List Value → Option (String × Bytes)
  | .string mime :: data :: _ =>
    match s.cellOf? data with
    | some (.binary data) => some (mime, data.bytes)
    | _ => none
  | _ => none

/-- The cell a reference makes of the value it leads to. -/
def shaped (s : Store) (shape : Shape) (v : Value) : Except Fault Cell :=
  match shape with
  | .plain => .error (.expectedArray shape.name (s.typeName v))
  | .derived .map => do return .map (← (← s.itemsBehind shape v).mapM (s.pairBehind shape))
  | .derived .set => do return .set (← s.itemsBehind shape v)
  | .derived .form => do return .form (← (← s.itemsBehind shape v).mapM (s.formEntryBehind shape))
  | .derived .blob => do
    match blobParts? s (← s.itemsBehind shape v) with
    | some (mime, bytes) => return .blob mime bytes
    | none => .error .badBlob
  | .derived .server =>
    match s.field? v "id" with
    | some (.string id) => .ok (.server id (boundArguments (s.field? v "bound")))
    | _ => .error .namelessAction
  | .binary kind =>
    match s.cellOf? v with
    | some (.binary data) => (data.view kind).map .binary
    | _ => .error (.expectedBinary kind.name (s.typeName v))

/-- Fill a hole below the root. -/
def fill (s : Store) (hole : Hole) (v : Value) : Store :=
  match hole with
  | .root => s
  | .item array index =>
    match s.cell? array with
    | some (.array items) => s.write array (.array (items.set index v))
    | _ => s
  | .field object key =>
    match s.cell? object with
    | some (.object fields) => s.write object (.object (Json.setField key v fields))
    | _ => s

end Store

namespace DecodeM

/-- What a reference to a fulfilled entry is. The cells made for the same entry and shape are
one. -/
def resolve (index : Nat) (v : Value) (path : List String) (shape : Shape) : DecodeM Outcome := do
  match (← store).walk v path with
  | .error f => return .error (.ofFault f)
  | .ok v =>
    if shape == .plain then return .ok v
    match (← decoder).derived.lookup (index, shape) with
    | some made => return .ok made
    | none =>
      match (← store).shaped shape v with
      | .error f => return .error (.ofFault f)
      | .ok c =>
        let made ← onStore (·.make c)
        modifyDecoder fun d => { d with derived := ((index, shape), made) :: d.derived }
        return .ok made

/-- What a row that is nothing but a reference into a circle takes for its value: the draft of the
blocked entry, whose holes fill in place. -/
def partialValue? (index : Nat) (path : List String) (shape : Shape) (hole : Hole) :
    DecodeM (Option Value) := do
  if hole == .root && shape == .plain then
    match (← store).walk ((← decoder).entry index).draft.value path with
    | .ok .undefined => return none
    | .ok v => return some v
    | .error _ => return none
  else return none

/-- Leave a hole that waits for an entry. A hole that closes a circle does not count. -/
def leaveHole (target index : Nat) (path : List String) (shape : Shape) (hole : Hole)
    (cyclic : Bool) : DecodeM Outcome := do
  if !cyclic then
    modifyDecoder (·.modifyDraft target fun t =>
      { t with holes := t.holes + 1, waitingOn := t.waitingOn ++ [index] })
  modifyDecoder (·.modifyEntry index fun e =>
    { e with watchers := e.watchers ++ [.hole target hole path shape cyclic] })
  return .ok .undefined

/-- A reference in the draft of `target`. -/
def reference (target id : Nat) (path : List String) (shape : Shape) (hole : Hole) :
    DecodeM Outcome := do
  let index ← entryOf id
  match ((← decoder).entry index).state with
  | .fulfilled v => resolve index v path shape
  | .rejected r => return .error r
  | .reviving => leaveHole target index path shape hole true
  | .pending => leaveHole target index path shape hole false
  | .blocked =>
    if (← decoder).waitsOn index target then
      match ← partialValue? index path shape hole with
      | some v => return .ok v
      | none => leaveHole target index path shape hole true
    else leaveHole target index path shape hole false

/-- The value of a token in the draft of `target`. -/
def reviveToken (target : Nat) (hole : Hole) : Token → DecodeM Outcome
  | .text s => return .ok (.string s)
  | .undefined => return .ok .undefined
  | .number x => return .ok (.number x)
  | .symbol name => return .ok (.symbol name)
  | .date t => return .ok (.date t)
  | .bigint n => return .ok (.bigint n)
  | .promise id => do
    let i ← entryOf id
    return .ok (.cell ((← decoder).entry i).handle)
  | .temporary id => do
    match (← decoder).options.temporaries with
    | some set => return .ok (← onStore (·.resolveTemporary set id))
    | none => return .error (.ofFault .unreadableTemporary)
  | .row r => reference target r.row r.path .plain hole
  | .derived kind id => reference target id [] (.derived kind) hole
  | .binary kind id => reference target id [] (.binary kind) hole

mutual

/-- The value of a JSON value in the draft of `target`. -/
def revive (target : Nat) (hole : Hole) : Json → DecodeM Outcome
  | .null => return .ok .null
  | .bool b => return .ok (.bool b)
  | .int n => return .ok (.number (Double.ofInt n))
  | .float x => return .ok (.number x)
  | .str s =>
    match Token.parse s with
    | .ok t => reviveToken target hole t
    | .error f => return .error (.ofFault f)
  | .arr items => do
    let array ← onStore (·.alloc (.array []))
    match ← reviveItems target array 0 items with
    | .error r => return .error r
    | .ok vs =>
      modifyStore (·.write array (.array vs))
      return .ok (.cell array)
  | .obj fields => do
    let object ← onStore (·.alloc (.object []))
    match ← reviveFields target object fields with
    | .error r => return .error r
    | .ok vs =>
      modifyStore (·.write object (.object vs))
      return .ok (.cell object)

/-- The items of an array, up to the first that fails. -/
def reviveItems (target array index : Nat) : List Json → DecodeM (Except Rejection (List Value))
  | [] => return .ok []
  | j :: rest => do
    match ← revive target (.item array index) j with
    | .error r => return .error r
    | .ok v =>
      match ← reviveItems target array (index + 1) rest with
      | .error r => return .error r
      | .ok vs => return .ok (v :: vs)

/-- The fields of an object, up to the first that fails. -/
def reviveFields (target object : Nat) : List (String × Json) →
    DecodeM (Except Rejection (List (String × Value)))
  | [] => return .ok []
  | (k, j) :: rest => do
    match ← revive target (.field object k) j with
    | .error r => return .error r
    | .ok v =>
      match ← reviveFields target object rest with
      | .error r => return .error r
      | .ok vs => return .ok ((k, v) :: vs)

end

/-- A model row has come for an entry. -/
def reviveRow (index : Nat) (text : String) : DecodeM Unit := do
  match Json.read text with
  | .error e => settleEntry index (.error (.ofFault (.badJson e)))
  | .ok j =>
    modifyDecoder (·.modifyEntry index ({ · with state := .reviving }))
    match ← revive index .root j with
    | .error r =>
      modifyDecoder (·.modifyDraft index ({ · with failed := true }))
      settleEntry index (.error r)
    | .ok v =>
      modifyDecoder (·.modifyDraft index ({ · with value := v }))
      if ((← decoder).entry index).draft.holes == 0 then settleEntry index (.ok v)
      else modifyDecoder (·.modifyEntry index ({ · with state := .blocked }))

/-- An entry a hole waits for has settled: fill the hole, and fulfil the entry of its draft if it
was the last one. -/
def fillHole (index target : Nat) (hole : Hole) (path : List String) (shape : Shape)
    (cyclic : Bool) : DecodeM Unit := do
  let e := (← decoder).entry target
  let ready := !e.draft.failed && (cyclic || !e.state.isTerminal)
  match ready, ((← decoder).entry index).state with
  | true, .rejected r =>
    modifyDecoder (·.modifyDraft target ({ · with failed := true }))
    settleEntry target (.error r)
  | true, .fulfilled v =>
    match ← resolve index v path shape with
    | .error r =>
      modifyDecoder (·.modifyDraft target ({ · with failed := true }))
      settleEntry target (.error r)
    | .ok v =>
      if hole == .root then modifyDecoder (·.modifyDraft target ({ · with value := v }))
      modifyStore (·.fill hole v)
      if !cyclic then
        modifyDecoder (·.modifyDraft target fun t => { t with holes := t.holes - 1 })
        let e := (← decoder).entry target
        if e.draft.holes == 0 && e.state.isBlocked then settleEntry target (.ok e.draft.value)
  | _, _ => pure ()

end DecodeM

end GraphRows
