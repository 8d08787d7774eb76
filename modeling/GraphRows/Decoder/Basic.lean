import GraphRows.Config
import GraphRows.Reference.Manifest
import GraphRows.Reference.Token
import GraphRows.Row.Reader
import GraphRows.Store.Promise
import GraphRows.Store.Stream

/-!
# Decoders

A decoder rebuilds a value graph from rows that may come in any order. Every row id has one entry,
created when the id is first heard of, and every entry has a handle: a promise that settles with it.

A row may refer to rows that have not come. Such a reference leaves a hole in the value, and a
watcher on the entry it waits for; the watcher fills the hole later. The value under construction is
the entry's draft. An entry is *blocked* while its draft has holes that count, and *reviving* while
its row is being read.

A hole whose filling would have to wait for the entry itself does not count: otherwise rows that
refer to each other in a circle would wait for ever. It is filled when the circle is complete.
-/

namespace GraphRows

/-- How far the value of an entry is. A model is read as soon as its row has come, so there is no
state for one that is known and not read. -/
inductive EntryState where
  | pending
  | reviving
  | blocked
  | fulfilled (v : Value)
  | rejected (r : Rejection)
deriving Inhabited

namespace EntryState

/-- Whether the entry is settled for good. -/
def isTerminal : EntryState → Bool
  | .fulfilled _ | .rejected _ => true
  | _ => false

/-- Whether the entry has a draft with holes in it. -/
def isDraft : EntryState → Bool
  | .reviving | .blocked => true
  | _ => false

/-- Whether the entry is blocked. -/
def isBlocked : EntryState → Bool
  | .blocked => true
  | _ => false

/-- Whether no row has come for the entry. -/
def isPending : EntryState → Bool
  | .pending => true
  | _ => false

/-- The name of the state. -/
def name : EntryState → String
  | .pending => "Pending"
  | .reviving => "Cyclic"
  | .blocked => "Blocked"
  | .fulfilled _ => "Fulfilled"
  | .rejected _ => "Rejected"

end EntryState

/-- A value under construction. -/
structure Draft where
  value : Value := .undefined
  /-- how many holes count and are not filled -/
  holes : Nat := 0
  /-- the entries those holes wait for -/
  waitingOn : List Nat := []
  /-- construction has failed -/
  failed : Bool := false
deriving Inhabited

/-- A place in a draft. -/
inductive Hole where
  | root
  | item (array : CellId) (index : Nat)
  | field (object : CellId) (key : String)
deriving DecidableEq, Inhabited

/-- What a reference makes of the value it leads to. -/
inductive Shape where
  | plain
  | derived (kind : Derived)
  | binary (kind : BinaryKind)
deriving DecidableEq, Inhabited

namespace Shape

/-- The name of the shape. -/
def name : Shape → String
  | .plain => "Plain"
  | .derived kind => kind.name
  | .binary kind => "Typed(" ++ kind.name ++ ")"

end Shape

/-- Who waits for an entry. -/
inductive Watcher where
  /-- a hole in the draft of `target` -/
  | hole (target : Nat) (hole : Hole) (path : List String) (shape : Shape) (cyclic : Bool)
  /-- the stream with an id -/
  | stream (id : Nat)
deriving DecidableEq, Inhabited

/-- What is known of one row. -/
structure Entry where
  state : EntryState := .pending
  draft : Draft := {}
  watchers : List Watcher := []
  /-- the promise that settles with the entry -/
  handle : CellId
deriving Inhabited

/-- Something that came for a stream and was not delivered. -/
inductive StreamEntry where
  | ready (v : Value)
  | entry (index : Nat)
  | close (returned : Option Nat)
  | error (r : Rejection)
deriving DecidableEq, Inhabited

/-- A stream whose end has not come. -/
structure OpenStream where
  stream : CellId
  queue : List StreamEntry := []
  /-- a watcher stands on the entry at the front -/
  waiting : Bool := false
deriving Inhabited

/-- How modules are loaded. -/
structure Loader where
  /-- whether loading is noted -/
  observed : Bool := false
  load : Import → Store → Except Rejection Value × Store

namespace Loader

/-- Stand for each module by a client reference. -/
def standard : Loader where
  load m s :=
    let (v, s) := s.make (.client (m.id ++ "#" ++ m.name) m.isAsync)
    (.ok v, s)

instance : Inhabited Loader := ⟨standard⟩

end Loader

/-- The choices a decoder is created with. -/
structure DecoderOptions where
  config : Config := {}
  loader : Loader := .standard
  /-- whether hints are noted -/
  observeHints : Bool := false
  temporaries : Option Nat := none
deriving Inhabited

/-- The state of a decoder. -/
structure Decoder where
  options : DecoderOptions
  reader : RowReader := .start
  entries : Array Entry := #[]
  /-- the entry of each row id -/
  ids : List (Nat × Nat) := []
  streams : List (Nat × OpenStream) := []
  /-- what references have made of entries -/
  derived : List ((Nat × Shape) × Value) := []
  /-- entries that have settled and whose watchers have not run -/
  wake : List Nat := []
  closed : Option Rejection := none
deriving Inhabited

/-- A decoder at work. -/
structure Decoding where
  decoder : Decoder
  store : Store
deriving Inhabited

/-- Work of a decoder. -/
abbrev DecodeM := StateM Decoding

namespace Decoder

/-- A new decoder. -/
def create (options : DecoderOptions) : Decoder := { options }

/-- An entry; one that does not exist is pending. -/
def entry (d : Decoder) (i : Nat) : Entry := (d.entries[i]?).getD { handle := 0 }

/-- Change an entry. -/
def modifyEntry (d : Decoder) (i : Nat) (f : Entry → Entry) : Decoder :=
  { d with entries := d.entries.modify i f }

/-- Change the draft of an entry. -/
def modifyDraft (d : Decoder) (i : Nat) (f : Draft → Draft) : Decoder :=
  d.modifyEntry i fun e => { e with draft := f e.draft }

/-- The open stream with an id. -/
def stream? (d : Decoder) (id : Nat) : Option OpenStream := d.streams.lookup id

/-- Change the open stream with an id. -/
def setStream (d : Decoder) (id : Nat) (st : OpenStream) : Decoder :=
  { d with streams := d.streams.map fun (k, old) => (k, if k == id then st else old) }

/-- Forget the open stream with an id. -/
def dropStream (d : Decoder) (id : Nat) : Decoder :=
  { d with streams := d.streams.filter (·.1 != id) }

/-- The state of the row with an id, if it was ever heard of. -/
def status? (d : Decoder) (id : Nat) : Option EntryState :=
  (d.ids.lookup id).map fun i => (d.entry i).state

/-! ## Waiting

`waitsOn d i target` asks whether the draft of `i` waits, over any number of other drafts, for
`target`. The search goes through each draft once, so the number of edges bounds its length; that
bound is the fuel. A search that runs out of it has no answer. -/

/-- Search the drafts on the stack that were not seen. -/
def waitsOnFrom (d : Decoder) (target : Nat) : Nat → List Nat → List Nat → Option Bool
  | 0, _, _ => none
  | _, [], _ => some false
  | fuel + 1, i :: stack, seen =>
    if seen.contains i || !(d.entry i).state.isDraft then
      waitsOnFrom d target fuel stack (i :: seen)
    else
      let next := (d.entry i).draft.waitingOn
      if next.contains target then some true
      else
        waitsOnFrom d target fuel
          (next.filter (fun j => !(d.entry j).state.isTerminal) ++ stack) (i :: seen)

/-- The number of edges between drafts. -/
def edgeCount (d : Decoder) : Nat :=
  d.entries.toList.foldl (fun n e => n + e.draft.waitingOn.length) 0

/-- Whether an entry waits for another. The fuel is always enough, so there is an answer. -/
def waitsOn (d : Decoder) (i target : Nat) : Bool :=
  (d.waitsOnFrom target (d.edgeCount + 2) [i] []).getD false

end Decoder

namespace DecodeM

/-- The decoder's own state. -/
def decoder : DecodeM Decoder := do return (← get).decoder

/-- The store. -/
def store : DecodeM Store := do return (← get).store

/-- Change the decoder. -/
def modifyDecoder (f : Decoder → Decoder) : DecodeM Unit :=
  modify fun x => { x with decoder := f x.decoder }

/-- Change the store. -/
def modifyStore (f : Store → Store) : DecodeM Unit := modify fun x => { x with store := f x.store }

/-- Run a step of the store that has an answer. -/
def onStore {α : Type} (f : Store → α × Store) : DecodeM α := fun x =>
  let (a, s) := f x.store
  (a, { x with store := s })

/-- A new entry, with its handle settled if the entry is. -/
def newEntry (state : EntryState) : DecodeM Nat := do
  let handle ← onStore Store.newPromise
  match state with
  | .fulfilled v => modifyStore fun s => (s.settle handle (.ok v)).2
  | .rejected r => modifyStore fun s => (s.settle handle (.error r)).2
  | _ => pure ()
  let index := (← decoder).entries.size
  modifyDecoder fun d => { d with entries := d.entries.push { state, handle } }
  return index

/-- The entry of a row id. -/
def entryOf (id : Nat) : DecodeM Nat := do
  let d ← decoder
  match d.ids.lookup id with
  | some i => return i
  | none =>
    let i ← newEntry (match d.closed with
      | some r => .rejected r
      | none => .pending)
    modifyDecoder fun d => { d with ids := (id, i) :: d.ids }
    return i

/-- The entry of a row id that no row has come for. -/
def openRow? (id : Nat) : DecodeM (Option Nat) := do
  let i ← entryOf id
  return if ((← decoder).entry i).state.isPending then some i else none

/-- Settle an entry and its handle. An entry settles once. -/
def settleEntry (i : Nat) (o : Outcome) : DecodeM Unit := do
  let e := (← decoder).entry i
  if e.state.isTerminal then pure ()
  else
    let state : EntryState := match o with
      | .ok v => .fulfilled v
      | .error r => .rejected r
    modifyDecoder (·.modifyEntry i ({ · with state }))
    modifyStore fun s => (s.settle e.handle o).2
    modifyDecoder fun d => { d with wake := d.wake ++ [i] }

end DecodeM

end GraphRows
