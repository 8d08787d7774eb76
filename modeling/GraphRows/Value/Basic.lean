import GraphRows.Fault.Basic
import GraphRows.Binary.Kind
import GraphRows.Row.Tag
import GraphRows.Time.Instant

/-!
# Values

A value is a scalar or the name of a cell. Everything that has an identity (arrays, objects,
collections, promises, streams, references) lives in a cell of the store, and a value that stands at
two places of a graph, or inside itself, is the same cell named twice. So values are flat, graphs
may be cyclic, and "the same thing" is equality of cell names.

A lazy value is nothing but its identity: what it computes is the business of whoever forces it.
-/

namespace GraphRows

/-- The name of a cell. -/
abbrev CellId := Nat

/-- A value. -/
inductive Value where
  | undefined
  | null
  | bool (b : Bool)
  | number (x : Double)
  | string (s : String)
  | bigint (n : Int)
  | date (t : Instant)
  | symbol (name : String)
  | cell (id : CellId)
deriving DecidableEq, Inhabited

namespace Value

/-- The identity of a value that has one. -/
def identity? : Value → Option CellId
  | .cell id => some id
  | _ => none

/-- An integer as a value. -/
def ofInt (n : Int) : Value := .number (Double.ofInt n)

end Value

/-- How a promise ends. -/
abbrev Outcome := Except Rejection Value

/-- A message to an encoder about something it waits for. -/
inductive Ping where
  | retry (task : Nat)
  | fulfilled (task : Nat) (value : Value)
  | rejected (task : Nat) (reason : Rejection)
  | stream (task : Nat)
deriving DecidableEq, Inhabited

/-- What happens when a promise settles. -/
inductive Callback where
  /-- wake a suspended task -/
  | retry (mailbox task : Nat)
  /-- hand the outcome to a task -/
  | deliver (mailbox task : Nat)
  /-- note the outcome, and settle with it the promise that a variable then names -/
  | observe (label : String) (forward : Option String)
deriving DecidableEq, Inhabited

/-- A promise: its outcome once it has one, and who waits for it. -/
structure Promise where
  outcome : Option Outcome := none
  callbacks : List Callback := []
  bells : List Nat := []
deriving Inhabited

/-- One event of a stream. -/
inductive StreamEvent where
  | item (value : Value)
  | close (returned : Option Value)
  | error (reason : Rejection)
deriving DecidableEq, Inhabited

namespace StreamEvent

/-- Whether nothing can follow the event. -/
def isTerminal : StreamEvent → Bool
  | .item _ => false
  | .close _ | .error _ => true

/-- The value of an item. -/
def item? : StreamEvent → Option Value
  | .item v => some v
  | .close _ | .error _ => none

end StreamEvent

/-- A stream of values. -/
structure Stream where
  kind : StreamKind
  /-- events pushed and not yet read -/
  buffer : List StreamEvent := []
  /-- a terminal event was pushed -/
  finished : Bool := false
  /-- a terminal event was read -/
  terminated : Bool := false
  /-- the value the stream closed with, once that was read -/
  returned : Option Value := none
  cancelled : Option Rejection := none
  /-- somebody has subscribed -/
  locked : Bool := false
  /-- the mailbox and the task to tell of new events -/
  subscriber : Option (Nat × Nat) := none
  bell : Option Nat := none
deriving Inhabited

/-- The content of a cell. -/
inductive Cell where
  | array (items : List Value)
  | object (fields : List (String × Value))
  | map (entries : List (Value × Value))
  | set (items : List Value)
  | form (entries : List (String × Value))
  | binary (data : Binary)
  | blob (mime : String) (bytes : Bytes)
  | promise (p : Promise)
  | stream (s : Stream)
  | lazy
  | client (id : String) (isAsync : Bool)
  | server (id : String) (bound : Option Value)
  | temporary (id : String)
deriving Inhabited

namespace Cell

/-- Add an item at the end of an array or a set. -/
def addItem (v : Value) : Cell → Cell
  | .array items => .array (items ++ [v])
  | .set items => .set (items ++ [v])
  | c => c

/-- Set a field of an object, or add an entry at the end of a form. -/
def addField (key : String) (v : Value) : Cell → Cell
  | .object fields => .object (Json.setField key v fields)
  | .form entries => .form (entries ++ [(key, v)])
  | c => c

/-- Add an entry at the end of a map. -/
def addEntry (key v : Value) : Cell → Cell
  | .map entries => .map (entries ++ [(key, v)])
  | c => c

/-- The name of the kind of a cell. -/
def typeName : Cell → String
  | .array _ => "Array"
  | .object _ => "Object"
  | .map _ => "Map"
  | .set _ => "Set"
  | .form _ => "FormData"
  | .binary _ => "TypedArray"
  | .blob .. => "Blob"
  | .promise _ => "Promise"
  | .stream _ => "Stream"
  | .lazy => "Lazy"
  | .client .. => "ClientReference"
  | .server .. => "ServerReference"
  | .temporary _ => "TemporaryReference"

end Cell

end GraphRows
