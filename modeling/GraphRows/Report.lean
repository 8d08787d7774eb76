import GraphRows.Hint
import GraphRows.Value.Basic

/-!
# Reports

What can be shown of a store to the outside. A `Sketch` is a value with everything below it, each
identity numbered in the order it is first met and shown once; so it is a finite tree even when the
graph is cyclic, and it does not change when the graph does. A `Report` is a tree of such facts, and
an `Event` is something that happened and was noted.
-/

namespace GraphRows

/-- A value with everything below it, as it was when it was looked at. -/
inductive Sketch where
  | scalar (v : Value)
  /-- an identity met before -/
  | again (n : Nat)
  | array (n : Nat) (items : List Sketch)
  | set (n : Nat) (items : List Sketch)
  | object (n : Nat) (fields : List (String × Sketch))
  | form (n : Nat) (entries : List (String × Sketch))
  | map (n : Nat) (entries : List (Sketch × Sketch))
  | binary (n : Nat) (data : Binary)
  | blob (n : Nat) (mime : String) (bytes : Bytes)
  | pending (n : Nat)
  | fulfilled (n : Nat) (value : Sketch)
  | rejected (n : Nat) (reason : Rejection)
  | stream (n : Nat) (kind : StreamKind) (finished : Bool)
  | lazy (n : Nat)
  | client (n : Nat) (id : String) (isAsync : Bool)
  | server (n : Nat) (id : String) (bound : Option Sketch)
  | temporary (n : Nat) (id : String)
deriving Inhabited

/-- A tree of facts. -/
inductive Report where
  | none
  | bool (b : Bool)
  | int (n : Int)
  | text (s : String)
  | bytes (bs : Bytes)
  | value (s : Sketch)
  | reason (r : Rejection)
  | hint (h : Hint)
  | list (items : List Report)
  | record (fields : List (String × Report))
deriving Inhabited

namespace Report

/-- A fact that may be missing. -/
def ofOption {α : Type} (f : α → Report) : Option α → Report
  | some a => f a
  | Option.none => .none

/-- A fault. -/
def fault (f : Fault) : Report := .reason (.ofFault f)

end Report

/-- Something that happened and was noted. -/
inductive Event where
  /-- a thunk with a label ran -/
  | forced (label : String)
  /-- a thunk took a step of its own -/
  | did (result : Report)
  /-- an observed promise settled -/
  | settled (label : String) (outcome : Report)
  /-- an encoder was told of an error -/
  | error (message : String)
  /-- an encoder was told of a postponement -/
  | postponed (reason : String)
  /-- a decoder asked for a module -/
  | load (row : Json)
  /-- a decoder received a hint -/
  | hint (h : Hint)

end GraphRows
