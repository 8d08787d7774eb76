import GraphRows.Hint
import GraphRows.Store.Promise

/-!
# Forcing lazy values

A lazy value may read promises while it is forced. When it reads one that is pending it is
interrupted, and forced again from its start once the promise has settled. So that the second
attempt sees what the first one saw, the promises read are remembered by position: the n-th read of
a later attempt gets the promise of the n-th read of the first attempt that came so far, whatever
promise it asks for.

What a lazy value does is a parameter of the encoder: `Force` runs the thunk of a cell on the store
and on a state of the host that the encoder never looks at. No answer means that the host gave up.
-/

namespace GraphRows

/-- Why a thunk returned no value. -/
inductive Interrupt where
  | suspend (promise : CellId)
  | throw (reason : Rejection)
deriving DecidableEq, Inhabited

/-- One attempt to force a thunk. -/
structure Attempt where
  /-- the promises read by this attempt and the ones before it, by position -/
  recalled : List CellId := []
  /-- how many promises this attempt has read -/
  position : Nat := 0
  /-- the hints it has given, oldest first -/
  hints : List Hint := []
deriving Inhabited

namespace Attempt

/-- The outcome of a promise as a thunk sees it. -/
def look (s : Store) (promise : CellId) : Except Interrupt Value :=
  match s.outcome? promise with
  | some (.ok v) => .ok v
  | some (.error r) => .error (.throw r)
  | none => .error (.suspend promise)

/-- Read a promise: the one remembered for this position, or else the given one, which is then
remembered. -/
def read (a : Attempt) (s : Store) (promise : CellId) : Except Interrupt Value × Attempt :=
  match a.recalled[a.position]? with
  | some earlier => (look s earlier, { a with position := a.position + 1 })
  | none => (look s promise,
    { a with recalled := a.recalled ++ [promise], position := a.position + 1 })

/-- Give a hint. -/
def hint (a : Attempt) (h : Hint) : Attempt := { a with hints := a.hints ++ [h] }

end Attempt

/-- How the thunks of a host run. -/
abbrev Force (η : Type) := CellId → Attempt → Store → η → Option
    (Except Interrupt Value × Attempt × Store × η)

end GraphRows
