import GraphRows.Store.Basic

/-!
# Sketching a graph

Identities are numbered as they are first met, depth first, a container before its children. Every
step down meets a cell for the first time, so the number of cells bounds the depth; that bound is
the fuel.
-/

namespace GraphRows.Store

/-- The identities met so far, the last one first. -/
abbrev Met := List CellId

/-- The number of an identity that was met. -/
def number? (id : CellId) : Met → Option Nat
  | [] => none
  | m :: rest => if m == id then some rest.length else number? id rest

/-- Sketch a value, going down at most `fuel` cells. -/
def sketchWith (s : Store) : Nat → Value → StateM Met Sketch
  | 0, v => pure (.scalar v)
  | fuel + 1, v =>
    match v with
    | .cell id => do
      let met ← get
      match number? id met with
      | some n => pure (.again n)
      | none =>
        let n := met.length
        set (id :: met)
        match s.cell? id with
        | none => pure (.scalar .undefined)
        | some (.array items) => return .array n (← items.mapM (sketchWith s fuel))
        | some (.set items) => return .set n (← items.mapM (sketchWith s fuel))
        | some (.object fields) => return .object n (← fields.mapM fun (k, v) =>
          return (k, ← sketchWith s fuel v))
        | some (.form entries) => return .form n (← entries.mapM fun (k, v) =>
          return (k, ← sketchWith s fuel v))
        | some (.map entries) =>
          return .map n (← entries.mapM fun (k, v) =>
            return (← sketchWith s fuel k, ← sketchWith s fuel v))
        | some (.binary data) => pure (.binary n data)
        | some (.blob mime bytes) => pure (.blob n mime bytes)
        | some (.promise ⟨none, _, _⟩) => pure (.pending n)
        | some (.promise ⟨some (.ok v), _, _⟩) => return .fulfilled n (← sketchWith s fuel v)
        | some (.promise ⟨some (.error r), _, _⟩) => pure (.rejected n r)
        | some (.stream st) => pure (.stream n st.kind st.finished)
        | some .lazy => pure (.lazy n)
        | some (.client id isAsync) => pure (.client n id isAsync)
        | some (.server id none) => pure (.server n id none)
        | some (.server id (some v)) => return .server n id (some (← sketchWith s fuel v))
        | some (.temporary id) => pure (.temporary n id)
    | v => pure (.scalar v)

/-- A value with everything below it. -/
def sketch (s : Store) (v : Value) : Sketch := (sketchWith s (s.cells.size + 1) v []).1

/-- An outcome, with everything below its value. -/
def reportOutcome (s : Store) : Outcome → Report
  | .ok v => .record [("value", .value (s.sketch v))]
  | .error r => .record [("reason", .reason r)]

/-- A stream event, with everything below its value. -/
def reportEvent (s : Store) : StreamEvent → Report
  | .item v => .record [("item", .value (s.sketch v))]
  | .close none => .text "close"
  | .close (some v) => .record [("close", .value (s.sketch v))]
  | .error r => .record [("error", .reason r)]

/-- The outcome of a promise so far. -/
def reportSettled (s : Store) (promise : CellId) : Report :=
  match (s.promise? promise).bind (·.outcome) with
  | some o => s.reportOutcome o
  | none => .text "pending"

end GraphRows.Store
