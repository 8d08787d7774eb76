import GraphRows.Store.Sketch

/-!
# Promises

A promise settles once. Settling it runs its callbacks in the order they were added and then rings
its bells; a callback may settle another promise, whose callbacks run before the next one. Each
promise settled on the way was pending before, so the number of cells bounds how deep this goes;
that bound is the fuel.
-/

namespace GraphRows.Store

/-- A new promise that is pending. -/
def newPromise (s : Store) : CellId × Store := s.alloc (.promise {})

/-- Run a callback with an outcome, given how to settle a promise. -/
def callWith (settle : CellId → Outcome → Store → Store) (c : Callback) (o : Outcome) (s : Store) :
    Store :=
  match c, o with
  | .retry mailbox task, _ => s.post mailbox (.retry task)
  | .deliver mailbox task, .ok v => s.post mailbox (.fulfilled task v)
  | .deliver mailbox task, .error r => s.post mailbox (.rejected task r)
  | .observe label forward, o =>
    let s := s.note (.settled label (s.reportOutcome o))
    match forward.bind fun name => (s.named? name).bind Value.identity? with
    | some q => settle q o s
    | none => s

/-- Settle a promise, with at most `fuel` promises settled inside each other. The answer is whether
it was pending. -/
def settleWith : Nat → CellId → Outcome → Store → Bool × Store
  | 0, _, _, s => (false, s)
  | fuel + 1, id, o, s =>
    match s.promise? id with
    | some ⟨none, callbacks, bells⟩ =>
      let s := s.write id (.promise ⟨some o, [], []⟩)
      let s := callbacks.foldl (fun s c => callWith (fun q o s => (settleWith fuel q o s).2) c o s)
        s
      (true, bells.foldl ring s)
    | _ => (false, s)

/-- Settle a promise. The answer is whether it was pending. -/
def settle (s : Store) (id : CellId) (o : Outcome) : Bool × Store :=
  settleWith (s.cells.size + 1) id o s

/-- Run a callback with an outcome. -/
def call (s : Store) (c : Callback) (o : Outcome) : Store :=
  callWith (fun q o s => (s.settle q o).2) c o s

/-- The outcome of a promise, if it has one. -/
def outcome? (s : Store) (id : CellId) : Option Outcome := (s.promise? id).bind (·.outcome)

/-- Add a callback; on a settled promise it runs at once. -/
def andThen (s : Store) (id : CellId) (c : Callback) : Store :=
  match s.promise? id with
  | some ⟨some o, _, _⟩ => s.call c o
  | some ⟨none, callbacks, bells⟩ => s.write id (.promise ⟨none, callbacks ++ [c], bells⟩)
  | none => s

/-- The outcome of a promise, or a bell to be rung when it settles. -/
def pollPromise (s : Store) (id : CellId) (bell : Nat) : Option Outcome × Store :=
  match s.promise? id with
  | some ⟨some o, _, _⟩ => (some o, s)
  | some ⟨none, callbacks, bells⟩ =>
    let bells := if bells.contains bell then bells else bells ++ [bell]
    (none, s.write id (.promise ⟨none, callbacks, bells⟩))
  | none => (none, s)

end GraphRows.Store
