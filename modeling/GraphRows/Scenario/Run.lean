import GraphRows.Scenario.Step

/-!
# Running a scenario

Lazy values run the programs of the scenario. A program may take a step, and a step may force lazy
values in turn; the fuel bounds how deep this goes and how long each encoder works, and both end
long before it for programs that end at all.
-/

namespace GraphRows

namespace Program

/-- How the commands of a program end: with the result of the thunk, or by running out of fuel. -/
abbrev RunM := StateT (Attempt × Session) Option

/-- Give a value its place behind those read before, and go on. -/
def readThen (used : List Value) (result : Except Interrupt Value)
    (next : List Value → RunM (Except Interrupt Value)) : RunM (Except Interrupt Value) :=
  match result with
  | .ok v => next (used ++ [v])
  | .error i => return .error i

/-- Build a value inside a program; a failure is thrown. -/
def value (used : List Value) (e : Expr) : RunM (Except Interrupt Value) := fun (a, x) =>
  match x.build used e with
  | (.ok v, x) => some (.ok v, a, x)
  | (.error f, x) => some (.error (.throw (.ofFault f)), a, x)

/-- Read a promise with or without remembering it. -/
def read (remember : Bool) (v : Value) : RunM (Except Interrupt Value) := fun (a, x) =>
  let promise := v.identity?.getD x.store.cells.size
  if remember then
    let (result, a) := a.read x.store promise
    some (result, a, x)
  else some (Attempt.look x.store promise, a, x)

/-- Run commands. Steps are taken by `take`, and `used` holds what was read before. -/
def runCommands (take : List Value → Step → StateT Session Option Report) :
    List Value → List Command → RunM (Except Interrupt Value)
  | _, [] => return .ok .undefined
  | used, .use e :: rest => do
    match ← value used e with
    | .error i => return .error i
    | .ok v => readThen used (← read true v) fun used => runCommands take used rest
  | used, .await e :: rest => do
    match ← value used e with
    | .error i => return .error i
    | .ok v => readThen used (← read false v) fun used => runCommands take used rest
  | used, .hint h :: rest => do
    modify fun (a, x) => (a.hint h, x)
    runCommands take used rest
  | _, .raise reason :: _ => return .error (.throw reason)
  | used, .step s :: rest => do
    let (a, x) ← get
    let (r, x) ← (take used s x : Option _)
    set (a, { x with store := x.store.note (.did r) })
    runCommands take used rest
  | used, .yield e :: _ => value used e

end Program

namespace Scenario

/-- Run the program of a lazy value, going at most `fuel` programs deep. -/
def force (programs : Array Program) : Nat → Force Host
  | 0, _, _, _, _ => none
  | fuel + 1, id, a, s, h =>
    match (h.thunks.lookup id).bind fun i => programs[i]? with
    | none => some (.ok .undefined, a, s, h)
    | some p =>
      let s := match p.label with
        | some label => s.note (.forced label)
        | none => s
      let take used step := StepM.report (StepM.take (force programs fuel) fuel used step)
      match Program.runCommands take [] p.commands (a, ⟨s, h⟩) with
      | none => none
      | some (result, a, x) => some (result, a, x.store, x.host)

/-- More than any run needs. -/
def ampleFuel : Nat := Nat.pow 2 62

/-- What a step reported and the events noted meanwhile. -/
structure StepRecord where
  result : Report
  events : List Event

/-- Take the events noted so far. -/
def takeEvents (x : Session) : List Event × Session :=
  (x.store.events.reverse, { x with store := { x.store with events := [] } })

/-- Take steps one after the other. -/
def runSteps (programs : Array Program) : List Step → Session → Option (List StepRecord)
  | [], _ => some []
  | step :: rest, x => do
    let (result, x) ← StepM.report (StepM.take (force programs ampleFuel) ampleFuel [] step) x
    let (events, x) := takeEvents x
    return ⟨result, events⟩ :: (← runSteps programs rest x)

/-- Run a scenario from its start. -/
def run (s : Scenario) : Option (List StepRecord) := runSteps s.programs s.steps {}

end Scenario

end GraphRows
