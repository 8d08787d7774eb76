import GraphRows.Scenario.Host

/-!
# Building values

Expressions are evaluated from left to right, parts in their order. A container is there before its
parts and takes each part as it is built, so a part may refer to the container and to the parts
before it. Building fails only on binary data whose bytes are no whole number of elements.
-/

namespace GraphRows

/-- Building, which may fail. -/
abbrev BuildM := ExceptT Fault (StateM Session)

namespace BuildM

/-- A new cell. -/
def make (c : Cell) : BuildM Value := fun x =>
  let (v, x) := x.onStore (·.make c)
  (.ok v, x)

/-- The store. -/
def store : BuildM Store := do return (← get).store

/-- Change the store. -/
def modifyStore (f : Store → Store) : BuildM Unit := modify fun x => { x with store := f x.store }

/-- Give a name to a value, if there is a name. -/
def bind (name : Option String) (v : Value) : BuildM Unit :=
  match name with
  | some n => modifyStore (·.bind n v)
  | none => pure ()

/-- A value, named if there is a name. -/
def keep (name : Option String) (v : Value) : BuildM Value := do
  bind name v
  return v

/-- A new value, named if there is a name. -/
def makeNamed (name : Option String) (c : Cell) : BuildM Value := do
  keep name (← make c)

/-- Change the content of the cell a value names. -/
def modifyCell (v : Value) (f : Cell → Cell) : BuildM Unit := modifyStore (·.modifyCell v f)

/-- Wrap a value `depth` times. -/
def wrap (key : Option String) : Nat → Value → BuildM Value
  | 0, v => return v
  | depth + 1, v => do
    let v ← make (match key with
      | some k => .object [(k, v)]
      | none => .array [v])
    wrap key depth v

/-- Do something several times. -/
def times (build : BuildM Value) : Nat → BuildM (List Value)
  | 0 => return []
  | n + 1 => do
    let v ← build
    return v :: (← times build n)

/-- Follow a path from a value. -/
def follow (s : Store) : Value → List Key → Value
  | v, [] => v
  | v, .field name :: rest => follow s ((s.field? v name).getD .undefined) rest
  | v, .index i :: rest => follow s ((s.item? v i).getD .undefined) rest

/-- Push an event into a new stream. -/
def pushEvent (v : Value) (e : StreamEvent) : BuildM Unit :=
  match v with
  | .cell id => modifyStore fun s => (s.push id e).2
  | _ => pure ()

/-- An export of a module proxy. -/
def exported (proxy name : String) : BuildM Value := do
  match (← get).host.proxies.lookup proxy with
  | none => return .undefined
  | some p =>
    let (v, exports) ← p.exports.get name (make (.client (p.path ++ "#" ++ name) p.isAsync))
    modify fun x => { x with host := { x.host with
      proxies := (proxy, { p with exports }) :: without proxy x.host.proxies } }
    return v

/-- A module proxy as a whole. -/
def exporter (proxy : String) : BuildM Value := do
  match (← get).host.proxies.lookup proxy with
  | none => return .undefined
  | some p => make (.client p.path p.isAsync)

/-- A lazy value that runs a program. -/
def lazy (program : Nat) : BuildM Value := do
  let v ← make .lazy
  match v with
  | .cell id =>
    modify fun x => { x with host := { x.host with thunks := (id, program) :: x.host.thunks } }
  | _ => pure ()
  return v

mutual

/-- Build a value, and name it if there is a name. `used` holds what the running program has
read. -/
def build (used : List Value) (name : Option String) : Expr → BuildM Value
  | .named n e => do
    keep name (← build used (some n) e)
  | .array items => do
    let v ← makeNamed name (.array [])
    buildEach used (fun x => modifyCell v (·.addItem x)) items
    return v
  | .set items => do
    let v ← makeNamed name (.set [])
    buildEach used (fun x => modifyCell v (·.addItem x)) items
    return v
  | .object fields => do
    let v ← makeNamed name (.object [])
    buildFields used (fun k x => modifyCell v (·.addField k x)) fields
    return v
  | .form entries => do
    let v ← makeNamed name (.form [])
    buildFields used (fun k x => modifyCell v (·.addField k x)) entries
    return v
  | .map entries => do
    let v ← makeNamed name (.map [])
    buildPairs used (fun k x => modifyCell v (·.addEntry k x)) entries
    return v
  | .scalar v => keep name v
  | .nest depth key e => do keep name (← wrap key depth (← build used none e))
  | .copies n e => do makeNamed name (.array (← times (build used none e) n))
  | .range first last =>
    makeNamed name (.array ((List.range (last - first).toNat).map fun (i : Nat) =>
      .number (.ofInt (first + i))))
  | .binary kind bytes => do makeNamed name (.binary (← Binary.make kind bytes))
  | .blob mime bytes => makeNamed name (.blob mime bytes)
  | .pending => makeNamed name (.promise {})
  | .fulfilled e => do
    let v ← build used none e
    makeNamed name (.promise { outcome := some (.ok v) })
  | .rejected reason => makeNamed name (.promise { outcome := some (.error reason) })
  | .stream kind items closed returned error => do
    let v ← make (.stream { kind })
    buildEach used (fun x => pushEvent v (.item x)) items
    if closed then pushEvent v (.close none)
    buildReturned used v returned
    match error with
    | some r => pushEvent v (.error r)
    | none => pure ()
    keep name v
  | .lazy program => do keep name (← lazy program)
  | .used i => keep name ((used[i]?).getD .undefined)
  | .client id isAsync => makeNamed name (.client id isAsync)
  | .server id => makeNamed name (.server id none)
  | .serverBound id arguments => do
    let bound ← make (.array [])
    buildEach used (fun x => modifyCell bound (·.addItem x)) arguments
    makeNamed name (.server id (some bound))
  | .temporary set id => do
    let x ← get
    let (v, s) := x.store.resolveTemporary (x.temporarySet set) id
    modifyStore fun _ => s
    keep name v
  | .exported proxy exportName => do keep name (← exported proxy exportName)
  | .exporter proxy => do keep name (← exporter proxy)
  | .json j => do
    let (v, s) := (← store).ofJson j
    modifyStore fun _ => s
    keep name v
  | .lookup variableName path => do
    let s ← store
    keep name (follow s ((s.named? variableName).getD .undefined) path)

/-- Build values and hand each on before the next is built. -/
def buildEach (used : List Value) (take : Value → BuildM Unit) : List Expr → BuildM Unit
  | [] => return ()
  | e :: rest => do
    take (← build used none e)
    buildEach used take rest

/-- Build values under their keys. -/
def buildFields (used : List Value) (take : String → Value → BuildM Unit) : List (String × Expr) →
    BuildM Unit
  | [] => return ()
  | (k, e) :: rest => do
    take k (← build used none e)
    buildFields used take rest

/-- Build keys and values, each key before its value. -/
def buildPairs (used : List Value) (take : Value → Value → BuildM Unit) : List (Expr × Expr) →
    BuildM Unit
  | [] => return ()
  | (k, e) :: rest => do
    let k ← build used none k
    take k (← build used none e)
    buildPairs used take rest

/-- Close a new stream with a value. -/
def buildReturned (used : List Value) (stream : Value) : Option Expr → BuildM Unit
  | none => return ()
  | some e => do pushEvent stream (.close (some (← build used none e)))

end

end BuildM

namespace Session

/-- Build a value. -/
def build (x : Session) (used : List Value) (e : Expr) : Except Fault Value × Session :=
  BuildM.build used none e x

end Session

end GraphRows
