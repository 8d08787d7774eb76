import GraphRows.Value.Basic

/-!
# What was written where

The encoder's memory of what it has given an id: values with an identity by how to refer to them,
symbols and client references by the row that holds them, server references apart from the rest. Ids
count up from zero. They go on for ever here; on the wire an id has 32 bits, so what is said about
rows that are read back asks for ids below `2 ^ 32`.

The type of references is left open; the table only stores them. A later entry for the same thing
hides the earlier one.
-/

namespace GraphRows

/-- The references handed out so far. -/
structure RefTable (ρ : Type) where
  values : List (CellId × ρ) := []
  symbols : List (String × Nat) := []
  clients : List (String × Nat) := []
  servers : List (CellId × ρ) := []
  /-- the number of ids handed out; nothing here stops at `2 ^ 32` -/
  nextId : Nat := 0
deriving Inhabited

namespace RefTable

variable {ρ : Type}

/-- A new id. -/
def fresh (t : RefTable ρ) : Nat × RefTable ρ := (t.nextId, { t with nextId := t.nextId + 1 })

/-- How to refer to a value. -/
def get? (t : RefTable ρ) (v : Value) : Option ρ := v.identity?.bind fun id => t.values.lookup id

/-- Remember how to refer to a value, if it has an identity. -/
def record (t : RefTable ρ) (v : Value) (r : ρ) : RefTable ρ :=
  match v.identity? with
  | some id => { t with values := (id, r) :: t.values }
  | none => t

/-- The row of a symbol. -/
def symbol? (t : RefTable ρ) (name : String) : Option Nat := t.symbols.lookup name

/-- Remember the row of a symbol. -/
def recordSymbol (t : RefTable ρ) (name : String) (id : Nat) : RefTable ρ :=
  { t with symbols := (name, id) :: t.symbols }

/-- The row of a client reference, by its key. -/
def client? (t : RefTable ρ) (key : String) : Option Nat := t.clients.lookup key

/-- Remember the row of a client reference. -/
def recordClient (t : RefTable ρ) (key : String) (id : Nat) : RefTable ρ :=
  { t with clients := (key, id) :: t.clients }

/-- How to refer to a server reference. -/
def server? (t : RefTable ρ) (v : Value) : Option ρ :=
  v.identity?.bind fun id => t.servers.lookup id

/-- Remember how to refer to a server reference. -/
def recordServer (t : RefTable ρ) (v : Value) (r : ρ) : RefTable ρ :=
  match v.identity? with
  | some id => { t with servers := (id, r) :: t.servers }
  | none => t

theorem get?_record_self (t : RefTable ρ) (id : CellId) (r : ρ) :
    (t.record (.cell id) r).get? (.cell id) = some r := by
  simp [record, get?, Value.identity?]

theorem get?_record_ne (t : RefTable ρ) {id other : CellId} (r : ρ) (h : other ≠ id) :
    (t.record (.cell id) r).get? (.cell other) = t.get? (.cell other) := by
  have : (other == id) = false := by simpa using h
  simp [record, get?, Value.identity?, List.lookup_cons, this]

end RefTable

/-- The key by which a client reference is recognised. -/
def clientKey (id : String) (isAsync : Bool) : String := if isAsync then id ++ "#async" else id

end GraphRows
