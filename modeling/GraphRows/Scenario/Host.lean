import GraphRows.Reference.LazyMap
import GraphRows.Scenario.Syntax

/-!
# The host of a scenario

What a scenario has made besides the shared store, by name: encoders, decoders, outlets, intakes,
sinks and the rest, and which program each lazy value runs. A later thing with the same name hides
the earlier one.

Encoders, decoders, outlets and intakes are taken out while they are at work, and meanwhile a
program may give their name to something else. So they have places, and come back to their own.
-/

namespace GraphRows

/-- A module of the receiving side. An export is one reference, however often it is asked for. -/
structure Proxy where
  path : String
  isAsync : Bool
  exports : LazyMap Value := {}
deriving Inhabited

/-- Things in places, with names for the places. A place is empty while its thing is taken out. -/
structure Shelf (α : Type) where
  places : Array (Option α) := #[]
  names : List (String × Nat) := []
deriving Inhabited

namespace Shelf

variable {α : Type}

/-- Give a thing a new place and a name. -/
def add (s : Shelf α) (name : String) (a : α) : Shelf α :=
  { places := s.places.push (some a), names := (name, s.places.size) :: s.names }

/-- The place with a name and what is in it. -/
def find? (s : Shelf α) (name : String) : Option (Nat × α) := do
  let i ← s.names.lookup name
  let a ← s.places[i]?.join
  return (i, a)

/-- Empty a place. -/
def clear (s : Shelf α) (i : Nat) : Shelf α := { s with places := s.places.setIfInBounds i none }

/-- Put a thing into a place. -/
def put (s : Shelf α) (i : Nat) (a : α) : Shelf α :=
  { s with places := s.places.setIfInBounds i (some a) }

theorem find?_add_self (s : Shelf α) (name : String) (a : α) :
    (s.add name a).find? name = some (s.places.size, a) := by
  simp [add, find?]

/-- Bringing a thing back leaves a namesake in another place alone. -/
theorem find?_put_ne (s : Shelf α) {name : String} {i j : Nat} {a b : α}
    (h : s.find? name = some (j, b)) (hij : i ≠ j) : (s.put i a).find? name = some (j, b) := by
  obtain ⟨k, hk, h⟩ := Option.bind_eq_some_iff.1 h
  obtain ⟨c, hc, h⟩ := Option.bind_eq_some_iff.1 h
  obtain ⟨rfl, rfl⟩ := Prod.mk.inj (Option.some.inj h)
  simp [find?, put, hk, Array.getElem?_setIfInBounds_ne hij, hc]

end Shelf

/-- The things of a scenario. -/
structure Host where
  /-- the program of each lazy value -/
  thunks : List (CellId × Nat) := []
  encoders : Shelf Encoder := {}
  decoders : Shelf Decoder := {}
  outlets : Shelf Outlet := {}
  intakes : Shelf Intake := {}
  sinks : List (String × Nat) := []
  bells : List (String × Nat) := []
  slots : List (String × Nat) := []
  leases : List (String × Nat) := []
  proxies : List (String × Proxy) := []
  temporaries : List (String × Nat) := []
  tables : List (String × RefTable String) := []
deriving Inhabited

/-- A running scenario. -/
structure Session where
  store : Store := {}
  host : Host := {}
deriving Inhabited

/-- Names without one of them. -/
def without {α : Type} (name : String) (things : List (String × α)) : List (String × α) :=
  things.filter (·.1 != name)

namespace Session

/-- Change the store. -/
def onStore {α : Type} (x : Session) (f : Store → α × Store) : α × Session :=
  let (a, store) := f x.store
  (a, { x with store })

/-- The bell with a name, made on first use. -/
def bell (x : Session) (name : String) : Nat × Session :=
  match x.host.bells.lookup name with
  | some b => (b, x)
  | none =>
    let (b, x) := x.onStore Store.newBell
    (b, { x with host := { x.host with bells := (name, b) :: x.host.bells } })

/-- The sink with a name. -/
def sink (x : Session) (name : String) : Nat := (x.host.sinks.lookup name).getD x.store.sinks.size

/-- The set of temporary references with a name. -/
def temporarySet (x : Session) (name : String) : Nat :=
  (x.host.temporaries.lookup name).getD x.store.temporaries.size

/-- The cell a variable names. -/
def cell? (x : Session) (name : String) : Option CellId :=
  (x.store.named? name).bind Value.identity?

end Session

end GraphRows
