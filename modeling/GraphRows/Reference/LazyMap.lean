import GraphRows.Text.Quoted

/-!
# Maps filled on demand

A value is made the first time its key is asked for and kept from then on, so asking twice gives the
same value and makes it once.
-/

namespace GraphRows

/-- The values made so far, the oldest first. -/
structure LazyMap (α : Type) where
  entries : List (String × α) := []
deriving Inhabited

namespace LazyMap

variable {α : Type}

/-- The value of a key, if it was made. -/
def find? (m : LazyMap α) (key : String) : Option α := m.entries.lookup key

/-- How many values were made. -/
def size (m : LazyMap α) : Nat := m.entries.length

/-- Whether no value was made. -/
def isEmpty (m : LazyMap α) : Bool := m.entries.isEmpty

/-- The value of a key, made if need be. -/
def get {n : Type → Type} [Monad n] (m : LazyMap α) (key : String) (make : n α) :
    n (α × LazyMap α) :=
  match m.find? key with
  | some a => return (a, m)
  | none => do
    let a ← make
    return (a, ⟨m.entries ++ [(key, a)]⟩)

/-- The map as an inspection shows it. -/
def inspect (m : LazyMap α) : String :=
  "LazyMap \x7b materialized: [" ++ ", ".intercalate (m.entries.map fun e => Quoted.text e.1) ++
    "] \x7d"

end LazyMap

end GraphRows
