import GraphRows.Store.Basic

/-!
# Equality of values

Containers, binary data, blobs and references are equal when their contents are; promises, streams,
lazy values and temporary references only when they are the same thing. Fields of objects are
compared in their order. Cells that are the same thing are equal without being looked into.

Comparing goes down one cell at a time. On graphs without cycles the number of cells bounds the
depth, and that bound is the fuel.
-/

namespace GraphRows.Store

/-- Compare two lists item by item. -/
def allEqual {α β : Type} (eq : α → β → Bool) : List α → List β → Bool
  | [], [] => true
  | a :: as, b :: bs => eq a b && allEqual eq as bs
  | _, _ => false

/-- Compare two values, going down at most `fuel` cells. -/
def equalWith (s : Store) : Nat → Value → Value → Bool
  | 0, _, _ => false
  | fuel + 1, a, b =>
    match a, b with
    | .number x, .number y => x.sameValue y
    | .cell i, .cell j =>
      let below := equalWith s fuel
      match s.cell? i, s.cell? j with
      | some (.array x), some (.array y) | some (.set x), some (.set y) =>
        i == j || allEqual below x y
      | some (.object x), some (.object y) | some (.form x), some (.form y) =>
        i == j || allEqual (fun (k, v) (l, w) => k == l && below v w) x y
      | some (.map x), some (.map y) => i == j || allEqual (fun (k, v) (l, w) =>
        below k l && below v w) x y
      | some (.binary x), some (.binary y) => x == y
      | some (.blob m x), some (.blob n y) => m == n && x == y
      | some (.client m x), some (.client n y) => m == n && x == y
      | some (.server m x), some (.server n y) =>
        i == j || (m == n && match x, y with
          | none, none => true
          | some v, some w => below v w
          | _, _ => false)
      | _, _ => i == j
    | a, b => a == b

/-- Whether two values are equal. -/
def equal (s : Store) (a b : Value) : Bool := equalWith s (s.cells.size + 1) a b

end GraphRows.Store
