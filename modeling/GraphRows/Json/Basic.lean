import GraphRows.Number.Double

/-!
# JSON values

Objects keep the order of their fields. A number is an integer when it was written as one and fits
64 bits, and a double otherwise.
-/

namespace GraphRows

/-- A JSON value. -/
inductive Json where
  | null
  | bool (b : Bool)
  | int (n : Int)
  | float (x : Double)
  | str (s : String)
  | arr (items : List Json)
  | obj (fields : List (String × Json))
deriving Inhabited

namespace Json

/-- The integers that are kept as integers. -/
def fitsInt (n : Int) : Bool := -(Int.pow 2 63) ≤ n && n < Int.pow 2 64

/-- The text of a string. -/
def str? : Json → Option String
  | .str s => some s
  | _ => none

/-- The items of an array. -/
def arr? : Json → Option (List Json)
  | .arr items => some items
  | _ => none

/-- The fields of an object. -/
def obj? : Json → Option (List (String × Json))
  | .obj fields => some fields
  | _ => none

/-- A field of an object. -/
def field? (key : String) : Json → Option Json
  | .obj fields => fields.lookup key
  | _ => none

/-- Set a field: an old one keeps its place, a new one goes to the end. -/
def setField {α : Type} (key : String) (value : α) : List (String × α) → List (String × α)
  | [] => [(key, value)]
  | (k, v) :: rest => if k == key then (k, value) :: rest else (k, v) :: setField key value rest

/-- Every field once, at its first place and with its last value. -/
def mergeFields {α : Type} (fields : List (String × α)) : List (String × α) :=
  fields.foldl (fun acc (k, v) => setField k v acc) []

theorem lookup_setField_self {α : Type} (key : String) (value : α) (fields : List (String × α)) :
    (setField key value fields).lookup key = some value := by
  induction fields with
  | nil => simp [setField]
  | cons field rest ih =>
    obtain ⟨k, v⟩ := field
    by_cases h : k = key
    · subst h
      simp [setField]
    · have hb : (key == k) = false := beq_false_of_ne (Ne.symm h)
      simp [setField, h, List.lookup_cons, hb, ih]

theorem lookup_setField_ne {α : Type} {key other : String} (value : α) (fields : List (String × α))
    (h : other ≠ key) : (setField key value fields).lookup other = fields.lookup other := by
  have hb : (other == key) = false := beq_false_of_ne h
  induction fields with
  | nil => simp [setField, List.lookup_cons, hb]
  | cons field rest ih =>
    obtain ⟨k, v⟩ := field
    by_cases hk : k = key
    · subst hk
      simp [setField, List.lookup_cons, hb]
    · by_cases ho : other = k
      · subst ho
        simp [setField, hk]
      · have hb' : (other == k) = false := beq_false_of_ne ho
        simp [setField, hk, List.lookup_cons, hb', ih]

mutual

/-- Every object of the value with its repeated keys merged. -/
def merge : Json → Json
  | .arr items => .arr (mergeList items)
  | .obj fields => .obj (mergeFields (mergePairs fields))
  | j => j

/-- Merge the keys in every value of a list. -/
def mergeList : List Json → List Json
  | [] => []
  | j :: rest => merge j :: mergeList rest

/-- Merge the keys below every field. -/
def mergePairs : List (String × Json) → List (String × Json)
  | [] => []
  | (k, j) :: rest => (k, merge j) :: mergePairs rest

end

mutual

/-- Equality of values. The order of an object's fields does not count. -/
def same : Json → Json → Bool
  | .null, .null => true
  | .bool a, .bool b => a == b
  | .int a, .int b => a == b
  | .float a, .float b => (a == b && !a.isNaN) || (a.isZero && b.isZero)
  | .str a, .str b => a == b
  | .arr as, .arr bs => sameList as bs
  | .obj as, .obj bs => as.length == bs.length && sameFields as bs
  | _, _ => false

/-- Compare two lists item by item. -/
def sameList : List Json → List Json → Bool
  | [], [] => true
  | a :: as, b :: bs => same a b && sameList as bs
  | _, _ => false

/-- Whether every field is among the others with an equal value. -/
def sameFields : List (String × Json) → List (String × Json) → Bool
  | [], _ => true
  | (k, a) :: as, bs =>
    (match bs.lookup k with
      | some b => same a b
      | none => false) && sameFields as bs

end

end Json

end GraphRows
