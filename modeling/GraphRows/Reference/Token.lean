import GraphRows.Fault.Wording
import GraphRows.Binary.Kind
import GraphRows.Time.Instant

/-!
# Strings with a meaning

Inside a payload a string that starts with `$` is not text. It names another row, a promise, a
collection kept in another row, or a value JSON has no notation for. A text that starts with `$` is
written with one more. `Token` is what a string may mean; `render` writes it and `parse` reads it.

The markers after the `$` are told apart by their first character, before any hexadecimal id is
looked at. No marker is a lowercase hexadecimal digit, so a plain reference is never mistaken for
anything else.
-/

namespace GraphRows

/-- The collections and references that are kept in a row of their own. -/
inductive Derived where
  | map | set | form | blob | server
deriving DecidableEq, Inhabited

namespace Derived

/-- The marker of the kind. -/
def marker : Derived → Char
  | .map => 'Q'
  | .set => 'W'
  | .form => 'K'
  | .blob => 'B'
  | .server => 'F'

/-- The name of the kind. -/
def name : Derived → String
  | .map => "Map"
  | .set => "Set"
  | .form => "FormData"
  | .blob => "Blob"
  | .server => "ServerReference"

/-- The kind with a marker. -/
def ofMarker? (c : Char) : Option Derived := [map, set, form, blob, server].find? (·.marker == c)

@[simp] theorem ofMarker?_marker (d : Derived) : ofMarker? d.marker = some d := by cases d <;> rfl

end Derived

/-- A place in a row: the row's id and the keys that lead from its value to the place. -/
structure Reference where
  row : Nat
  path : List String := []
deriving DecidableEq, Inhabited

/-- What a string of a payload means. -/
inductive Token where
  | text (s : String)
  | undefined
  | number (x : Double)
  | row (r : Reference)
  | promise (id : Nat)
  | derived (kind : Derived) (id : Nat)
  | binary (kind : BinaryKind) (id : Nat)
  | symbol (name : String)
  | temporary (id : String)
  | date (t : Instant)
  | bigint (n : Int)
deriving DecidableEq, Inhabited

namespace Token

/-- A text, told apart from a token by one more `$`. -/
def escape (s : String) : String := if s.toList.head? == some '$' then "$" ++ s else s

/-- A reference to a row or a place in it. -/
def renderReference (r : Reference) : String :=
  "$" ++ Hex.text r.row ++ String.join (r.path.map (":" ++ ·))

/-- A marker with an id behind it. -/
def renderMarked (marker : Char) (id : Nat) : String := String.ofList ['$', marker] ++ Hex.text id

/-- The numbers that have no JSON notation of their own. -/
def renderNumber (x : Double) : String :=
  if x.isNaN then "$NaN"
  else if x.isInfinite then (if x.isNegative then "$-Infinity" else "$Infinity")
  else "$-0"

/-- The string of a token. -/
def render : Token → String
  | .text s => escape s
  | .undefined => "$undefined"
  | .number x => renderNumber x
  | .row r => renderReference r
  | .promise id => renderMarked '@' id
  | .derived kind id => renderMarked kind.marker id
  | .binary kind id => renderMarked kind.letter id
  | .symbol name => "$S" ++ name
  | .temporary id => "$T" ++ id
  | .date t => "$D" ++ t.format
  | .bigint n => "$n" ++ toString n

/-- A reference id. -/
def readId (cs : List Char) : Except Fault Nat :=
  match Hex.read? (Nat.pow 2 32) cs with
  | some id => .ok id
  | none => .error (.badReferenceId (String.ofList cs))

/-- The pieces of a text between colons. -/
def splitColons (cs : List Char) : List (List Char) := cs.splitOn ':'

/-- A reference to a row or a place in it. -/
def readReference (cs : List Char) : Except Fault Token :=
  match splitColons cs with
  | [] => .error (.badReferenceId "")
  | id :: path => (readId id).map fun id => .row ⟨id, path.map String.ofList⟩

/-- The kind of binary data asked for by a marker before a hexadecimal id. -/
def binaryMarker? (marker : Char) (body : List Char) : Option BinaryKind :=
  if marker == 'S' || body.isEmpty || !body.all (fun c => (Hex.digit? c).isSome) then none
  else BinaryKind.ofLetter? marker

/-- A token after its marker. -/
def readMarked (marker : Char) (body : List Char) : Except Fault Token :=
  let text := String.ofList body
  match marker with
  | '$' => .ok (.text (String.ofList ('$' :: body)))
  | '@' => (readId body).map .promise
  | 'S' => .ok (.symbol text)
  | 'T' => .ok (.temporary text)
  | 'D' =>
    match Instant.parse? text with
    | some t => .ok (.date t)
    | none => .error (.badDate text)
  | 'n' =>
    match Integer.read? text with
    | some n => .ok (.bigint n)
    | none => .error (.badInteger text)
  | c =>
    match Derived.ofMarker? c, binaryMarker? c body with
    | some kind, _ => (readId body).map (.derived kind)
    | none, some kind => (readId body).map (.binary kind)
    | none, none => readReference (c :: body)

/-- The words that stand for one value each. -/
def words : List (String × Token) :=
  [("$undefined", .undefined), ("$NaN", .number .nan), ("$Infinity", .number .infinity),
   ("$-Infinity", .number .negInfinity), ("$-0", .number .negZero)]

/-- What a string means. -/
def parse (s : String) : Except Fault Token :=
  match s.toList with
  | '$' :: rest =>
    match words.lookup s, rest with
    | some t, _ => .ok t
    | none, [] => .ok (.text s)
    | none, marker :: body => readMarked marker body
  | _ => .ok (.text s)

end Token

namespace Json

/-- A number of a payload: an integer when it is one exactly, a word when JSON has no notation for
it. -/
def ofNumber (x : Double) : Json :=
  match x.safeInt? with
  | some n => .int n
  | none => if x.isFinite && !x.isZero then .float x else .str (Token.render (.number x))

end Json

end GraphRows
