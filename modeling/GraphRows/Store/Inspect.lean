import GraphRows.Store.Basic

/-!
# Inspecting values

A value as one line of text, for messages and for people. Strings are quoted, collections are named,
and of streams and lazy values only the state is shown. On graphs without cycles the number of cells
bounds the depth, and that bound is the fuel.
-/

namespace GraphRows.Store

/-- Texts between brackets, divided by commas. -/
def bracketed (left right : String) (items : List String) : String :=
  left ++ ", ".intercalate items ++ right

/-- Keys and texts between braces. -/
def braced (entries : List (String × String)) : String :=
  bracketed "\x7b" "\x7d" (entries.map fun (k, v) => k ++ ": " ++ v)

/-- A truth value as text. -/
def flagText (b : Bool) : String := if b then "true" else "false"

/-- A scalar as text. -/
def inspectScalar : Value → String
  | .undefined => "undefined"
  | .null => "null"
  | .bool b => flagText b
  | .number x => x.text
  | .string t => Quoted.text t
  | .bigint n => toString n ++ "n"
  | .date t => "Date(" ++ t.formatFull ++ ")"
  | .symbol name => "Symbol.for(" ++ Quoted.text name ++ ")"
  | .cell _ => "undefined"

/-- A value as text, going down at most `fuel` cells. -/
def inspectWith (s : Store) : Nat → Value → String
  | 0, _ => ""
  | fuel + 1, v =>
    match v with
    | .cell id =>
      match s.cell? id with
      | none => "undefined"
      | some (.array items) => bracketed "[" "]" (items.map (inspectWith s fuel))
      | some (.set items) => "Set " ++ bracketed "\x7b" "\x7d" (items.map (inspectWith s fuel))
      | some (.object fields) => braced (fields.map fun (k, v) =>
        (Quoted.text k, inspectWith s fuel v))
      | some (.form entries) =>
        "FormData " ++ braced (entries.map fun (k, v) => (Quoted.text k, inspectWith s fuel v))
      | some (.map entries) =>
        "Map " ++ braced (entries.map fun (k, v) => (inspectWith s fuel k, inspectWith s fuel v))
      | some (.binary data) => data.inspect
      | some (.blob mime bytes) =>
        "Blob \x7b type: " ++ Quoted.text mime ++ ", size: " ++ toString bytes.length ++ " \x7d"
      | some (.promise ⟨none, _, _⟩) => "Thenable(<pending>)"
      | some (.promise ⟨some (.ok v), _, _⟩) => "Thenable(" ++ inspectWith s fuel v ++ ")"
      | some (.promise ⟨some (.error r), _, _⟩) => "Thenable(" ++ r.inspect ++ ")"
      | some (.stream st) =>
        "AsyncStream \x7b kind: " ++ st.kind.name ++ ", buffered: " ++ toString st.buffer.length ++
          ", finished: " ++ flagText st.finished ++ " \x7d"
      | some .lazy => "Lazy(..)"
      | some (.client id isAsync) =>
        "ClientReference \x7b id: " ++ Quoted.text id ++ ", is_async: " ++
          flagText isAsync ++ " \x7d"
      | some (.server id none) =>
        "ServerReference \x7b id: " ++ Quoted.text id ++ ", bound: None \x7d"
      | some (.server id (some v)) =>
        "ServerReference \x7b id: " ++ Quoted.text id ++ ", bound: Some(" ++ inspectWith s
          fuel v ++ ") \x7d"
      | some (.temporary id) => "TemporaryReference(" ++ Quoted.text id ++ ")"
    | v => inspectScalar v

/-- A value as text. -/
def inspect (s : Store) (v : Value) : String := inspectWith s (s.cells.size + 1) v

end GraphRows.Store
