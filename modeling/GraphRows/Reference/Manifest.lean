import GraphRows.Fault.Wording
import GraphRows.Json.Pass

/-!
# Modules of the receiving side

A manifest maps module paths to what has to be loaded for them. A reference `path#name` that has no
entry of its own falls back on the entry of `path`, split at the last `#`, and asks it for `name`.

`Import` is what an import row carries.
-/

namespace GraphRows

/-- An entry of a manifest. -/
structure ModuleEntry where
  id : String
  chunks : List String := []
  name : String
  isAsync : Bool := false
deriving DecidableEq, Inhabited

/-- What has to be loaded to have one export of a module. -/
structure Import where
  id : String
  chunks : List String
  name : String
  isAsync : Bool
deriving DecidableEq, Inhabited

namespace Import

/-- The payload of the import row. -/
def toJson (m : Import) : Json :=
  .arr ([.str m.id, .arr (m.chunks.map Json.str), .str m.name] ++
    (if m.isAsync then [.int 1] else []))

/-- Whether a part is there and is the integer one. -/
def isOne : Option Json → Bool
  | some (.int n) => n == 1
  | _ => false

/-- The import a payload describes. -/
def ofJson (j : Json) : Except Fault Import :=
  let found : Option Import := do
    let row ← j.arr?
    let id ← row[0]?.bind Json.str?
    let chunks ← row[1]?.bind Json.arr?
    let chunks ← chunks.mapM Json.str?
    let name ← row[2]?.bind Json.str?
    return ⟨id, chunks, name, isOne row[3]?⟩
  match found with
  | some m => .ok m
  | none => .error (.badImport j)

end Import

/-- A map from module paths to entries. -/
structure Manifest where
  entries : List (String × ModuleEntry) := []
deriving Inhabited

namespace Manifest

/-- Add an entry; an entry with the same path is replaced. -/
def insert (m : Manifest) (path : String) (entry : ModuleEntry) : Manifest :=
  ⟨Json.setField path entry m.entries⟩

/-- The parts of a path before and after its last `#`. -/
def splitExport? (path : String) : Option (String × String) :=
  let tail := path.toList.reverse.takeWhile (· != '#')
  match path.toList.reverse.dropWhile (· != '#') with
  | [] => none
  | _ :: front => some (String.ofList front.reverse, String.ofList tail.reverse)

/-- The entry of a path and the export to ask it for. -/
def find? (m : Manifest) (path : String) : Option (ModuleEntry × String) :=
  match m.entries.lookup path with
  | some entry => some (entry, entry.name)
  | none => do
    let (modulePath, name) ← splitExport? path
    let entry ← m.entries.lookup modulePath
    return (entry, name)

/-- What has to be loaded for a reference. -/
def resolve (m : Manifest) (path : String) (isAsync : Bool) : Except Fault Import :=
  match m.find? path with
  | some (entry, name) => .ok ⟨entry.id, entry.chunks, name, isAsync⟩
  | none => .error (.unknownModule path)

/-! ## Reading

An entry is an object, in which a field may not be repeated and unknown fields are passed over, or
the array of its fields in order. -/

/-- The values of a field, one for each time it is given. -/
def valuesOf (key : String) (fields : List (String × Json)) : List Json :=
  (fields.filter (·.1 == key)).map (·.2)

/-- A field given at most once. -/
def field {α : Type} (read : Json → Option α) (default : Option α) (key : String)
    (fields : List (String × Json)) : Option α :=
  match valuesOf key fields with
  | [] => default
  | [j] => read j
  | _ => none

/-- A list of texts. -/
def texts? (j : Json) : Option (List String) := j.arr?.bind (·.mapM Json.str?)

/-- A truth value. -/
def flag? : Json → Option Bool
  | .bool b => some b
  | _ => none

/-- The entry a value describes. -/
def ofEntryJson? : Json → Option ModuleEntry
  | .obj fields => do
    let id ← field Json.str? none "id" fields
    let chunks ← field texts? (some []) "chunks" fields
    let name ← field Json.str? none "name" fields
    let isAsync ← field flag? (some false) "async" fields
    return ⟨id, chunks, name, isAsync⟩
  | .arr [id, chunks, name] => do
    return ⟨← id.str?, ← texts? chunks, ← name.str?, false⟩
  | .arr [id, chunks, name, isAsync] => do
    return ⟨← id.str?, ← texts? chunks, ← name.str?, ← flag? isAsync⟩
  | _ => none

/-- The fields an entry has. -/
def fieldNames : List String := ["id", "chunks", "name", "async"]

/-- The value of a field, if the field is one an entry has. -/
def fieldValue (fuel : Nat) (key : String) (cs : List Char) :
    Except Json.ReadError (Option Json × List Char) :=
  if fieldNames.contains key then do
    let (j, rest) ← Json.value fuel Json.depthLimit cs
    return (some j, rest)
  else do return (none, ← Json.pass fuel cs)

/-- An entry, of an object only the fields an entry has. -/
def entryJson (fuel : Nat) (cs : List Char) : Except Json.ReadError (Json × List Char) :=
  match Json.skip cs with
  | '\x7b' :: _ => do
    let (fields, rest) ← Json.objectWith (fieldValue fuel) fuel cs
    return (.obj (fields.filterMap fun (key, j?) => j?.map (key, ·)), rest)
  | _ => Json.value fuel Json.depthLimit cs

/-- The entries a text holds by path, as they are written. -/
def entriesJson (s : String) : Except Json.ReadError (List (String × Json)) := do
  let cs := s.toList
  let fuel := cs.length + 1
  let (entries, rest) ← Json.objectWith (fun _ => entryJson fuel) fuel cs
  match Json.skip rest with
  | [] => return entries
  | rest => Json.refuse rest

/-- The manifest a text describes. -/
def read (s : String) : Except Fault Manifest :=
  match entriesJson s with
  | .error e => .error (.badJson e)
  | .ok fields =>
    match fields.mapM fun (k, j) => (ofEntryJson? j).map (k, ·) with
    | some entries => .ok ⟨Json.mergeFields entries⟩
    | none => .error (.badJson .badShape)

end Manifest

end GraphRows
