import GraphRows.Fault.Wording

/-!
# Kinds of binary data

Each kind has an element size and a letter that marks its rows.
-/

namespace GraphRows

/-- How the bytes of a binary value are meant. -/
inductive BinaryKind where
  | arrayBuffer | int8 | uint8 | uint8Clamped | int16 | uint16 | int32 | uint32 | float32 | float64
  | bigInt64 | bigUint64 | dataView
deriving DecidableEq, Inhabited

namespace BinaryKind

/-- All kinds. -/
def all : List BinaryKind :=
  [.arrayBuffer, .int8, .uint8, .uint8Clamped, .int16, .uint16, .int32, .uint32, .float32, .float64,
   .bigInt64, .bigUint64, .dataView]

/-- The bytes of one element. -/
def size : BinaryKind → Nat
  | .arrayBuffer | .int8 | .uint8 | .uint8Clamped | .dataView => 1
  | .int16 | .uint16 => 2
  | .int32 | .uint32 | .float32 => 4
  | .float64 | .bigInt64 | .bigUint64 => 8

/-- The letter of the kind. -/
def letter : BinaryKind → Char
  | .arrayBuffer => 'A'
  | .int8 => 'O'
  | .uint8 => 'o'
  | .uint8Clamped => 'U'
  | .int16 => 'S'
  | .uint16 => 's'
  | .int32 => 'L'
  | .uint32 => 'l'
  | .float32 => 'G'
  | .float64 => 'g'
  | .bigInt64 => 'M'
  | .bigUint64 => 'm'
  | .dataView => 'V'

/-- The name of the kind. -/
def name : BinaryKind → String
  | .arrayBuffer => "ArrayBuffer"
  | .int8 => "Int8"
  | .uint8 => "Uint8"
  | .uint8Clamped => "Uint8Clamped"
  | .int16 => "Int16"
  | .uint16 => "Uint16"
  | .int32 => "Int32"
  | .uint32 => "Uint32"
  | .float32 => "Float32"
  | .float64 => "Float64"
  | .bigInt64 => "BigInt64"
  | .bigUint64 => "BigUint64"
  | .dataView => "DataView"

/-- The kind with a letter. -/
def ofLetter? (c : Char) : Option BinaryKind := all.find? (·.letter == c)

/-- The byte that marks rows of the kind. -/
def tag (k : BinaryKind) : UInt8 := byte k.letter

/-- The kind marked by a byte. -/
def ofTag? (b : UInt8) : Option BinaryKind := ofLetter? (latin b)

/-- The kind marked by a byte, or the fault that there is none. -/
def ofTag (b : UInt8) : Except Fault BinaryKind :=
  match ofTag? b with
  | some k => .ok k
  | none => .error (.unknownBinaryTag (latin b))

theorem mem_all (k : BinaryKind) : k ∈ all := by cases k <;> decide

@[simp] theorem ofLetter?_letter (k : BinaryKind) : ofLetter? k.letter = some k := by
  cases k <;> rfl

@[simp] theorem ofTag?_tag (k : BinaryKind) : ofTag? k.tag = some k := by cases k <;> rfl

end BinaryKind

/-- Bytes together with what they mean. -/
structure Binary where
  kind : BinaryKind
  bytes : Bytes
deriving DecidableEq, Inhabited

namespace Binary

/-- Binary data of a kind; the bytes must be a whole number of elements. -/
def make (kind : BinaryKind) (bytes : Bytes) : Except Fault Binary :=
  if bytes.length % kind.size == 0 then .ok ⟨kind, bytes⟩
  else .error (.unevenLength bytes.length kind.name kind.size)

/-- The same bytes, meant differently. -/
def view (b : Binary) (kind : BinaryKind) : Except Fault Binary := make kind b.bytes

/-- The number of elements. -/
def count (b : Binary) : Nat := b.bytes.length / b.kind.size

/-- The value of bytes, the least significant first. -/
def littleEndian : Bytes → Nat
  | [] => 0
  | b :: rest => b.toNat + 256 * littleEndian rest

/-- A value in `n` bytes, the least significant first. -/
def toLittleEndian : Nat → Nat → Bytes
  | 0, _ => []
  | n + 1, v => UInt8.ofNat (v % 256) :: toLittleEndian n (v / 256)

/-- Cut into `count` groups of `size`. -/
def groups (size : Nat) : Nat → Bytes → List Bytes
  | 0, _ => []
  | n + 1, bs => bs.take size :: groups size n (bs.drop size)

/-- How the elements of a kind are shown. -/
inductive ElementStyle where
  | signed | unsigned | pattern

/-- Integers are shown as numbers and floats as their bits; kinds of one byte have no element
view. -/
def elementStyle? : BinaryKind → Option ElementStyle
  | .int16 | .int32 | .bigInt64 => some .signed
  | .uint16 | .uint32 | .bigUint64 => some .unsigned
  | .float32 | .float64 => some .pattern
  | _ => none

/-- One element as text. -/
def elementText (style : ElementStyle) (size : Nat) (bs : Bytes) : String :=
  let n := littleEndian bs
  match style with
  | .unsigned => toString n
  | .signed => toString (if n < Nat.pow 2 (8 * size - 1) then (n : Int) else (n : Int) -
    Nat.pow 2 (8 * size))
  | .pattern => Hex.padded (2 * size) n

/-- The elements as texts, for the kinds that have an element view. -/
def elements? (b : Binary) : Option (List String) :=
  (elementStyle? b.kind).map fun style => (groups b.kind.size b.count b.bytes).map
    (elementText style b.kind.size)

/-- An element from the text that shows it. -/
def elementOfText? (kind : BinaryKind) (s : String) : Option Bytes :=
  let size := kind.size
  match elementStyle? kind with
  | some .pattern => (Hex.value? s.toList).map (toLittleEndian size)
  | _ => s.toInt?.map fun n => toLittleEndian size (n.emod (Nat.pow 2 (8 * size))).toNat

/-- Binary data from the texts of its elements. -/
def ofElements? (kind : BinaryKind) (items : List String) : Option Binary :=
  (items.mapM (elementOfText? kind)).map fun groups => ⟨kind, groups.flatten⟩

/-- The data as an inspection shows it. -/
def inspect (b : Binary) : String :=
  "TypedArray \x7b kind: " ++ b.kind.name ++ ", bytes: " ++ Quoted.bytes b.bytes ++ " \x7d"

end Binary

end GraphRows
