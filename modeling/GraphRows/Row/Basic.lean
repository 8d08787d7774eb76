import GraphRows.Row.Tag

/-!
# Rows

A row is an id and a body. Bodies come in two framings: a line of text that ends at a newline, with
or without a tag, and counted bytes behind a tag and their length. `Frame` is the framing alone;
`Row` is what the encoder queues, with its JSON still a value, so that one can ask what a row says
without parsing it.
-/

namespace GraphRows

/-- The newline that ends a line. -/
def newline : UInt8 := byte '\n'

/-- A framed row. -/
inductive Frame where
  | line (id : Nat) (tag : Option UInt8) (text : Bytes)
  | counted (id : Nat) (tag : UInt8) (payload : Bytes)
deriving DecidableEq, Inhabited

namespace Frame

/-- The id and the colon. -/
def header (id : Nat) : Bytes := utf8 (Hex.text id) ++ [byte ':']

/-- The bytes of a framed row. -/
def encode : Frame → Bytes
  | .line id tag text => header id ++ tag.toList ++ text ++ [newline]
  | .counted id tag payload =>
    header id ++ tag :: utf8 (Hex.text payload.length) ++ byte ',' :: payload

end Frame

/-- What a row says. -/
inductive RowBody where
  | model (json : Json)
  | text (s : String)
  | binary (data : Binary)
  | importing (json : Json)
  | hint (code : Char) (json : Json)
  | error (json : Json)
  | postpone (json : Json)
  | opening (kind : StreamKind)
  | closing (value : Option Json)

/-- One row of the wire. -/
structure Row where
  id : Nat
  body : RowBody

namespace Row

/-- A line with a tag and a text. -/
def tagged (id : Nat) (tag : RowTag) (text : String) : Frame := .line id (some tag.tag) (utf8 text)

/-- A line without a tag. -/
def untagged (id : Nat) (text : String) : Frame := .line id none (utf8 text)

/-- A hint: its code stands between the tag and the payload. -/
def hinted (id : Nat) (code : Char) (text : String) : Frame :=
  tagged id .hint (String.ofList [code] ++ text)

/-- The framing of a row. -/
def frame (r : Row) : Frame :=
  match r.body with
  | .model j => untagged r.id j.print
  | .text s => .counted r.id RowTag.text.tag (utf8 s)
  | .binary b => .counted r.id b.kind.tag b.bytes
  | .importing j => tagged r.id .importing j.print
  | .hint c j => hinted r.id c j.print
  | .error j => tagged r.id .error j.print
  | .postpone j => tagged r.id .postpone j.print
  | .opening k => tagged r.id (.stream k) ""
  | .closing v => tagged r.id .close ((v.map Json.print).getD "")

/-- The bytes of a row. -/
def encode (r : Row) : Bytes := r.frame.encode

end Row

end GraphRows
