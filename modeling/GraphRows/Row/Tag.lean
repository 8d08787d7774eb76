import GraphRows.Binary.Kind

/-!
# Row tags

The byte after the colon of a row says what the row is. A row without a tag carries a model, and its
first byte belongs to the payload. Rows of text and of binary data announce their length; all others
end at a newline.
-/

namespace GraphRows

/-- How a stream hands out its items. -/
inductive StreamKind where
  | readable | readableBytes | asyncIterable | asyncIterator
deriving DecidableEq, Inhabited

namespace StreamKind

/-- The name of the kind. -/
def name : StreamKind → String
  | .readable => "Readable"
  | .readableBytes => "ReadableBytes"
  | .asyncIterable => "AsyncIterable"
  | .asyncIterator => "AsyncIterator"

/-- Whether the stream is an iterator. -/
def isIterator : StreamKind → Bool
  | .asyncIterable | .asyncIterator => true
  | .readable | .readableBytes => false

end StreamKind

/-- What a row that is neither a model nor binary data is. -/
inductive RowTag where
  | importing | hint | error | postpone | text | stream
    (kind : StreamKind) | close | debug | console | timing
deriving DecidableEq, Inhabited

namespace RowTag

/-- The letter of the tag. -/
def letter : RowTag → Char
  | .importing => 'I'
  | .hint => 'H'
  | .error => 'E'
  | .postpone => 'P'
  | .text => 'T'
  | .stream .readable => 'R'
  | .stream .readableBytes => 'r'
  | .stream .asyncIterable => 'X'
  | .stream .asyncIterator => 'x'
  | .close => 'C'
  | .debug => 'D'
  | .console => 'W'
  | .timing => 'N'

/-- All tags. -/
def all : List RowTag :=
  [.importing, .hint, .error, .postpone, .text, .stream .readable, .stream .readableBytes,
    .stream .asyncIterable,
   .stream .asyncIterator, .close, .debug, .console, .timing]

/-- The byte of the tag. -/
def tag (t : RowTag) : UInt8 := byte t.letter

/-- The tag with a letter. -/
def ofLetter? (c : Char) : Option RowTag := all.find? (·.letter == c)

/-- The tag of a byte. -/
def ofTag? (b : UInt8) : Option RowTag := ofLetter? (latin b)

theorem mem_all (t : RowTag) : t ∈ all := by
  rcases t with _ | _ | _ | _ | _ | (_ | _ | _ | _) | _ | _ | _ | _ <;> decide

@[simp] theorem ofLetter?_letter (t : RowTag) : ofLetter? t.letter = some t := by
  rcases t with _ | _ | _ | _ | _ | (_ | _ | _ | _) | _ | _ | _ | _ <;> rfl

@[simp] theorem ofTag?_tag (t : RowTag) : ofTag? t.tag = some t := by
  rcases t with _ | _ | _ | _ | _ | (_ | _ | _ | _) | _ | _ | _ | _ <;> rfl

/-- Whether a byte marks a row that announces its length. -/
def isCounted (b : UInt8) : Bool := b == RowTag.text.tag || (BinaryKind.ofTag? b).isSome

/-- Whether a byte marks a row that ends at a newline. -/
def isLine (b : UInt8) : Bool :=
  (byte 'A' ≤ b && b ≤ byte 'Z') || b == byte '#' || b == byte 'r' || b == byte 'x'

end RowTag

end GraphRows
