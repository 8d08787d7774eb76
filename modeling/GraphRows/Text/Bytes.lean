/-!
# Bytes

Everything that crosses the wire is a list of bytes. Lists, not packed arrays, because every
statement about framing is an induction over what is left to read.
-/

namespace GraphRows

/-- A sequence of bytes. -/
abbrev Bytes := List UInt8

/-- The UTF-8 bytes of a text. -/
def utf8 (s : String) : Bytes := s.toList.flatMap String.utf8EncodeChar

@[simp] theorem utf8_append (s t : String) : utf8 (s ++ t) = utf8 s ++ utf8 t := by
  simp [utf8, String.toList_append]

/-- The byte of an ASCII character. -/
def byte (c : Char) : UInt8 := UInt8.ofNat c.toNat

/-- The character with this byte as its code point. -/
def latin (b : UInt8) : Char := Char.ofNat b.toNat

end GraphRows
