import GraphRows.Fault.Basic
import GraphRows.Json.Printer
import GraphRows.Json.Reader

/-!
# The faults of this library

One definition for each way in which reading, writing or a call out of turn can fail, with its text.
-/

namespace GraphRows.Fault

/-! ## Reading -/

/-- A text that is no reference id. -/
def badReferenceId (s : String) : Fault := .invalidRef ("Invalid reference id " ++ Quoted.text s)

/-- A text that is no instant. -/
def badDate (s : String) : Fault :=
  .invalidData ("Invalid date " ++ Quoted.text s ++ ": not an internet date and time")

/-- A text that is no integer. -/
def badInteger (s : String) : Fault := .invalidData ("Invalid bigint " ++ Quoted.text s)

/-- A payload that is no JSON value. -/
def badJson (e : Json.ReadError) : Fault := .invalidData ("Invalid JSON payload: " ++ e.message)

/-- A header byte that is no hexadecimal digit. -/
def badHeaderDigit (c : Char) : Fault :=
  .invalidData ("Invalid hex digit " ++ Quoted.char c ++ " in row header")

/-- A row id of more than 32 bits. -/
def rowIdTooLarge : Fault := .invalidData "Row id overflows u32"

/-- A row length of more than 64 bits. -/
def rowLengthTooLarge : Fault := .invalidData "Row length overflows usize"

/-- A byte that marks no kind of binary data. -/
def unknownBinaryTag (c : Char) : Fault :=
  .invalidData ("Unknown typed array tag " ++ Quoted.char c)

/-- A byte count that is no whole number of elements. -/
def unevenLength (bytes : Nat) (kind : String) (size : Nat) : Fault :=
  .invalidData ("Byte length " ++ toString bytes ++ " is not a multiple of the " ++ kind ++
    " element size " ++ toString size)

/-- An import row of the wrong shape. -/
def badImport (j : Json) : Fault := .invalidData ("Invalid import row " ++ j.print)

/-- A hint payload of the wrong shape. -/
def badHint (j : Json) (code : Char) : Fault :=
  .invalidData ("Invalid hint payload " ++ j.print ++ " for code " ++ Quoted.char code)

/-- A hint code that stands for nothing. -/
def unknownHint (code : Char) : Fault := .invalidData ("Unknown hint code " ++ Quoted.char code)

/-- An error that came over the wire; without a message it says why there is none. -/
def ofWire (digest : String) (message stack : Option String) : Fault :=
  .server digest (message.getD ("An error occurred in the Server Components render. "
    ++ "The specific message is omitted in production builds to avoid leaking sensitive details. "
    ++ "A digest property is included on this error instance which may provide additional details "
    ++ "about the nature of the error.")) stack

/-! ## References -/

/-- A module that the manifest does not know. -/
def unknownModule (path : String) : Fault :=
  .invalidRef ("Could not find the module \"" ++ path ++ "\" in the client manifest.")

/-- A step of a path that leads nowhere. -/
def badPath (key typeName : String) : Fault :=
  .invalidRef ("Reference path segment " ++ Quoted.text key ++ " does not exist on " ++ typeName)

/-- A row that should hold an array. -/
def expectedArray (kind typeName : String) : Fault :=
  .invalidData ("Expected an array behind a " ++ kind ++ " reference, got " ++ typeName)

/-- A row that should hold binary data. -/
def expectedBinary (kind typeName : String) : Fault :=
  .invalidData ("Expected binary data behind a " ++ kind ++ " reference, got " ++ typeName)

/-- An entry of a collection that is no pair. -/
def badEntry (kind entry : String) : Fault :=
  .invalidData ("Malformed " ++ kind ++ " entry " ++ entry)

/-- A form entry whose key is no text. -/
def badFormKey : Fault := .invalidData "FormData keys must be strings"

/-- A blob row that is not a type and its bytes. -/
def badBlob : Fault := .invalidData "Malformed blob parts"

/-- A server reference row without an id. -/
def namelessAction : Fault := .invalidData "Server reference without an id"

/-- A temporary reference that the encoder cannot write. -/
def unwritableTemporary : Fault :=
  .typeError ("Could not reference an opaque temporary reference. "
    ++ "The request has no temporary reference set that knows it.")

/-- A temporary reference that the decoder cannot read. -/
def unreadableTemporary : Fault :=
  .typeError ("Could not reference an opaque temporary reference. "
    ++ "The response was created without a temporary reference set.")

/-! ## Calls out of turn -/

/-- A second reader of a stream. -/
def streamLocked : Fault := .notAllowed "The stream is already locked to a reader."

/-- A stream to be written that somebody reads already. -/
def streamTaken : Fault := .typeError "The stream is already locked to another reader."

/-- A value of a kind that cannot be written where it stands. -/
def unwritable (typeName : String) : Fault :=
  .typeError (typeName ++ " values cannot be serialized here.")

/-- A slot that somebody holds already. -/
def slotBusy : Fault := .notAllowed "Another request is already rendering on this renderer."

/-- A second sink. -/
def alreadyFlowing : Fault := .notAllowed "The request is already flowing into a destination."

end GraphRows.Fault

namespace GraphRows.Rejection

/-- The reason of an abort that names none. -/
def aborted : Rejection := .ofText "The render was aborted by the server without a reason."

/-- The reason streams end with when an abort asks to postpone. -/
def abortedByPostpone : Rejection := .ofText "The render was aborted due to being postponed."

end GraphRows.Rejection
