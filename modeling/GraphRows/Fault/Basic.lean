import GraphRows.Text.Quoted

/-!
# Faults and rejections

A `Fault` is an error of this library: a kind, a text, and for errors that came over the wire a
digest. A `Cause` is any error a promise, a thunk or a stream may carry: a fault, or an error of the
host with the chain of errors behind it. A `Rejection` is what ends a promise without a value: an
error, or the wish to postpone.

Faults travel as data, so their texts are kept as given. The texts of the faults this library raises
itself stand together in the module of wordings.
-/

namespace GraphRows

/-- An error of this library. -/
inductive Fault where
  | invalidData (message : String)
  | invalidRef (message : String)
  | typeError (message : String)
  | notAllowed (message : String)
  | connectionClosed
  | server (digest message : String) (stack : Option String)
  | unknown (message : String)
deriving DecidableEq, Inhabited

namespace Fault

/-- The text of a fault. -/
def message : Fault → String
  | .invalidData m | .invalidRef m | .typeError m | .notAllowed m | .unknown m => m
  | .connectionClosed => "Connection closed."
  | .server _ m _ => m

/-- The digest of a fault that came over the wire. -/
def digest? : Fault → Option String
  | .server d _ _ => some d
  | _ => none

/-- The name of the kind. -/
def kind : Fault → String
  | .invalidData _ => "InvalidData"
  | .invalidRef _ => "InvalidRef"
  | .typeError _ => "TypeError"
  | .notAllowed _ => "NotAllowed"
  | .connectionClosed => "ConnectionClosed"
  | .server .. => "Server"
  | .unknown _ => "Unknown"

/-- An optional text as an inspection shows it. -/
def inspectOption : Option String → String
  | none => "None"
  | some s => "Some(" ++ Quoted.text s ++ ")"

/-- The fault as an inspection shows it. -/
def inspect (f : Fault) : String :=
  match f with
  | .connectionClosed => f.kind
  | .server d m s =>
    f.kind ++ " \x7b digest: " ++ Quoted.text d ++ ", message: " ++ Quoted.text m ++ ", stack: " ++
      inspectOption s ++ " \x7d"
  | _ => f.kind ++ "(" ++ Quoted.text f.message ++ ")"

end Fault

/-- An error behind a rejection. -/
inductive Cause where
  | fault (f : Fault)
  | host (message : String) (causes : List String)
deriving DecidableEq, Inhabited

namespace Cause

/-- The outermost text. -/
def message : Cause → String
  | .fault f => f.message
  | .host m _ => m

/-- The texts of the errors behind this one, outer to inner. -/
def causes : Cause → List String
  | .fault _ => []
  | .host _ cs => cs

end Cause

/-- What ends a promise without a value. -/
inductive Rejection where
  | error (cause : Cause)
  | postpone (reason : String)
deriving DecidableEq, Inhabited

namespace Rejection

/-- A rejection with a fault of this library. -/
def ofFault (f : Fault) : Rejection := .error (.fault f)

/-- A rejection with an error of the host. -/
def ofText (message : String) : Rejection := .error (.host message [])

/-- Whether it asks to postpone. -/
def isPostpone : Rejection → Bool
  | .postpone _ => true
  | .error _ => false

/-- The digest of an error that came over the wire. -/
def digest? : Rejection → Option String
  | .error (.fault f) => f.digest?
  | _ => none

/-- The rejection in words. -/
def message : Rejection → String
  | .error c => c.message
  | .postpone r => "postponed: " ++ r

/-- The rejection as an inspection shows it. -/
def inspect : Rejection → String
  | .error c => "Error(" ++ Quoted.text c.message ++ ")"
  | .postpone r => "Postpone(" ++ Quoted.text r ++ ")"

end Rejection

end GraphRows
