import GraphRows.Decoder.Intake

/-!
# Scenarios

A scenario is a list of steps that a host takes with encoders, decoders and the values they share,
and a table of programs that its lazy values run. Things are named; each kind of thing has its own
names. Values are described by expressions, which build new values every time they are evaluated.
-/

namespace GraphRows

/-- A step from a container to one of its parts. -/
inductive Key where
  | field (name : String)
  | index (i : Nat)
deriving DecidableEq, Inhabited

/-- How to build a value. -/
inductive Expr where
  | scalar (v : Value)
  /-- build the value and name it; containers are named before their parts are built -/
  | named (name : String) (e : Expr)
  | array (items : List Expr)
  | set (items : List Expr)
  | object (fields : List (String × Expr))
  | form (entries : List (String × Expr))
  | map (entries : List (Expr × Expr))
  /-- wrap a value in arrays, or in objects with one field -/
  | nest (depth : Nat) (key : Option String) (e : Expr)
  /-- build a value several times -/
  | copies (n : Nat) (e : Expr)
  | range (first last : Int)
  | binary (kind : BinaryKind) (bytes : Bytes)
  | blob (mime : String) (bytes : Bytes)
  | pending
  | fulfilled (e : Expr)
  | rejected (reason : Rejection)
  | stream (kind : StreamKind) (items : List Expr) (closed : Bool) (returned : Option Expr)
    (error : Option Rejection)
  /-- a lazy value that runs a program of the scenario -/
  | lazy (program : Nat)
  /-- a value the running program has read -/
  | used (i : Nat)
  | client (id : String) (isAsync : Bool)
  | server (id : String)
  | serverBound (id : String) (arguments : List Expr)
  | temporary (set id : String)
  | exported (proxy name : String)
  | exporter (proxy : String)
  | json (j : Json)
  | lookup (name : String) (path : List Key)
deriving Inhabited

/-- The loaders a scenario can ask for. -/
inductive LoaderChoice where
  | standard
  /-- fail on every module -/
  | failing
  /-- the id and the name in one text -/
  | joined
  /-- an object with the fields of the import -/
  | fields
  /-- the value with a name -/
  | named (name : String)
deriving DecidableEq, Inhabited

/-- How an encoder is set up. -/
structure EncoderChoice where
  config : Config := {}
  digest : Option Digest := none
  observePostpone : Bool := false
  temporaries : Option String := none
  slot : Option String := none
deriving Inhabited

/-- How a decoder is set up. -/
structure DecoderChoice where
  config : Config := {}
  loader : LoaderChoice := .standard
  observeHints : Bool := false
  temporaries : Option String := none
deriving Inhabited

/-- A model, the text of a manifest, and a setup. -/
structure EncoderSpec where
  model : Expr
  manifest : Option String := none
  choice : EncoderChoice := {}
deriving Inhabited

/-- Where bytes come from. -/
inductive ByteSource where
  | bytes (bs : Bytes)
  /-- all a sink holds, which is taken out -/
  | sink (name : String)
deriving Inhabited

/-- A use of a table of references. -/
inductive TableUse where
  | nextId
  | get (e : Expr)
  | record (e : Expr) (reference : String)
  | symbol (key : String)
  | recordSymbol (key : String) (id : Nat)
  | client (key : String)
  | recordClient (key : String) (id : Nat)
  | server (e : Expr)
  | recordServer (e : Expr) (reference : String)
deriving Inhabited

/-- A step of the host. -/
inductive Step where
  | define (name : String) (e : Expr)
  | describe (e : Expr)
  | inspect (e : Expr)
  | compare (a b : Expr)
  | pushItem (name : String) (e : Expr)
  | setField (name key : String) (e : Expr)
  | pushEntry (name : String) (key value : Expr)
  | fulfil (name : String) (e : Expr)
  | reject (name : String) (reason : Rejection)
  | observe (name label : String) (forward : Option String)
  | promiseInfo (name : String)
  | pollPromise (name bell : String)
  | rings (bell : String)
  | push (name : String) (e : Expr)
  | closeStream (name : String)
  | closeStreamWith (name : String) (e : Expr)
  | failStream (name : String) (reason : Rejection)
  | cancelStream (name : String) (reason : Rejection)
  | nextEvent (name : String)
  | drainStream (name : String)
  | streamInfo (name : String)
  | pollStream (name bell : String)
  | newEncoder (name : String) (spec : EncoderSpec)
  | newSink (name : String) (mark : Option Nat)
  | flow (encoder sink : String)
  | work (encoder : String)
  | pull (encoder : String)
  | abort (encoder : String) (reason : Option Rejection)
  | hint (encoder : String) (h : Hint)
  | takeChunks (sink : String)
  | popChunk (sink : String)
  | peekSink (sink : String)
  | newDecoder (name : String) (choice : DecoderChoice)
  | feed (decoder : String) (source : ByteSource) (split : Option Nat)
  | handle (decoder : String) (id : Nat) (asName valueName : Option String)
  | statuses (decoder : String) (ids : List Nat)
  | closeDecoder (decoder : String)
  | failDecoder (decoder : String) (reason : Rejection)
  | newOutlet (name : String) (spec : EncoderSpec)
  | outletOf (name encoder : String)
  | pollOutlet (name bell : String)
  | abortOutlet (name : String) (reason : Option Rejection)
  | hintOutlet (name : String) (h : Hint)
  | intakeOf (name : String) (asName : Option String) (choice : DecoderChoice) (outlet : String)
  | intakeOfChunks (name : String) (asName : Option String) (choice : DecoderChoice)
    (chunks : List Bytes)
  | pollIntake (name bell : String)
  | newSlot (name : String)
  | takeSlot (slot lease : String)
  | freeSlot (lease : String)
  | slotHeld (slot : String)
  | newProxy (name path : String) (isAsync : Bool)
  | proxyInfo (name : String)
  | newTemporaries (set : String)
  | registerTemporary (set : String) (e : Expr) (id : String)
  | lookupTemporary (set id : String)
  | temporaryName (set : String) (e : Expr)
  | newTable (name : String)
  | useTable (name : String) (use : TableUse)
deriving Inhabited

/-- A command of a lazy value's program. -/
inductive Command where
  /-- read a promise, remembering it for later attempts -/
  | use (e : Expr)
  /-- read a promise without remembering it -/
  | await (e : Expr)
  | hint (h : Hint)
  | raise (reason : Rejection)
  /-- take a step of the host -/
  | step (s : Step)
  | yield (e : Expr)
deriving Inhabited

/-- What a lazy value runs. -/
structure Program where
  label : Option String := none
  commands : List Command := []
deriving Inhabited

/-- The programs of lazy values and the steps of the host. -/
structure Scenario where
  programs : Array Program := #[]
  steps : List Step := []
deriving Inhabited

end GraphRows
