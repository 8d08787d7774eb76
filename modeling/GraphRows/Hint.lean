import GraphRows.Fault.Wording

/-!
# Resource hints

A hint tells the receiving side of a resource before the model mentions it. Each kind has a code of
one letter, a key by which repetitions are recognised, and a payload whose optional parts are left
out from the end; a missing middle part is written as `0`.
-/

namespace GraphRows

/-- Options of a hint, in their order. -/
abbrev HintOptions := List (String × Json)

/-- A resource hint. -/
inductive Hint where
  | prefetchDns (href : String)
  | preconnect (href : String) (crossOrigin : Option String)
  | preload (href asType : String) (options : Option HintOptions)
  | preloadModule (href : String) (options : Option HintOptions)
  | preinitScript (src : String) (options : Option HintOptions)
  | preinitStyle (href : String) (precedence : Option String) (options : Option HintOptions)
  | preinitModuleScript (src : String) (options : Option HintOptions)

namespace Hint

/-- The letter of the kind. -/
def code : Hint → Char
  | .prefetchDns .. => 'D'
  | .preconnect .. => 'C'
  | .preload .. => 'L'
  | .preloadModule .. => 'm'
  | .preinitScript .. => 'X'
  | .preinitStyle .. => 'S'
  | .preinitModuleScript .. => 'M'

/-- The key of an image to preload, which may come in several sizes. -/
def imageKey (href : String) (options : HintOptions) : String :=
  match (options.lookup "imageSrcSet").bind Json.str? with
  | some sources =>
    if sources.isEmpty then "L[image][][]" ++ href
    else
      match (options.lookup "imageSizes").bind Json.str? with
      | some sizes => "L[image][" ++ sources ++ "][" ++ sizes ++ "]"
      | none => "L[image][" ++ sources ++ "]"
  | none => "L[image][][]" ++ href

/-- The key by which a repeated hint is recognised. -/
def key : Hint → String
  | .prefetchDns href => "D|" ++ href
  | .preconnect href crossOrigin => "C|" ++ crossOrigin.getD "null" ++ "|" ++ href
  | .preload href asType options =>
    match asType == "image", options with
    | true, some o => imageKey href o
    | _, _ => "L[" ++ asType ++ "]" ++ href
  | .preloadModule href _ => "m|" ++ href
  | .preinitScript src _ => "X|" ++ src
  | .preinitStyle href _ _ => "S|" ++ href
  | .preinitModuleScript src _ => "M|" ++ src

/-- Options that say something. -/
def nonempty : Option HintOptions → Option HintOptions
  | some [] => none
  | o => o

/-- A name with optional parts after it; a name alone is no array. -/
def named (name : String) : List Json → Json
  | [] => .str name
  | parts => .arr (.str name :: parts)

/-- The payload of the hint's row. -/
def payload : Hint → Json
  | .prefetchDns href => .str href
  | .preconnect href crossOrigin => named href (crossOrigin.map Json.str).toList
  | .preload href asType options => .arr (.str href :: .str asType ::
    ((nonempty options).map Json.obj).toList)
  | .preloadModule name options | .preinitScript name options | .preinitModuleScript name options =>
    named name ((nonempty options).map Json.obj).toList
  | .preinitStyle href precedence options =>
    match nonempty options with
    | some o => .arr [.str href, (precedence.map Json.str).getD (.int 0), .obj o]
    | none => named href (precedence.map Json.str).toList

/-- The name at the front of a payload and the parts after it. -/
def split? : Json → Option (String × List Json)
  | .str s => some (s, [])
  | .arr (.str s :: rest) => some (s, rest)
  | _ => none

/-- The hint with a code and a payload. -/
def ofPayload (code : Char) (payload : Json) : Except Fault Hint :=
  match split? payload with
  | none => .error (.badHint payload code)
  | some (first, rest) =>
    let text (i : Nat) : Option String := rest[i]?.bind Json.str?
    let options (i : Nat) : Option HintOptions := rest[i]?.bind Json.obj?
    match code with
    | 'D' => .ok (.prefetchDns first)
    | 'C' => .ok (.preconnect first (text 0))
    | 'L' =>
      match text 0 with
      | some asType => .ok (.preload first asType (options 1))
      | none => .error (.badHint payload code)
    | 'm' => .ok (.preloadModule first (options 0))
    | 'X' => .ok (.preinitScript first (options 0))
    | 'S' => .ok (.preinitStyle first (text 0) (options 1))
    | 'M' => .ok (.preinitModuleScript first (options 0))
    | _ => .error (.unknownHint code)

/-- Equality of options, whatever their order. -/
def sameOptions : Option HintOptions → Option HintOptions → Bool
  | none, none => true
  | some a, some b => Json.same (.obj a) (.obj b)
  | _, _ => false

/-- Equality of hints. -/
def same : Hint → Hint → Bool
  | .prefetchDns a, .prefetchDns b => a == b
  | .preconnect a x, .preconnect b y => a == b && x == y
  | .preload a x o, .preload b y p => a == b && x == y && sameOptions o p
  | .preloadModule a o, .preloadModule b p => a == b && sameOptions o p
  | .preinitScript a o, .preinitScript b p => a == b && sameOptions o p
  | .preinitStyle a x o, .preinitStyle b y p => a == b && x == y && sameOptions o p
  | .preinitModuleScript a o, .preinitModuleScript b p => a == b && sameOptions o p
  | _, _ => false

end Hint

end GraphRows
