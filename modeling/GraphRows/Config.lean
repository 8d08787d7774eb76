/-!
# Settings

What a writer of rows may be told: whether error details go over the wire, from how many bytes on a
text gets a row of its own, and how many bytes are collected before the sink is called.
-/

namespace GraphRows

/-- The settings of an encoder or a decoder. -/
structure Config where
  exposeErrors : Bool := false
  largeText : Nat := 1024
  chunkSize : Nat := 2048
deriving DecidableEq, Inhabited

namespace Config

/-- The settings as an inspection shows them. -/
def inspect (c : Config) : String :=
  "Config \x7b expose_error_details: " ++ (if c.exposeErrors then "true" else "false") ++
    ", large_text_threshold: " ++ toString c.largeText ++ ", chunk_size: " ++
    toString c.chunkSize ++ " \x7d"

end Config

end GraphRows
