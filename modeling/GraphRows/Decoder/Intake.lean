import GraphRows.Decoder.Feed
import GraphRows.Encoder.Outlet

/-!
# Intakes

An intake feeds a decoder from a source of chunks until the source ends or a piece cannot be read.
-/

namespace GraphRows

/-- Where chunks come from. -/
inductive ChunkSource where
  | outlet (o : Outlet)
  | chunks (rest : List Bytes)
deriving Inhabited

/-- A decoder and the source it is fed from. -/
structure Intake where
  decoder : Decoder
  source : ChunkSource
deriving Inhabited

namespace Intake

variable {η : Type}

/-- The next chunk of a source. -/
def nextChunk (run : Force η) (fuel : Nat) (source : ChunkSource) (bell : Nat) (s : Store)
    (host : η) : Option (Polled Bytes × ChunkSource × Store × η) :=
  match source with
  | .chunks [] => some (.ended, .chunks [], s, host)
  | .chunks (c :: rest) => some (.got c, .chunks rest, s, host)
  | .outlet o => (o.poll run fuel bell s host).map fun (p, o, s, host) => (p, .outlet o, s, host)

/-- Feed the decoder as far as its source goes. No result means that the source has to be waited
for. -/
def poll (run : Force η) : Nat → Intake → Nat → Store → η →
    Option (Option (Except Fault Unit) × Intake × Store × η)
  | 0, _, _, _, _ => none
  | fuel + 1, x, bell, s, host => do
    let (polled, source, s, host) ← nextChunk run fuel x.source bell s host
    match polled with
    | .waiting => return (none, { x with source }, s, host)
    | .ended =>
      let ((), decoder, s) := x.decoder.run s DecodeM.close
      return (some (.ok ()), ⟨decoder, source⟩, s, host)
    | .got chunk =>
      match x.decoder.run s (DecodeM.feed chunk) with
      | (.error f, decoder, s) => return (some (.error f), ⟨decoder, source⟩, s, host)
      | (.ok (), decoder, s) => poll run fuel ⟨decoder, source⟩ bell s host

end Intake

end GraphRows
