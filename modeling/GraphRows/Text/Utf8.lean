import GraphRows.Text.Bytes

/-!
# Reading UTF-8

Text arrives as bytes that nobody has checked. `decode?` accepts exactly the well-formed sequences;
`decodeLossy` accepts everything and writes one replacement character for each maximal part that no
well-formed sequence can contain. Both run the same reader of one character, `next`, which always
consumes at least one byte, so a text is read in as many turns as it has bytes.

A part is *maximal* in this sense: a lead byte followed by the continuation bytes that could still
belong to it. The admissible range of the second byte depends on the lead byte; that is where
overlong forms, surrogates and code points above `0x10FFFF` are refused.
-/

namespace GraphRows.Utf8

/-- What stands in for a part that is no character. -/
def replacement : Char := Char.ofNat 0xFFFD

/-- Whether a byte continues a sequence. -/
def isTail (b : UInt8) : Bool := 0x80 ≤ b && b ≤ 0xBF

/-- The second bytes that may follow a lead byte, and how many tails the lead byte asks for. -/
def second (lead : UInt8) : Option ((UInt8 × UInt8) × Nat) :=
  if 0xC2 ≤ lead && lead ≤ 0xDF then some ((0x80, 0xBF), 1)
  else if lead == 0xE0 then some ((0xA0, 0xBF), 2)
  else if lead == 0xED then some ((0x80, 0x9F), 2)
  else if 0xE1 ≤ lead && lead ≤ 0xEF then some ((0x80, 0xBF), 2)
  else if lead == 0xF0 then some ((0x90, 0xBF), 3)
  else if 0xF1 ≤ lead && lead ≤ 0xF3 then some ((0x80, 0xBF), 3)
  else if lead == 0xF4 then some ((0x80, 0x8F), 3)
  else none

/-- The payload bits of a lead byte that asks for `tails` continuation bytes. -/
def leadBits (lead : UInt8) (tails : Nat) : Nat := lead.toNat % Nat.pow 2 (6 - tails)

/-- Take up to `n` tails, adding six bits each. The count of tails still owed is returned with the
bits. -/
def takeTails : Nat → Nat → Bytes → Nat × Nat × Bytes
  | 0, bits, rest => (0, bits, rest)
  | n + 1, bits, [] => (n + 1, bits, [])
  | n + 1, bits, b :: rest =>
    if isTail b then takeTails n (bits * 64 + b.toNat % 64) rest else (n + 1, bits, b :: rest)

/-- Read one character after its lead byte: the character, or nothing for a broken part, and the
bytes after it. -/
def afterLead (lead : UInt8) (rest : Bytes) : Option Char × Bytes :=
  if lead < 0x80 then (some (Char.ofNat lead.toNat), rest)
  else
    match second lead, rest with
    | none, _ => (none, rest)
    | some _, [] => (none, [])
    | some ((lo, hi), tails), b :: more =>
      if lo ≤ b && b ≤ hi then
        match takeTails (tails - 1) (leadBits lead tails * 64 + b.toNat % 64) more with
        | (0, bits, left) => (some (Char.ofNat bits), left)
        | (_, _, left) => (none, left)
      else (none, b :: more)

theorem length_takeTails_le (n bits : Nat) (bs : Bytes) :
    (takeTails n bits bs).2.2.length ≤ bs.length := by
  induction n, bits, bs using takeTails.induct with
  | case1 => simp [takeTails]
  | case2 => simp [takeTails]
  | case3 n bits b rest h ih => simp only [takeTails, h, if_true, List.length_cons]; omega
  | case4 n bits b rest h => simp [takeTails, h]

theorem length_afterLead_le (lead : UInt8) (rest : Bytes) :
    (afterLead lead rest).2.length ≤ rest.length := by
  unfold afterLead
  split
  · simp
  · split
    · simp
    · simp
    · rename_i lo hi tails b more _
      split
      · have := length_takeTails_le (tails - 1) (leadBits lead tails * 64 + b.toNat % 64) more
        split <;> simp_all <;> omega
      · simp

/-- The characters of a byte sequence, with nothing where a part is broken. -/
def parts : Bytes → List (Option Char)
  | [] => []
  | b :: rest => (afterLead b rest).1 :: parts (afterLead b rest).2
termination_by bs => bs.length
decreasing_by
  have := length_afterLead_le b rest
  simp only [List.length_cons]
  omega

/-- Read a text, writing the replacement character for each broken part. -/
def decodeLossy (bs : Bytes) : String := String.ofList ((parts bs).map (·.getD replacement))

/-- Read a text if every part of it is a character. -/
def decode? (bs : Bytes) : Option String := ((parts bs).mapM id).map String.ofList

end GraphRows.Utf8
