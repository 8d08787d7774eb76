import GraphRows.Text.Utf8

/-!
# Texts survive their bytes

The reader of UTF-8 takes one character after the other. Reading the bytes of a character, with
anything behind them, gives that character and leaves what was behind, so a text comes back from its
bytes whichever of the two readers is used. The four lengths of an encoded character are four
computations with the code point split into groups of six bits.

## Main results

* `Utf8.parts_encode`: the bytes of one character read back
* `Utf8.decodeLossy_utf8`, `Utf8.decode?_utf8`: so does a text
-/

namespace GraphRows.Utf8

theorem toNat_ofNat_of_lt {n : Nat} (h : n < 256) : (UInt8.ofNat n).toNat = n := by
  rw [UInt8.toNat_ofNat', Nat.mod_eq_of_lt h]

theorem ofNat_le_ofNat {m n : Nat} (hm : m < 256) (hn : n < 256) :
    UInt8.ofNat m ≤ UInt8.ofNat n ↔ m ≤ n := by
  rw [UInt8.le_iff_toNat_le, toNat_ofNat_of_lt hm, toNat_ofNat_of_lt hn]

theorem ofNat_lt_ofNat {m n : Nat} (hm : m < 256) (hn : n < 256) :
    UInt8.ofNat m < UInt8.ofNat n ↔ m < n := by
  rw [UInt8.lt_iff_toNat_lt, toNat_ofNat_of_lt hm, toNat_ofNat_of_lt hn]

theorem ofNat_eq_ofNat {m n : Nat} (hm : m < 256) (hn : n < 256) :
    UInt8.ofNat m = UInt8.ofNat n ↔ m = n := by
  rw [← UInt8.toNat_inj, toNat_ofNat_of_lt hm, toNat_ofNat_of_lt hn]

theorem isTail_ofNat {n : Nat} (h : n < 64) : isTail (UInt8.ofNat (n + 0x80)) = true := by
  change (decide (UInt8.ofNat 0x80 ≤ _) && decide (_ ≤ UInt8.ofNat 0xBF)) = true
  rw [Bool.and_eq_true, decide_eq_true_eq, decide_eq_true_eq, ofNat_le_ofNat (by decide) (by omega),
    ofNat_le_ofNat (by omega) (by decide)]
  omega

/-- The second bytes a lead byte admits, read off the number of the lead byte. -/
theorem second_ofNat {n : Nat} (h : n < 256) :
    second (UInt8.ofNat n) =
      if 0xC2 ≤ n ∧ n ≤ 0xDF then some ((0x80, 0xBF), 1)
      else if n = 0xE0 then some ((0xA0, 0xBF), 2)
      else if n = 0xED then some ((0x80, 0x9F), 2)
      else if 0xE1 ≤ n ∧ n ≤ 0xEF then some ((0x80, 0xBF), 2)
      else if n = 0xF0 then some ((0x90, 0xBF), 3)
      else if 0xF1 ≤ n ∧ n ≤ 0xF3 then some ((0x80, 0xBF), 3)
      else if n = 0xF4 then some ((0x80, 0x8F), 3)
      else none := by
  have le (a b : Nat) (ha : a < 256) (hb : b < 256) :
      decide (UInt8.ofNat a ≤ UInt8.ofNat b) = decide (a ≤ b) := by
    simp only [ofNat_le_ofNat ha hb]
  have eq (b : Nat) (hb : b < 256) : (UInt8.ofNat n == UInt8.ofNat b) = decide (n = b) := by
    rw [Bool.eq_iff_iff, beq_iff_eq, ofNat_eq_ofNat h hb, decide_eq_true_eq]
  unfold second
  rw [show (0xC2 : UInt8) = UInt8.ofNat 0xC2 from rfl, show (0xDF : UInt8) =
    UInt8.ofNat 0xDF from rfl,
    show (0xE0 : UInt8) = UInt8.ofNat 0xE0 from rfl, show (0xED : UInt8) =
      UInt8.ofNat 0xED from rfl,
    show (0xE1 : UInt8) = UInt8.ofNat 0xE1 from rfl, show (0xEF : UInt8) =
      UInt8.ofNat 0xEF from rfl,
    show (0xF0 : UInt8) = UInt8.ofNat 0xF0 from rfl, show (0xF1 : UInt8) =
      UInt8.ofNat 0xF1 from rfl,
    show (0xF3 : UInt8) = UInt8.ofNat 0xF3 from rfl, show (0xF4 : UInt8) =
      UInt8.ofNat 0xF4 from rfl]
  rw [le _ _ (by decide) h, le _ _ h (by decide), eq _ (by decide), eq _ (by decide),
    le _ _ (by decide) h, le _ _ h (by decide), eq _ (by decide), le _ _ (by decide) h,
      le _ _ h (by decide), eq _ (by decide)]
  simp only [Bool.and_eq_true, decide_eq_true_eq]

/-! ## One character -/

theorem afterLead_one {v : Nat} (h : v < 0x80) (rest : Bytes) :
    afterLead (UInt8.ofNat v) rest = (some (Char.ofNat v), rest) := by
  have hlead : UInt8.ofNat v < 0x80 := (ofNat_lt_ofNat (by omega) (by decide)).mpr h
  unfold afterLead
  rw [if_pos hlead, toNat_ofNat_of_lt (by omega)]

/-- A lead byte that asks for `tails` more, followed by that many: what is left after the second
byte is a loop. -/
theorem afterLead_cons {a b tails : Nat} {lo hi : UInt8} (ha : 0x80 ≤ a) (ha' : a < 256)
    (hb : b < 64) (hs : second (UInt8.ofNat a) = some ((lo, hi), tails)) (hlo : lo.toNat ≤ b + 0x80)
    (hhi : b + 0x80 ≤ hi.toNat) {rest left : Bytes} {bits : Nat}
    (ht : takeTails (tails - 1) (a % Nat.pow 2 (6 - tails) * 64 + b) rest = (0, bits, left)) :
    afterLead (UInt8.ofNat a) (UInt8.ofNat (b + 0x80) :: rest) =
      (some (Char.ofNat bits), left) := by
  have hlead : ¬ UInt8.ofNat a < 0x80 := by
    rw [show (0x80 : UInt8) = UInt8.ofNat 0x80 from rfl, ofNat_lt_ofNat ha' (by decide)]
    omega
  have hrange : (decide (lo ≤ UInt8.ofNat (b + 0x80)) && decide (UInt8.ofNat (b + 0x80) ≤ hi)) =
      true := by
    rw [Bool.and_eq_true, decide_eq_true_eq, decide_eq_true_eq, UInt8.le_iff_toNat_le,
      UInt8.le_iff_toNat_le, toNat_ofNat_of_lt (by omega)]
    exact ⟨hlo, hhi⟩
  have hbits : (UInt8.ofNat (b + 0x80)).toNat % 64 = b := by
    rw [toNat_ofNat_of_lt (by omega)]
    omega
  unfold afterLead
  rw [if_neg hlead, hs]
  simp only [hrange, if_true, leadBits, hbits, toNat_ofNat_of_lt ha', ht]

theorem takeTails_succ {n bits b : Nat} (hb : b < 64) (rest : Bytes) :
    takeTails (n + 1) bits (UInt8.ofNat (b + 0x80) :: rest) = takeTails n (bits * 64 + b) rest := by
  have hbits : (UInt8.ofNat (b + 0x80)).toNat % 64 = b := by
    rw [toNat_ofNat_of_lt (by omega)]
    omega
  rw [takeTails, if_pos (isTail_ofNat hb), hbits]

theorem afterLead_two {a b : Nat} (ha : 2 ≤ a) (ha' : a < 32) (hb : b < 64) (rest : Bytes) :
    afterLead (UInt8.ofNat (a + 0xC0)) (UInt8.ofNat (b + 0x80) :: rest) =
      (some (Char.ofNat (a * 64 + b)), rest) := by
  have hs : second (UInt8.ofNat (a + 0xC0)) = some ((0x80, 0xBF), 1) := by
    rw [second_ofNat (by omega), if_pos (by omega)]
  refine afterLead_cons (by omega) (by omega) hb hs (by simp) (by simp; omega) ?_
  rw [show (a + 0xC0) % Nat.pow 2 (6 - 1) = a by simp; omega, Nat.sub_self, takeTails]

theorem afterLead_three {a b c : Nat} (ha : a < 16) (hb : b < 64) (hc : c < 64)
    (hlow : a = 0 → 32 ≤ b) (hsur : a = 13 → b < 32) (rest : Bytes) :
    afterLead (UInt8.ofNat (a + 0xE0)) (UInt8.ofNat (b + 0x80) :: UInt8.ofNat (c + 0x80) :: rest) =
      (some (Char.ofNat ((a * 64 + b) * 64 + c)), rest) := by
  have hs : ∃ lo hi : UInt8, second (UInt8.ofNat (a + 0xE0)) = some ((lo, hi), 2) ∧
      lo.toNat ≤ b + 0x80 ∧ b + 0x80 ≤ hi.toNat := by
    rw [second_ofNat (by omega), if_neg (by omega)]
    by_cases h0 : a = 0
    · refine ⟨0xA0, 0xBF, by rw [if_pos (by omega)], ?_, ?_⟩
      · have := hlow h0
        simp
        omega
      · simp
        omega
    · by_cases h13 : a = 13
      · refine ⟨0x80, 0x9F, by rw [if_neg (by omega), if_pos (by omega)], by simp, ?_⟩
        have := hsur h13
        simp
        omega
      · exact ⟨0x80, 0xBF, by rw [if_neg (by omega), if_neg (by omega), if_pos (by omega)],
          by simp, by simp; omega⟩
  obtain ⟨lo, hi, hs, hlo, hhi⟩ := hs
  refine afterLead_cons (by omega) (by omega) hb hs hlo hhi ?_
  rw [show (a + 0xE0) % Nat.pow 2 (6 - 2) = a by simp; omega, takeTails_succ hc, takeTails]

theorem afterLead_four {a b c d : Nat} (ha : a ≤ 4) (hb : b < 64) (hc : c < 64) (hd : d < 64)
    (hlow : a = 0 → 16 ≤ b) (hhigh : a = 4 → b < 16) (rest : Bytes) :
    afterLead (UInt8.ofNat (a + 0xF0))
        (UInt8.ofNat (b + 0x80) :: UInt8.ofNat (c + 0x80) :: UInt8.ofNat (d + 0x80) :: rest) =
      (some (Char.ofNat (((a * 64 + b) * 64 + c) * 64 + d)), rest) := by
  have hs : ∃ lo hi : UInt8, second (UInt8.ofNat (a + 0xF0)) = some ((lo, hi), 3) ∧
      lo.toNat ≤ b + 0x80 ∧ b + 0x80 ≤ hi.toNat := by
    rw [second_ofNat (by omega), if_neg (by omega), if_neg (by omega), if_neg (by omega),
      if_neg (by omega)]
    by_cases h0 : a = 0
    · refine ⟨0x90, 0xBF, by rw [if_pos (by omega)], ?_, ?_⟩
      · have := hlow h0
        simp
        omega
      · simp
        omega
    · by_cases h4 : a = 4
      · refine ⟨0x80, 0x8F, by rw [if_neg (by omega), if_neg (by omega),
          if_pos (by omega)], by simp, ?_⟩
        have := hhigh h4
        simp
        omega
      · exact ⟨0x80, 0xBF, by rw [if_neg (by omega), if_pos (by omega)], by simp, by simp; omega⟩
  obtain ⟨lo, hi, hs, hlo, hhi⟩ := hs
  refine afterLead_cons (by omega) (by omega) hb hs hlo hhi ?_
  rw [show (a + 0xF0) % Nat.pow 2 (6 - 3) = a by
    simp; omega, takeTails_succ hc, takeTails_succ hd, takeTails]

/-- **The bytes of one character read back**, whatever follows them. -/
theorem parts_encode (c : Char) (rest : Bytes) :
    parts (String.utf8EncodeChar c ++ rest) = some c :: parts rest := by
  have hv : c.toNat < 0xD800 ∨ (0xDFFF < c.toNat ∧ c.toNat < 0x110000) := c.valid
  have hc : Char.ofNat c.toNat = c := Char.ofNat_toNat c
  have hval : c.val.toNat = c.toNat := rfl
  generalize hn : c.toNat = v at hv hc hval
  unfold String.utf8EncodeChar
  simp only [hval]
  split
  · rw [List.singleton_append, parts, afterLead_one (by omega), hc]
  split
  · rw [show v / 64 % 32 = v / 64 by omega]
    simp only [List.cons_append, List.nil_append]
    rw [parts, afterLead_two (by omega) (by omega) (by omega), show v / 64 * 64 + v % 64 =
      v by omega, hc]
  split
  · rw [show v / 4096 % 16 = v / 4096 by omega]
    simp only [List.cons_append, List.nil_append]
    rw [parts, afterLead_three (by omega) (by omega) (by omega) (by omega) (by omega),
      show (v / 4096 * 64 + v / 64 % 64) * 64 + v % 64 = v by omega, hc]
  · rw [show v / 262144 % 8 = v / 262144 by omega]
    simp only [List.cons_append, List.nil_append]
    rw [parts, afterLead_four (by omega) (by omega) (by omega) (by omega) (by omega) (by omega),
      show ((v / 262144 * 64 + v / 4096 % 64) * 64 + v / 64 % 64) * 64 + v % 64 = v by omega, hc]

/-- A byte below `0x80` is a character on its own: it stands in the bytes of no other. -/
theorem toNat_of_ofNat_mem_encode {n : Nat} (hn : n < 0x80) {c : Char}
    (h : UInt8.ofNat n ∈ String.utf8EncodeChar c) : c.toNat = n := by
  have hv : c.toNat < 0xD800 ∨ (0xDFFF < c.toNat ∧ c.toNat < 0x110000) := c.valid
  have hval : c.val.toNat = c.toNat := rfl
  unfold String.utf8EncodeChar at h
  simp only [hval] at h
  split at h
  · rw [List.mem_singleton, ofNat_eq_ofNat (by omega) (by omega)] at h
    exact h.symm
  -- every byte of a longer sequence has its high bit set
  split at h
  · simp only [List.mem_cons, List.not_mem_nil, or_false] at h
    rcases h with h | h <;> rw [ofNat_eq_ofNat (by omega) (by omega)] at h <;> omega
  split at h
  · simp only [List.mem_cons, List.not_mem_nil, or_false] at h
    rcases h with h | h | h <;> rw [ofNat_eq_ofNat (by omega) (by omega)] at h <;> omega
  · simp only [List.mem_cons, List.not_mem_nil, or_false] at h
    rcases h with h | h | h | h <;> rw [ofNat_eq_ofNat (by omega) (by omega)] at h <;> omega

/-- The byte of an ASCII character is its encoding. -/
theorem encode_of_lt {c : Char} (h : c.toNat < 0x80) : String.utf8EncodeChar c = [byte c] := by
  have hval : c.val.toNat = c.toNat := rfl
  unfold String.utf8EncodeChar
  simp only [hval]
  rw [if_pos (by omega)]
  rfl

theorem latin_byte {c : Char} (h : c.toNat < 0x80) : latin (byte c) = c := by
  rw [latin, byte, toNat_ofNat_of_lt (by omega), Char.ofNat_toNat]

/-! ## Texts -/

theorem parts_flatMap (cs : List Char) :
    parts (cs.flatMap String.utf8EncodeChar) = cs.map some := by
  induction cs with
  | nil => rw [List.flatMap_nil, parts, List.map_nil]
  | cons c cs ih => rw [List.flatMap_cons, parts_encode, ih, List.map_cons]

/-- **A text comes back from its bytes** when it is read with replacements... -/
@[simp] theorem decodeLossy_utf8 (s : String) : decodeLossy (utf8 s) = s := by
  simp [decodeLossy, utf8, parts_flatMap, Function.comp_def]

/-- ... and when it is read strictly. -/
@[simp] theorem decode?_utf8 (s : String) : decode? (utf8 s) = some s := by
  have all : ∀ cs : List Char, (cs.map some).mapM id = some cs := by
    intro cs
    induction cs with
    | nil => rfl
    | cons c cs ih => simp [ih]
  simp [decode?, utf8, parts_flatMap, all]

end GraphRows.Utf8
