import GraphRows.Text.Hex
import GraphRows.Number.Integer

/-!
# Digits read back

Numbers cross the wire as texts: ids and lengths in hexadecimal, integers and array indexes in
decimal. Both readers are folds over the digits from the left, so both round trips are one induction
on the number in its base: the last digit is the last step of the fold.

## Main results

* `Hex.value?_chars`, `Hex.read?_chars`: a hexadecimal number reads back as itself
* `Integer.value?_toDigits`: so does a decimal number
* `Integer.read?_toString`: and an integer of any size and sign
-/

namespace GraphRows

variable {c : Char} {n : Nat}

namespace Hex

theorem digit?_digitChar {d : Nat} (h : d < 16) : digit? d.digitChar = some d := by
  have all : ∀ d ∈ List.range 16, digit? d.digitChar = some d := by decide
  exact all d (List.mem_range.mpr h)

theorem value?_append_singleton (cs : List Char) (c : Char) :
    value? (cs ++ [c]) = (value? cs).bind fun n => (digit? c).map (n * 16 + ·) := by
  simp [value?]

/-- **A hexadecimal number reads back as itself.** -/
@[simp] theorem value?_chars (n : Nat) : value? (chars n) = some n := by
  induction n using Nat.base_induction 16 (by decide) with
  | single m hm =>
    rw [chars, Nat.toDigits_of_lt_base hm]
    simp [value?, digit?_digitChar hm]
  | digit m k hk hm ih =>
    rw [chars, ← Nat.toDigits_append_toDigits (by decide) hm hk, Nat.toDigits_of_lt_base hk,
      value?_append_singleton]
    rw [chars] at ih
    simp [ih, digit?_digitChar hk, Nat.mul_comm m 16]

theorem chars_ne_nil (n : Nat) : chars n ≠ [] := Nat.toDigits_ne_nil

/-- The characters hexadecimal numbers are written with. -/
def alphabet : List Char := "0123456789abcdef".toList

theorem mem_alphabet_of_mem_chars (h : c ∈ chars n) : c ∈ alphabet := by
  have all : ∀ d ∈ List.range 16, d.digitChar ∈ alphabet := by decide
  induction n using Nat.base_induction 16 (by decide) with
  | single m hm =>
    rw [chars, Nat.toDigits_of_lt_base hm, List.mem_singleton] at h
    exact h ▸ all m (List.mem_range.mpr hm)
  | digit m k hk hm ih =>
    rw [chars, ← Nat.toDigits_append_toDigits (by decide) hm hk, Nat.toDigits_of_lt_base hk,
      List.mem_append, List.mem_singleton] at h
    rcases h with h | rfl
    · exact ih h
    · exact all k (List.mem_range.mpr hk)

theorem isSome_digit?_of_mem_chars (h : c ∈ chars n) : (digit? c).isSome := by
  have all : alphabet.all (fun c => (digit? c).isSome) = true := by decide
  exact List.all_eq_true.mp all c (mem_alphabet_of_mem_chars h)

/-- A character outside the alphabet does not start a hexadecimal number. -/
theorem chars_ne_cons {rest : List Char} (h : c ∉ alphabet) : chars n ≠ c :: rest := by
  intro hc
  exact h (mem_alphabet_of_mem_chars (n := n) (by rw [hc]; exact List.mem_cons_self))

theorem read?_chars {bound : Nat} (h : n < bound) : read? bound (chars n) = some n := by
  unfold read?
  split
  · rename_i rest hc
    exact absurd hc (chars_ne_cons (by decide))
  · simp [chars_ne_nil, Option.filter, h]

/-- A number that reaches the bound is refused. -/
theorem read?_eq_none {bound : Nat} (h : bound ≤ n) : read? bound (chars n) = none := by
  unfold read?
  split
  · rename_i rest hc
    exact absurd hc (chars_ne_cons (by decide))
  · simp [chars_ne_nil, Option.filter, Nat.not_lt.mpr h]

end Hex

namespace Integer

theorem digit?_digitChar {d : Nat} (h : d < 10) : digit? d.digitChar = some d := by
  have all : ∀ d ∈ List.range 10, digit? d.digitChar = some d := by decide
  exact all d (List.mem_range.mpr h)

theorem value?_append_singleton (cs : List Char) (c : Char) :
    value? (cs ++ [c]) = (value? cs).bind fun n => (digit? c).map (n * 10 + ·) := by
  simp [value?]

/-- **A decimal number reads back as itself.** -/
@[simp] theorem value?_toDigits (n : Nat) : value? (Nat.toDigits 10 n) = some n := by
  induction n using Nat.base_induction 10 (by decide) with
  | single m hm =>
    rw [Nat.toDigits_of_lt_base hm]
    simp [value?, digit?_digitChar hm]
  | digit m k hk hm ih =>
    rw [← Nat.toDigits_append_toDigits (by decide) hm hk, Nat.toDigits_of_lt_base hk,
      value?_append_singleton]
    simp [ih, digit?_digitChar hk, Nat.mul_comm m 10]

theorem isDigit_of_mem_toDigits (h : c ∈ Nat.toDigits 10 n) : c.isDigit :=
  Nat.isDigit_of_mem_toDigits (by decide) (by decide) h

/-- A character that is no digit does not start a decimal number. -/
theorem toDigits_ne_cons {rest : List Char} (h : c.isDigit = false) :
    Nat.toDigits 10 n ≠ c :: rest := by
  intro hc
  have : c.isDigit := isDigit_of_mem_toDigits (n := n) (by rw [hc]; exact List.mem_cons_self)
  simp [h] at this

theorem toDigits_ne_zero_cons (h : 0 < n) (ds : List Char) : Nat.toDigits 10 n ≠ '0' :: ds := by
  induction n using Nat.base_induction 10 (by decide) generalizing ds with
  | single m hm =>
    have all : ∀ d ∈ List.range 10, 0 < d → d.digitChar ≠ '0' := by decide
    rw [Nat.toDigits_of_lt_base hm]
    intro hc
    exact all m (List.mem_range.mpr hm) h (List.cons.inj hc).1
  | digit m k hk hm ih =>
    rw [← Nat.toDigits_append_toDigits (by decide) hm hk]
    intro hc
    rcases List.append_eq_cons_iff.mp hc with ⟨hnil, -⟩ | ⟨tail, htail, -⟩
    · exact Nat.toDigits_ne_nil hnil
    · exact ih hm tail htail

/-- A decimal number of two digits or more does not start with zero. -/
theorem toDigits_ne_zero_cons_cons (n : Nat) (d : Char) (ds : List Char) :
    Nat.toDigits 10 n ≠ '0' :: d :: ds := by
  rcases Nat.eq_zero_or_pos n with rfl | h
  · simp
  · exact toDigits_ne_zero_cons h _

theorem grouped?_toDigits (n : Nat) : grouped? (Nat.toDigits 10 n) = some n := by
  have plain : (Nat.toDigits 10 n).filter (· != '_') = Nat.toDigits 10 n := by
    refine List.filter_eq_self.mpr fun c hc => ?_
    rw [bne_iff_ne]
    rintro rfl
    exact Nat.underscore_not_in_toDigits hc
  unfold grouped?
  split
  · rename_i hc
    exact absurd hc Nat.toDigits_ne_nil
  · rename_i hc
    exact absurd hc (toDigits_ne_cons (by decide))
  · rw [plain, value?_toDigits]

/-- **An integer reads back as itself**, whatever its size and sign. -/
theorem read?_toString (n : Int) : read? (toString n) = some n := by
  cases n with
  | ofNat n =>
    change read? (toString n) = _
    unfold read?
    rw [Nat.toString_eq_repr, Nat.toList_repr]
    split
    · rename_i hc
      exact absurd hc (toDigits_ne_cons (by decide))
    · rename_i hc
      exact absurd hc (toDigits_ne_cons (by decide))
    · rw [grouped?_toDigits]
      rfl
  | negSucc n =>
    have chars : (toString (Int.negSucc n)).toList = '-' :: Nat.toDigits 10 (n + 1) := by
      change ("-" ++ (n + 1).repr).toList = _
      simp
    unfold read?
    simp only [chars, grouped?_toDigits]
    rfl

end Integer

end GraphRows
