import GraphRows.Json.Printer
import GraphRows.Json.Reader
import GraphRows.Proofs.Text.Digits

/-!
# Printed numbers read back

A number ends where its text ends only if what follows cannot go on with it. Inside a printed value
a comma or a closing bracket follows, and at its end nothing; `Delimited` says that much and no
more.

Integers, positional decimals and decimals with an exponent are three ways to fill in one form,
`NumberText`: digits, a fraction, an exponent. The reader is run once, on the form.

## Main results

* `numberRest_chars`: the reader takes a number text whole and leaves what follows
* `exists_numberText_decimal`, `NumberText.chars_ofNat`: printed doubles and integers are number
  texts
-/

namespace GraphRows.Json

/-- A text that goes on with no number: nothing, or a comma or closing bracket first. -/
def Delimited : List Char → Prop
  | [] => True
  | c :: _ => c = ',' ∨ c = ']' ∨ c = '\x7d'

@[simp] theorem delimited_nil : Delimited [] := trivial

@[simp] theorem delimited_cons (c : Char) (rest : List Char) :
    Delimited (c :: rest) ↔ c = ',' ∨ c = ']' ∨ c = '\x7d' := Iff.rfl

/-- The digits at the start of a text are not affected by what is put behind, if that is no
digit. -/
theorem takeWhile_isDigit_append {ds rest : List Char} (hds : ∀ c ∈ ds, c.isDigit)
    (hrest : ∀ c cs, rest = c :: cs → c.isDigit = false) :
    (ds ++ rest).takeWhile Char.isDigit = ds := by
  rw [List.takeWhile_append_of_pos hds]
  cases rest with
  | nil => simp
  | cons c cs => simp [hrest c cs rfl]

theorem dropWhile_isDigit_append {ds rest : List Char} (hds : ∀ c ∈ ds, c.isDigit)
    (hrest : ∀ c cs, rest = c :: cs → c.isDigit = false) :
    (ds ++ rest).dropWhile Char.isDigit = rest := by
  rw [List.dropWhile_append_of_pos hds]
  cases rest with
  | nil => simp
  | cons c cs => simp [hrest c cs rfl]

/-- The text of an unsigned number by its parts. -/
structure NumberText where
  whole : List Char
  fraction : Option (List Char)
  /-- the sign and the digits of the exponent -/
  exponent : Option (Bool × Nat)
  whole_digits : whole ≠ [] ∧ ∀ c ∈ whole, c.isDigit
  fraction_digits : ∀ ds, fraction = some ds → ds ≠ [] ∧ ∀ c ∈ ds, c.isDigit

namespace NumberText

/-- The exponent with its mark and its sign. -/
def exponentChars : Option (Bool × Nat) → List Char
  | none => []
  | some (negative, n) => 'e' :: (if negative then '-' else '+') :: Nat.toDigits 10 n

/-- The fraction with its point. -/
def fractionChars : Option (List Char) → List Char
  | none => []
  | some ds => '.' :: ds

/-- The characters of the text. -/
def chars (t : NumberText) : List Char :=
  t.whole ++ fractionChars t.fraction ++ exponentChars t.exponent

/-- The exponent as a number. -/
def exponentValue : Option (Bool × Nat) → Option Int
  | none => none
  | some (negative, n) => some (if negative then -(n : Int) else n)

/-- What the text stands for, with the sign that stood before it. -/
def read (negative : Bool) (t : NumberText) : Except ReadError Json :=
  match t.whole with
  | '0' :: d :: _ => .error (.unexpected d)
  | _ => numberValue negative t.whole t.fraction (exponentValue t.exponent)

theorem exponentPart_chars (x : Option (Bool × Nat)) {rest : List Char} (h : Delimited rest) :
    exponentPart (exponentChars x ++ rest) = .ok (exponentValue x, rest) := by
  rcases x with _ | ⟨negative, n⟩
  · cases rest with
    | nil => rfl
    | cons c rest => rcases h with rfl | rfl | rfl <;> rfl
  · have hds : ∀ c ∈ Nat.toDigits 10 n, c.isDigit := fun c => Integer.isDigit_of_mem_toDigits
    have hrest : ∀ c cs, rest = c :: cs → c.isDigit = false := by
      rintro c cs rfl
      rcases h with rfl | rfl | rfl <;> rfl
    have htake := takeWhile_isDigit_append hds hrest
    have hdrop := dropWhile_isDigit_append hds hrest
    obtain ⟨d, ds, hcons⟩ := List.exists_cons_of_ne_nil (Nat.toDigits_ne_nil (b := 10) (n := n))
    cases negative
    · simp only [exponentChars, List.cons_append, exponentPart, beq_self_eq_true,
        Bool.true_or, if_true, Bool.false_eq_true, if_false, htake, hdrop, Integer.value?_toDigits,
          exponentValue]
      rw [hcons]
    · simp only [exponentChars, List.cons_append, exponentPart, beq_self_eq_true,
        Bool.true_or, if_true, htake, hdrop, Integer.value?_toDigits, exponentValue]
      rw [hcons]

/-- Neither an exponent nor what may follow a number starts with a digit or a point. -/
theorem exponentChars_append_head (x : Option (Bool × Nat)) {rest : List Char}
    (h : Delimited rest) :
    ∀ c cs, exponentChars x ++ rest = c :: cs → c.isDigit = false ∧ c ≠ '.' := by
  rcases x with _ | ⟨negative, n⟩
  · rintro c cs rfl
    rcases h with rfl | rfl | rfl <;> decide
  · intro c cs hc
    simp only [exponentChars, List.cons_append, List.cons.injEq] at hc
    rw [← hc.1]
    decide

theorem fractionPart_chars {f : Option (List Char)}
    (hf : ∀ ds, f = some ds → ds ≠ [] ∧ ∀ c ∈ ds, c.isDigit) (x : Option (Bool × Nat))
    {rest : List Char} (h : Delimited rest) :
    fractionPart (fractionChars f ++ (exponentChars x ++ rest)) =
      .ok (f, exponentChars x ++ rest) := by
  have hhead := exponentChars_append_head x h
  cases f with
  | none =>
    simp only [fractionChars, List.nil_append]
    unfold fractionPart
    split
    · rename_i hc
      exact absurd rfl (hhead _ _ hc).2
    · rfl
  | some ds =>
    obtain ⟨hne, hds⟩ := hf ds rfl
    simp only [fractionChars, List.cons_append, fractionPart]
    rw [takeWhile_isDigit_append hds fun c cs hc => (hhead c cs hc).1,
      dropWhile_isDigit_append hds fun c cs hc => (hhead c cs hc).1]
    simp [hne]

/-- **A number text is taken whole**: the reader gives what it stands for and leaves what
follows. -/
theorem numberRest_chars (negative : Bool) (t : NumberText) {rest : List Char}
    (h : Delimited rest) :
    numberRest negative (t.chars ++ rest) = (t.read negative).map (·, rest) := by
  obtain ⟨hne, hds⟩ := t.whole_digits
  have hhead : ∀ c cs, fractionChars t.fraction ++ (exponentChars t.exponent ++ rest) = c :: cs →
      c.isDigit = false := by
    intro c cs hc
    cases hf : t.fraction with
    | none =>
      rw [hf] at hc
      exact (exponentChars_append_head t.exponent h c cs hc).1
    | some ds =>
      rw [hf] at hc
      simp only [fractionChars, List.cons_append, List.cons.injEq] at hc
      rw [← hc.1]
      decide
  have htake := takeWhile_isDigit_append hds hhead
  have hdrop := dropWhile_isDigit_append hds hhead
  unfold numberRest read
  simp only [chars, List.append_assoc, htake, hdrop]
  generalize hw : t.whole = whole
  split
  · exact absurd hw hne
  · rfl
  · rw [fractionPart_chars t.fraction_digits _ h]
    simp only [bind, Except.bind, exponentPart_chars _ h]
    cases numberValue negative whole t.fraction (exponentValue t.exponent) <;> rfl

/-- The digits of a natural number. -/
def ofNat (n : Nat) : NumberText where
  whole := Nat.toDigits 10 n
  fraction := none
  exponent := none
  whole_digits := ⟨Nat.toDigits_ne_nil, fun _ => Integer.isDigit_of_mem_toDigits⟩
  fraction_digits := by simp

@[simp] theorem chars_ofNat (n : Nat) : (ofNat n).chars = Nat.toDigits 10 n := by
  simp [chars, ofNat, fractionChars, exponentChars]

end NumberText

/-- Digits with their point in place are a number text. -/
theorem exists_numberText_positional {digits : List Char} (hne : digits ≠ [])
    (hds : ∀ c ∈ digits, c.isDigit) (lead : Int) :
    ∃ t : NumberText, Decimal.positionalText digits lead true = t.chars := by
  have hzeros : ∀ n, ∀ c ∈ List.replicate n '0', c.isDigit := by
    intro n c hc
    rw [List.eq_of_mem_replicate hc]
    decide
  unfold Decimal.positionalText
  dsimp only
  split
  · refine ⟨⟨['0'], some (List.replicate (-lead - 1).toNat '0' ++ digits), none, by simp, ?_⟩, ?_⟩
    · rintro ds ⟨⟩
      refine ⟨by simp [hne], fun c hc => ?_⟩
      exact (List.mem_append.mp hc).elim (hzeros _ c) (hds c)
    · simp [NumberText.chars, NumberText.fractionChars, NumberText.exponentChars]
  · split
    · refine ⟨⟨digits ++ List.replicate (lead.toNat + 1 - digits.length) '0', some ['0'],
        none, ?_, ?_⟩, ?_⟩
      · refine ⟨by simp [hne], fun c hc => ?_⟩
        exact (List.mem_append.mp hc).elim (hds c) (hzeros _ c)
      · rintro ds ⟨⟩
        simp
      · simp [NumberText.chars, NumberText.fractionChars, NumberText.exponentChars]
    · rename_i hlong
      refine ⟨⟨digits.take (lead.toNat + 1), some (digits.drop (lead.toNat + 1)), none, ?_, ?_⟩, ?_⟩
      · exact ⟨by simp [hne], fun c hc => hds c (List.mem_of_mem_take hc)⟩
      · rintro ds ⟨⟩
        refine ⟨?_, fun c hc => hds c (List.mem_of_mem_drop hc)⟩
        rw [Ne, List.drop_eq_nil_iff]
        omega
      · simp [NumberText.chars, NumberText.fractionChars, NumberText.exponentChars]

/-- Digits with an exponent are a number text. -/
theorem exists_numberText_scientific {digits : List Char} (hne : digits ≠ [])
    (hds : ∀ c ∈ digits, c.isDigit) (lead : Int) :
    ∃ t : NumberText, Decimal.scientificText digits lead = t.chars := by
  match digits with
  | [d] =>
    refine ⟨⟨[d], none, some (lead < 0, lead.natAbs), ⟨by simp, hds⟩, by simp⟩, ?_⟩
    simp [Decimal.scientificText, NumberText.chars, NumberText.fractionChars,
      NumberText.exponentChars]
  | d :: e :: ds =>
    refine ⟨⟨[d], some (e :: ds), some (lead < 0, lead.natAbs), ⟨by simp, ?_⟩, ?_⟩, ?_⟩
    · intro c hc
      exact hds c (List.mem_singleton.mp hc ▸ List.mem_cons_self)
    · rintro _ ⟨⟩
      exact ⟨by simp, fun c hc => hds c (List.mem_cons_of_mem d hc)⟩
    · simp [Decimal.scientificText, NumberText.chars, NumberText.fractionChars,
        NumberText.exponentChars]

/-- The text of a decimal is a number text. -/
theorem exists_numberText_decimal (d : Decimal) :
    ∃ t : NumberText, d.chars numberLayout = t.chars := by
  have hne : Nat.toDigits 10 d.digits ≠ [] := Nat.toDigits_ne_nil
  have hds : ∀ c ∈ Nat.toDigits 10 d.digits, c.isDigit := fun _ => Integer.isDigit_of_mem_toDigits
  unfold Decimal.chars
  dsimp only
  split
  · exact exists_numberText_positional hne hds _
  · exact exists_numberText_scientific hne hds _

end GraphRows.Json
