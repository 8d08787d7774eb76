import GraphRows.Proofs.Json.Numbers

/-!
# Printed JSON reads back

What the reader makes of a printed value can be said without any text: `readBack` computes it from
the value. It is the value itself, but for numbers that have no exact notation and for nesting
beyond the limit. One induction over the value, for every text that may follow, shows that the
reader agrees with it; everything else is about `readBack` alone.

## Main results

* `distinct_of_read`: no object that was read repeats a key
* `read_print`: reading a printed value is `readBack`, with repeated keys merged
* `read_print_of_portable`: a portable value reads back as itself
-/

namespace GraphRows.Json

/-! ### Strings -/

theorem escape_controlChar {c : Char} (h : c.toNat < 0x20) (rest : List Char) :
    escape ('u' :: '0' :: '0' :: (Hex.padded 2 c.toNat).toList ++ rest) = .ok (c, rest) := by
  have small : ∀ n ∈ List.range 0x20,
      (List.replicate (2 - (Hex.chars (n % Nat.pow 16 2)).length) '0' ++ Hex.chars
        (n % Nat.pow 16 2)).length = 2 ∧
        Hex.value? ('0' :: '0' :: (List.replicate (2 - (Hex.chars (n % Nat.pow 16 2)).length) '0' ++
          Hex.chars (n % Nat.pow 16 2))) = some n := by decide +kernel
  obtain ⟨hlength, hvalue⟩ := small c.toNat (List.mem_range.mpr h)
  have two : ∀ cs : List Char, cs.length = 2 → ∃ a b, cs = [a, b] := by
    rintro (_ | ⟨a, _ | ⟨b, _ | ⟨_, _⟩⟩⟩) hcs <;> simp at hcs
    exact ⟨a, b, rfl⟩
  obtain ⟨a, b, hpadded⟩ := two _ hlength
  rw [hpadded] at hvalue
  have low : ¬ (0xDC00 ≤ c.toNat ∧ c.toNat ≤ 0xDFFF) ∧
    ¬ (0xD800 ≤ c.toNat ∧ c.toNat ≤ 0xDBFF) := by omega
  simp only [Hex.padded, String.toList_ofList, hpadded, List.cons_append, List.nil_append, escape,
    unicodeEscape, hex4, hvalue, bind, Except.bind, Bool.and_eq_true, decide_eq_true_eq, low.1,
      low.2, if_false, Char.ofNat_toNat]
  rfl

/-- A character stands for itself, or it is escaped and the escape reads back as it. -/
theorem escapeChar_cases (c : Char) :
    (escapeChar c = [c] ∧ c ≠ '"' ∧ c ≠ '\\' ∧ ¬ c.toNat < 0x20) ∨
      ∃ tail, escapeChar c = '\\' :: tail ∧ ∀ rest, escape (tail ++ rest) = .ok (c, rest) := by
  unfold escapeChar
  split
  case h_8 hquote hslash _ _ _ _ _ =>
    by_cases hlow : c.toNat < 0x20
    · refine .inr ⟨'u' :: '0' :: '0' :: (Hex.padded 2 c.toNat).toList, by
        simp [hlow], fun rest => ?_⟩
      exact escape_controlChar hlow rest
    · exact .inl ⟨by simp [hlow], fun h => hquote h, fun h => hslash h, hlow⟩
  all_goals exact .inr ⟨_, rfl, fun _ => rfl⟩

/-- **A printed string reads back**, given a turn for each of its characters and one for the closing
quote. -/
theorem stringRest_escaped (s : List Char) {fuel : Nat} (h : s.length < fuel)
    (acc rest : List Char) :
    stringRest fuel acc (s.flatMap escapeChar ++ '"' :: rest) =
      .ok (String.ofList (acc.reverse ++ s), rest) := by
  induction s generalizing fuel acc with
  | nil =>
    obtain ⟨fuel, rfl⟩ := Nat.exists_eq_add_of_lt h
    simp [stringRest]
  | cons c s ih =>
    obtain ⟨fuel, rfl⟩ : ∃ k, fuel = k + 1 := ⟨fuel - 1, by simp at h; omega⟩
    have hs : s.length < fuel := by simpa using h
    rcases escapeChar_cases c with ⟨hc, hquote, hslash, hlow⟩ | ⟨tail, hc, htail⟩
    · simp only [List.flatMap_cons, hc, List.cons_append, List.nil_append, stringRest, beq_iff_eq,
        hquote, hslash, hlow, if_false, ih hs, List.reverse_cons, List.append_assoc]
    · simp only [List.flatMap_cons, hc, List.cons_append, List.append_assoc, stringRest,
        beq_iff_eq, htail, bind, Except.bind, ih hs]
      simp

theorem length_le_length_escaped (s : List Char) : s.length ≤ (s.flatMap escapeChar).length := by
  induction s with
  | nil => simp
  | cons c s ih =>
    have : 1 ≤ (escapeChar c).length := by
      rcases escapeChar_cases c with ⟨hc, -⟩ | ⟨tail, hc, -⟩ <;> simp [hc]
    simp only [List.flatMap_cons, List.length_append, List.length_cons]
    omega

theorem length_stringChars (s : String) : s.toList.length + 2 ≤ (stringChars s).length := by
  have := length_le_length_escaped s.toList
  simp only [stringChars, List.cons_append, List.length_cons, List.length_append, List.length_nil]
  omega

/-! ### Values -/

/-- What reading the text of an integer gives. -/
def intBack (n : Int) : Except ReadError Json := (NumberText.ofNat n.natAbs).read (n < 0)

/-- What reading the text of a double gives. -/
def floatBack (x : Double) : Except ReadError Json :=
  if x.isFinite then (numberRest x.isNegative ((Decimal.shortest .toEven x).chars numberLayout)).map
    Prod.fst
  else .ok .null

mutual

/-- What reading a printed value gives when `depth` levels of nesting are left. -/
def readBack : Json → Nat → Except ReadError Json
  | .null, _ => .ok .null
  | .bool b, _ => .ok (.bool b)
  | .int n, _ => intBack n
  | .float x, _ => floatBack x
  | .str s, _ => .ok (.str s)
  | .arr _, 0 => .error .tooDeep
  | .arr items, depth + 1 => (readBackItems items depth).map .arr
  | .obj _, 0 => .error .tooDeep
  | .obj fields, depth + 1 => (readBackFields fields depth).map .obj

/-- The items of an array read back, up to the first that fails. -/
def readBackItems : List Json → Nat → Except ReadError (List Json)
  | [], _ => .ok []
  | j :: rest, depth =>
    match readBack j depth with
    | .error e => .error e
    | .ok j => (readBackItems rest depth).map (j :: ·)

/-- The fields of an object read back, up to the first that fails. -/
def readBackFields : List (String × Json) → Nat → Except ReadError (List (String × Json))
  | [], _ => .ok []
  | (k, j) :: rest, depth =>
    match readBack j depth with
    | .error e => .error e
    | .ok j => (readBackFields rest depth).map ((k, j) :: ·)

end

/-- The text of an integer: its sign, then the digits of its magnitude. -/
theorem chars_int (n : Int) :
    chars (.int n) = (if n < 0 then ['-'] else []) ++ (NumberText.ofNat n.natAbs).chars := by
  rw [NumberText.chars_ofNat]
  cases n with
  | ofNat n =>
    have : ¬ Int.ofNat n < 0 := by simp
    simp only [chars, this, if_false, List.nil_append]
    change (toString n).toList = _
    rw [Nat.toString_eq_repr, Nat.toList_repr]
    rfl
  | negSucc n =>
    have : Int.negSucc n < 0 := Int.negSucc_lt_zero n
    simp only [chars, this, if_true]
    change ("-" ++ (n + 1).repr).toList = _
    simp

/-- The text of a finite double: its sign, then a number text that stands for what the double reads
back as. -/
theorem chars_float {x : Double} (h : x.isFinite) :
    ∃ t : NumberText, chars (.float x) = (if x.isNegative then ['-'] else []) ++ t.chars ∧
      floatBack x = t.read x.isNegative := by
  obtain ⟨t, ht⟩ := exists_numberText_decimal (Decimal.shortest .toEven x)
  refine ⟨t, ?_, ?_⟩
  · simp only [chars, floatChars, h, if_true, Double.chars]
    rw [← ht]
    rfl
  · have := t.numberRest_chars x.isNegative delimited_nil
    rw [List.append_nil] at this
    rw [floatBack, if_pos h, ht, this]
    cases t.read x.isNegative <;> rfl

/-- A number text starts with a digit. -/
theorem NumberText.chars_eq_cons (t : NumberText) : ∃ c cs, t.chars = c :: cs ∧ c.isDigit := by
  obtain ⟨hne, hds⟩ := t.whole_digits
  obtain ⟨c, cs, hc⟩ := List.exists_cons_of_ne_nil hne
  refine ⟨c, _, by rw [NumberText.chars, hc]; rfl, hds c (hc ▸ List.mem_cons_self)⟩

theorem isBlank_of_isDigit {c : Char} (h : c.isDigit) : isBlank c = false := by
  simp only [isBlank, Bool.or_eq_false_iff, beq_eq_false_iff_ne]
  refine ⟨⟨⟨?_, ?_⟩, ?_⟩, ?_⟩ <;> rintro rfl <;> exact absurd h (by decide)

theorem value_of_isDigit {c : Char} (h : c.isDigit) (fuel depth : Nat) (cs : List Char) :
    value (fuel + 1) depth (c :: cs) = numberRest false (c :: cs) := by
  have hne : ∀ b : Char, b.isDigit = false → (c == b) = false := by
    intro b hb
    rw [beq_eq_false_iff_ne]
    rintro rfl
    simp [h] at hb
  have hskip : skip (c :: cs) = c :: cs := by simp [skip, isBlank_of_isDigit h]
  simp only [value, hskip, hne '"' rfl, hne '[' rfl, hne '\x7b' rfl, hne '-' rfl, h, if_true,
    Bool.false_eq_true, if_false]

/-- **The reader takes a signed number text whole.** -/
theorem value_numberText (t : NumberText) (negative : Bool) {fuel : Nat} (hfuel : 0 < fuel)
    (depth : Nat) {rest : List Char} (h : Delimited rest) :
    value fuel depth ((if negative then ['-'] else []) ++ t.chars ++ rest) =
      (t.read negative).map (·, rest) := by
  obtain ⟨fuel, rfl⟩ : ∃ k, fuel = k + 1 := ⟨fuel - 1, by omega⟩
  rw [← t.numberRest_chars negative h]
  cases negative with
  | false =>
    obtain ⟨c, cs, hc, hdigit⟩ := t.chars_eq_cons
    simp only [Bool.false_eq_true, if_false, List.nil_append, hc, List.cons_append]
    exact value_of_isDigit hdigit fuel depth _
  | true => rfl

/-- The characters a printed value may start with: no blank, no closing bracket, no letter of a
tag. -/
def firstChars : List Char := "ntf-0123456789\"[\x7b".toList

theorem chars_eq_cons (j : Json) : ∃ c cs, chars j = c :: cs ∧ c ∈ firstChars := by
  have hdigit : ∀ c : Char, c.isDigit → c ∈ firstChars := by
    intro c hc
    have hrange : 48 ≤ c.toNat ∧ c.toNat ≤ 57 := by simpa [Char.isDigit,
      UInt32.le_iff_toNat_le] using hc
    have all : ∀ n ∈ List.range 10, Char.ofNat (48 + n) ∈ firstChars := by decide
    have := all (c.toNat - 48) (List.mem_range.mpr (by omega))
    rwa [show 48 + (c.toNat - 48) = c.toNat by omega, Char.ofNat_toNat] at this
  have number : ∀ (t : NumberText) (negative : Bool), ∃ c cs,
      (if negative then ['-'] else []) ++ t.chars = c :: cs ∧ c ∈ firstChars := by
    intro t negative
    obtain ⟨c, cs, hc, hd⟩ := t.chars_eq_cons
    cases negative with
    | true => exact ⟨'-', t.chars, rfl, by decide⟩
    | false => exact ⟨c, cs, by simp [hc], hdigit c hd⟩
  cases j with
  | null => exact ⟨_, _, rfl, by decide⟩
  | bool b => cases b <;> exact ⟨_, _, rfl, by decide⟩
  | int n =>
    obtain ⟨c, cs, hc, hmem⟩ := number (.ofNat n.natAbs) (n < 0)
    exact ⟨c, cs, by rw [chars_int, ← hc]; simp, hmem⟩
  | float x =>
    by_cases h : x.isFinite
    · obtain ⟨t, ht, -⟩ := chars_float h
      exact ht ▸ number t x.isNegative
    · exact ⟨'n', _, by rw [chars, floatChars, if_neg h]; rfl, by decide⟩
  | str s => exact ⟨_, _, rfl, by decide⟩
  | arr items => exact ⟨_, _, rfl, by decide⟩
  | obj fields => exact ⟨_, _, rfl, by decide⟩

theorem not_isBlank_of_mem_firstChars {c : Char} (h : c ∈ firstChars) : isBlank c = false := by
  have all : firstChars.all (fun c => !isBlank c) = true := by decide
  simpa using List.all_eq_true.mp all c h

/-- The fuel of the reader is spent one unit a turn, and every turn but that of an item or a field
takes a character. -/
private theorem pred_of_length {n m : Nat} (h : n < m) : ∃ k, m = k + 1 ∧ n ≤ k := ⟨m - 1, by omega⟩

theorem stringRest_stringChars (s : String) (fuel : Nat) (h : (stringChars s).length ≤ fuel + 1)
    (rest : List Char) :
    stringRest fuel [] (s.toList.flatMap escapeChar ++ '"' :: rest) = .ok (s, rest) := by
  have := length_stringChars s
  rw [stringRest_escaped s.toList (by omega)]
  simp

theorem value_arr {cs : List Char} (h : ∀ rest, skip cs ≠ ']' :: rest) (fuel depth : Nat) :
    value (fuel + 1) (depth + 1) ('[' :: cs) = (items fuel depth cs).map fun p =>
      (.arr p.1, p.2) := by
  have hskip : skip ('[' :: cs) = '[' :: cs := rfl
  simp only [value, hskip]
  rw [if_neg (by decide), if_pos (by decide)]
  cases items fuel depth cs <;> rfl

theorem value_obj {cs : List Char} (h : ∀ rest, skip cs ≠ '\x7d' :: rest) (fuel depth : Nat) :
    value (fuel + 1) (depth + 1) ('\x7b' :: cs) = (fields fuel depth cs).map fun p =>
      (.obj p.1, p.2) := by
  have hskip : skip ('\x7b' :: cs) = '\x7b' :: cs := rfl
  simp only [value, hskip]
  rw [if_neg (by decide), if_neg (by decide), if_pos (by decide)]
  cases fields fuel depth cs <;> rfl

mutual

/-- **The reader agrees with `readBack`** on a printed value, whatever may follow it. -/
theorem value_chars : ∀ (j : Json) (fuel depth : Nat) (rest : List Char), (chars j).length ≤ fuel →
    Delimited rest → value fuel depth (chars j ++ rest) = (readBack j depth).map (·, rest)
  | .null, fuel, depth, rest, hfuel, _ => by
    obtain ⟨k, rfl, -⟩ := pred_of_length (n := 0) (m := fuel) (by simp [chars] at hfuel; omega)
    rfl
  | .bool b, fuel, depth, rest, hfuel, _ => by
    obtain ⟨k, rfl, -⟩ := pred_of_length (n := 0) (m := fuel)
      (by cases b <;> simp [chars] at hfuel <;> omega)
    cases b <;> rfl
  | .int n, fuel, depth, rest, hfuel, hrest => by
    obtain ⟨c, cs, hc, -⟩ := chars_eq_cons (.int n)
    rw [hc, List.length_cons] at hfuel
    have := value_numberText (.ofNat n.natAbs) (n < 0) (show 0 < fuel by omega) depth hrest
    simpa only [chars_int, readBack, intBack, decide_eq_true_eq] using this
  | .float x, fuel, depth, rest, hfuel, hrest => by
    obtain ⟨c, cs, hc, -⟩ := chars_eq_cons (.float x)
    rw [hc, List.length_cons] at hfuel
    by_cases h : x.isFinite
    · obtain ⟨t, ht, hback⟩ := chars_float h
      rw [ht, readBack, hback]
      exact value_numberText t x.isNegative (by omega) depth hrest
    · obtain ⟨k, rfl, -⟩ := pred_of_length (n := 0) (m := fuel) (by omega)
      rw [readBack, floatBack, if_neg h, chars, floatChars, if_neg h]
      rfl
  | .str s, fuel, depth, rest, hfuel, _ => by
    have := length_stringChars s
    rw [chars] at hfuel
    obtain ⟨k, rfl, -⟩ := pred_of_length (n := 0) (m := fuel) (by omega)
    have hread := stringRest_stringChars s k hfuel rest
    simp only [chars, stringChars, List.cons_append, List.append_assoc, List.nil_append]
    simp [value, skip, isBlank, hread, readBack, bind, Except.bind, Except.map, pure, Except.pure]
  | .arr items, fuel, depth, rest, hfuel, hrest => by
    simp only [chars, List.cons_append, List.length_cons, List.length_append,
      List.length_nil] at hfuel
    obtain ⟨k, rfl, hk⟩ := pred_of_length (n := (itemChars items).length + 1) (m := fuel) (by omega)
    simp only [chars, List.cons_append, List.append_assoc, List.nil_append]
    cases depth with
    | zero => simp [value, skip, isBlank, readBack, Except.map]
    | succ depth =>
      match items with
      | [] => simp [value, skip, isBlank, readBack, readBackItems, itemChars, Except.map]
      | j :: js =>
        have hitems := items_chars (j :: js) (by simp) k depth hk rest
        have hhead : ∀ cs, skip (itemChars (j :: js) ++ ']' :: rest) ≠ ']' :: cs := by
          obtain ⟨c, cs, hc, hmem⟩ := chars_eq_cons j
          have hne : c ≠ ']' := by
            rintro rfl
            exact absurd hmem (by decide)
          intro cs'
          cases js <;> simp [itemChars, skip, hc, not_isBlank_of_mem_firstChars hmem, hne]
        rw [value_arr hhead, hitems, readBack]
        cases readBackItems (j :: js) depth <;> rfl
  | .obj fields, fuel, depth, rest, hfuel, hrest => by
    simp only [chars, List.cons_append, List.length_cons, List.length_append,
      List.length_nil] at hfuel
    obtain ⟨k, rfl, hk⟩ := pred_of_length (n := (fieldChars fields).length + 1)
      (m := fuel) (by omega)
    simp only [chars, List.cons_append, List.append_assoc, List.nil_append]
    cases depth with
    | zero => simp [value, skip, isBlank, readBack, Except.map]
    | succ depth =>
      match fields with
      | [] => simp [value, skip, isBlank, readBack, readBackFields, fieldChars, Except.map]
      | (key, j) :: fs =>
        have hfields := fields_chars ((key, j) :: fs) (by simp) k depth hk rest
        have hhead : ∀ cs, skip (fieldChars ((key, j) :: fs) ++ '\x7d' :: rest) ≠ '\x7d' :: cs := by
          intro cs
          cases fs <;> simp [fieldChars, skip, stringChars, isBlank]
        rw [value_obj hhead, hfields, readBack]
        cases readBackFields ((key, j) :: fs) depth <;> rfl

/-- The reader agrees with `readBackItems` on the items of an array up to its closing bracket. -/
theorem items_chars : ∀ (js : List Json), js ≠ [] → ∀ (fuel depth : Nat),
    (itemChars js).length < fuel → ∀ (rest : List Char),
      items fuel depth (itemChars js ++ ']' :: rest) = (readBackItems js depth).map (·, rest)
  | [j], _, fuel, depth, hfuel, rest => by
    obtain ⟨k, rfl, hk⟩ := pred_of_length hfuel
    simp only [itemChars] at hk ⊢
    have hj := value_chars j k depth (']' :: rest) hk (by simp)
    simp only [items, hj, readBackItems]
    cases readBack j depth <;> rfl
  | j :: k :: js, _, fuel, depth, hfuel, rest => by
    obtain ⟨n, rfl, hn⟩ := pred_of_length hfuel
    simp only [itemChars, List.length_append, List.length_cons] at hn
    have hj := value_chars j n depth (',' :: (itemChars (k :: js) ++ ']' :: rest))
      (by omega) (by simp)
    have hjs := items_chars (k :: js) (by simp) n depth (by omega) rest
    simp only [itemChars, List.append_assoc, List.cons_append, items, hj]
    rw [readBackItems]
    cases readBack j depth with
    | error e => rfl
    | ok j' =>
      change (items n depth (itemChars (k :: js) ++ ']' :: rest) >>= fun p =>
        pure (j' :: p.1, p.2)) = _
      rw [hjs]
      cases readBackItems (k :: js) depth <;> rfl

/-- The reader agrees with `readBackFields` on the fields of an object up to its closing brace. -/
theorem fields_chars : ∀ (fs : List (String × Json)), fs ≠ [] → ∀ (fuel depth : Nat),
    (fieldChars fs).length < fuel → ∀ (rest : List Char),
      fields fuel depth (fieldChars fs ++ '\x7d' :: rest) = (readBackFields fs depth).map (·, rest)
  | [(key, j)], _, fuel, depth, hfuel, rest => by
    obtain ⟨n, rfl, hn⟩ := pred_of_length hfuel
    simp only [fieldChars, List.length_append, List.length_cons] at hn
    have hj := value_chars j n depth ('\x7d' :: rest) (by omega) (by simp)
    have hkey := stringRest_stringChars key n (by omega) (':' :: (chars j ++ '\x7d' :: rest))
    simp only [fieldChars, stringChars, List.append_assoc, List.cons_append, List.nil_append]
    change (stringRest n [] _ >>= _) = _
    rw [hkey]
    change (value n depth (chars j ++ '\x7d' :: rest) >>= _) = _
    rw [hj, readBackFields]
    cases readBack j depth <;> rfl
  | (key, j) :: f :: fs, _, fuel, depth, hfuel, rest => by
    obtain ⟨n, rfl, hn⟩ := pred_of_length hfuel
    simp only [fieldChars, List.length_append, List.length_cons] at hn
    have hj := value_chars j n depth (',' :: (fieldChars (f :: fs) ++ '\x7d' :: rest)) (by omega)
      (by simp)
    have hfs := fields_chars (f :: fs) (by simp) n depth (by omega) rest
    have hkey := stringRest_stringChars key n (by omega)
      (':' :: (chars j ++ ',' :: (fieldChars (f :: fs) ++ '\x7d' :: rest)))
    simp only [fieldChars, stringChars, List.append_assoc, List.cons_append, List.nil_append]
    change (stringRest n [] _ >>= _) = _
    rw [hkey]
    change (value n depth (chars j ++ ',' :: (fieldChars (f :: fs) ++ '\x7d' :: rest)) >>= _) = _
    rw [hj, readBackFields]
    cases readBack j depth with
    | error e => rfl
    | ok j' =>
      change (fields n depth (fieldChars (f :: fs) ++ '\x7d' :: rest) >>= fun p =>
        pure ((key, j') :: p.1, p.2)) = _
      rw [hfs]
      cases readBackFields (f :: fs) depth <;> rfl

end

/-- **Reading a printed text** is `readBack` with repeated keys merged. -/
theorem read_print (j : Json) : read (print j) = (readBack j depthLimit).map merge := by
  have hvalue := value_chars j ((chars j).length + 1) depthLimit [] (by omega) delimited_nil
  rw [List.append_nil] at hvalue
  simp only [read, readRaw, print, String.toList_ofList, hvalue]
  cases readBack j depthLimit <;> rfl

/-! ### Portable values -/

mutual

/-- How deep arrays and objects nest. -/
def depth : Json → Nat
  | .arr items => depthItems items + 1
  | .obj fields => depthFields fields + 1
  | _ => 0

/-- How deep the deepest of some values nests. -/
def depthItems : List Json → Nat
  | [] => 0
  | j :: rest => max (depth j) (depthItems rest)

/-- How deep the deepest of some fields nests. -/
def depthFields : List (String × Json) → Nat
  | [] => 0
  | (_, j) :: rest => max (depth j) (depthFields rest)

end

mutual

/-- A value with one notation and one reading: its numbers are integers that are kept as such, and
no key repeats. -/
def Portable : Json → Prop
  | .int n => fitsInt n = true
  | .float _ => False
  | .arr items => PortableItems items
  | .obj fields => (fields.map Prod.fst).Nodup ∧ PortableFields fields
  | _ => True

/-- Every one of some values is portable. -/
def PortableItems : List Json → Prop
  | [] => True
  | j :: rest => Portable j ∧ PortableItems rest

/-- The value of every one of some fields is portable. -/
def PortableFields : List (String × Json) → Prop
  | [] => True
  | (_, j) :: rest => Portable j ∧ PortableFields rest

end

theorem intBack_of_fitsInt {n : Int} (h : fitsInt n) : intBack n = .ok (.int n) := by
  have hsigned : (if n < 0 then -(n.natAbs : Int) else n.natAbs) = n := by
    split <;> omega
  have hzero : (decide (n < 0) && n.natAbs == 0) = false := by
    rw [Bool.and_eq_false_iff, decide_eq_false_iff_not, beq_eq_false_iff_ne]
    omega
  unfold intBack NumberText.read
  split
  · rename_i d ds hds
    exact absurd hds (Integer.toDigits_ne_zero_cons_cons _ _ _)
  · change numberValue (decide (n < 0)) (Nat.toDigits 10 n.natAbs) none none = _
    simp only [numberValue, Option.getD_none, List.append_nil, Integer.value?_toDigits,
      Option.getD_some, Option.isNone_none,
      Bool.true_and, decide_eq_true_eq, hsigned, h, hzero, Bool.not_false, if_true]

mutual

theorem readBack_of_portable : ∀ {j : Json} {limit : Nat}, Portable j → depth j ≤ limit →
    readBack j limit = .ok j
  | .null, _, _, _ => rfl
  | .bool _, _, _, _ => rfl
  | .int _, _, h, _ => intBack_of_fitsInt h
  | .float _, _, h, _ => h.elim
  | .str _, _, _, _ => rfl
  | .arr items, 0, _, hd => by simp [depth] at hd
  | .arr items, limit + 1, h, hd => by
    have hitems : readBackItems items limit = .ok items :=
      readBackItems_of_portable h (by simpa [depth] using hd)
    simp [readBack, hitems, Except.map]
  | .obj fields, 0, _, hd => by simp [depth] at hd
  | .obj fields, limit + 1, h, hd => by
    have hfields : readBackFields fields limit = .ok fields :=
      readBackFields_of_portable h.2 (by simpa [depth] using hd)
    simp [readBack, hfields, Except.map]

theorem readBackItems_of_portable : ∀ {js : List Json} {limit : Nat}, PortableItems js →
    depthItems js ≤ limit → readBackItems js limit = .ok js
  | [], _, _, _ => rfl
  | j :: js, limit, h, hd => by
    rw [depthItems, Nat.max_le] at hd
    simp [readBackItems, readBack_of_portable h.1 hd.1, readBackItems_of_portable h.2
      hd.2, Except.map]

theorem readBackFields_of_portable : ∀ {fs : List (String × Json)} {limit : Nat},
    PortableFields fs → depthFields fs ≤ limit → readBackFields fs limit = .ok fs
  | [], _, _, _ => rfl
  | (k, j) :: fs, limit, h, hd => by
    rw [depthFields, Nat.max_le] at hd
    simp [readBackFields, readBack_of_portable h.1 hd.1, readBackFields_of_portable h.2
      hd.2, Except.map]

end

theorem setField_of_notMem {α : Type} {key : String} {fields : List (String × α)}
    (h : key ∉ fields.map Prod.fst) (v : α) : setField key v fields = fields ++ [(key, v)] := by
  induction fields with
  | nil => rfl
  | cons field rest ih =>
    obtain ⟨k, w⟩ := field
    simp only [List.map_cons, List.mem_cons, not_or] at h
    have hne : (k == key) = false := beq_eq_false_iff_ne.mpr (Ne.symm h.1)
    simp [setField, hne, ih h.2]

/-- Fields whose keys do not repeat are merged already. -/
theorem mergeFields_of_nodup {α : Type} {fields : List (String × α)}
    (h : (fields.map Prod.fst).Nodup) : mergeFields fields = fields := by
  have main : ∀ (todo acc : List (String × α)), ((acc ++ todo).map Prod.fst).Nodup →
      todo.foldl (fun acc field => setField field.1 field.2 acc) acc = acc ++ todo := by
    intro todo
    induction todo with
    | nil => simp
    | cons field rest ih =>
      intro acc hnodup
      obtain ⟨k, v⟩ := field
      have hk : k ∉ acc.map Prod.fst := by
        rw [List.map_append, List.nodup_append] at hnodup
        intro hmem
        exact hnodup.2.2 k hmem k (by simp) rfl
      have happend : acc ++ [(k, v)] ++ rest = acc ++ (k, v) :: rest := by simp
      rw [List.foldl_cons]
      change rest.foldl _ (setField k v acc) = _
      rw [setField_of_notMem hk, ih _ (happend ▸ hnodup), happend]
  simpa [mergeFields] using main fields [] (by simpa using h)

mutual

theorem merge_of_portable : ∀ {j : Json}, Portable j → merge j = j
  | .null, _ => rfl
  | .bool _, _ => rfl
  | .int _, _ => rfl
  | .float _, h => h.elim
  | .str _, _ => rfl
  | .arr items, h => by rw [merge, mergeList_of_portable h]
  | .obj fields, h => by rw [merge, mergePairs_of_portable h.2, mergeFields_of_nodup h.1]

theorem mergeList_of_portable : ∀ {js : List Json}, PortableItems js → mergeList js = js
  | [], _ => rfl
  | j :: js, h => by rw [mergeList, merge_of_portable h.1, mergeList_of_portable h.2]

theorem mergePairs_of_portable : ∀ {fs : List (String × Json)}, PortableFields fs →
    mergePairs fs = fs
  | [], _ => rfl
  | (k, j) :: fs, h => by rw [mergePairs, merge_of_portable h.1, mergePairs_of_portable h.2]

end

/-- **A portable value reads back as itself**, unless it nests too deep. -/
theorem read_print_of_portable {j : Json} (h : Portable j) (hdepth : depth j ≤ depthLimit) :
    read (print j) = .ok j := by
  rw [read_print, readBack_of_portable h hdepth, Except.map, merge_of_portable h]

/-! ### Keys that do not repeat -/

mutual

/-- No object inside the value repeats a key. -/
def Distinct : Json → Prop
  | .arr items => DistinctItems items
  | .obj fields => (fields.map Prod.fst).Nodup ∧ DistinctFields fields
  | _ => True

/-- No object inside some values repeats a key. -/
def DistinctItems : List Json → Prop
  | [] => True
  | j :: rest => Distinct j ∧ DistinctItems rest

/-- No object inside some fields repeats a key. -/
def DistinctFields : List (String × Json) → Prop
  | [] => True
  | (_, j) :: rest => Distinct j ∧ DistinctFields rest

end

/-- Setting a field adds its key if it is new. -/
theorem map_fst_setField {α : Type} (key : String) (v : α) (fields : List (String × α)) :
    (setField key v fields).map Prod.fst =
      if key ∈ fields.map Prod.fst then fields.map Prod.fst else fields.map Prod.fst ++ [key] := by
  induction fields with
  | nil => rfl
  | cons field rest ih =>
    obtain ⟨k, w⟩ := field
    by_cases hk : k = key
    · subst hk
      simp [setField]
    · have hne : (k == key) = false := beq_false_of_ne hk
      simp only [setField, hne, Bool.false_eq_true, if_false, List.map_cons, ih, List.mem_cons,
        Ne.symm hk, false_or]
      split <;> rfl

theorem distinctFields_setField {key : String} {j : Json} (hj : Distinct j)
    {fields : List (String × Json)} (h : DistinctFields fields) :
    DistinctFields (setField key j fields) := by
  induction fields with
  | nil => exact ⟨hj, trivial⟩
  | cons field rest ih =>
    obtain ⟨k, w⟩ := field
    rw [setField]
    split
    · exact ⟨hj, h.2⟩
    · exact ⟨h.1, ih h.2⟩

theorem distinct_mergeFields {fields : List (String × Json)} (h : DistinctFields fields) :
    ((mergeFields fields).map Prod.fst).Nodup ∧ DistinctFields (mergeFields fields) := by
  have main : ∀ (todo acc : List (String × Json)), DistinctFields todo → (acc.map Prod.fst).Nodup ∧
      DistinctFields acc →
        ((todo.foldl (fun acc field => setField field.1 field.2 acc) acc).map Prod.fst).Nodup ∧
          DistinctFields (todo.foldl (fun acc field => setField field.1 field.2 acc) acc) := by
    intro todo
    induction todo with
    | nil => exact fun _ _ h => h
    | cons field rest ih =>
      intro acc htodo hacc
      refine ih _ htodo.2 ⟨?_, distinctFields_setField htodo.1 hacc.2⟩
      rw [map_fst_setField]
      split
      · exact hacc.1
      · rename_i hnew
        exact List.nodup_append.mpr
          ⟨hacc.1, by simp, by rintro k hk _ hk' rfl; exact hnew (List.mem_singleton.mp hk' ▸ hk)⟩
  exact main fields [] h ⟨List.nodup_nil, trivial⟩

mutual

theorem distinct_merge : ∀ j : Json, Distinct (merge j)
  | .null => trivial
  | .bool _ => trivial
  | .int _ => trivial
  | .float _ => trivial
  | .str _ => trivial
  | .arr items => distinctItems_mergeList items
  | .obj fields => distinct_mergeFields (distinctFields_mergePairs fields)

theorem distinctItems_mergeList : ∀ js : List Json, DistinctItems (mergeList js)
  | [] => trivial
  | j :: js => ⟨distinct_merge j, distinctItems_mergeList js⟩

theorem distinctFields_mergePairs : ∀ fs : List (String × Json), DistinctFields (mergePairs fs)
  | [] => trivial
  | (_, j) :: fs => ⟨distinct_merge j, distinctFields_mergePairs fs⟩

end

/-- **No object that was read repeats a key.** -/
theorem distinct_of_read {text : String} {j : Json} (h : read text = .ok j) : Distinct j := by
  unfold read at h
  cases hraw : readRaw depthLimit text with
  | error e =>
    rw [hraw] at h
    cases h
  | ok k =>
    rw [hraw] at h
    exact Except.ok.inj h ▸ distinct_merge k

end GraphRows.Json
