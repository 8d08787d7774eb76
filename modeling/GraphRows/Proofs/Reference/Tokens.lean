import GraphRows.Reference.Token
import GraphRows.Proofs.Text.Digits

/-!
# Tokens read back

A token is told by the character after its `$`. Texts get a second `$`, five words stand for one
value each, a marker says what its body is, and anything else is a plain reference. So reading a
token back is one lemma for words and markers, `parse_marked`, and one for references, whose path is
cut at its colons again.

Ids and path keys may be too large or hold a colon; then a reference does not read back as itself.
But no token is ever read as one that speaks of another row: `row?_of_parse_render`.

## Main results

* `parse_escape`: a text reads back, whatever it starts with
* `parse_render_row`, `parse_render_promise`, `parse_render_derived`: so does what names a row
* `parse_render_number`: and the numbers without a notation of their own, up to the bits of a NaN
* `row?_of_parse_render`: a token that reads back speaks of the row it was written for, or of none
-/

namespace GraphRows.Token

/-- The row a token speaks of. -/
def row? : Token → Option Nat
  | .row r => some r.row
  | .promise id => some id
  | .derived _ id => some id
  | .binary _ id => some id
  | _ => none

/-- The row whose value a token takes. A promise speaks of a row but does not take its value. -/
def referent? : Token → Option Nat
  | .row r => some r.row
  | .derived _ id => some id
  | .binary _ id => some id
  | _ => none

/-! ### Words and markers -/

/-- The words start with these characters after the `$`. -/
theorem lookup_words_eq_none {marker : Char} (h : marker ∉ ['u', 'N', 'I', '-'])
    (body : List Char) : words.lookup (String.ofList ('$' :: marker :: body)) = none := by
  have hne : ∀ w : String, ∀ c, c ∈ ['u', 'N', 'I', '-'] → (∃ cs, w.toList = '$' :: c :: cs) →
      (String.ofList ('$' :: marker :: body) == w) = false := by
    rintro w c hc ⟨cs, hw⟩
    rw [beq_eq_false_iff_ne]
    rintro rfl
    rw [String.toList_ofList] at hw
    simp only [List.cons.injEq, true_and] at hw
    exact h (hw.1 ▸ hc)
  simp only [words, List.lookup_cons, hne "$undefined" 'u' (by simp) ⟨_, rfl⟩, hne "$NaN" 'N'
    (by simp) ⟨_, rfl⟩, hne "$Infinity" 'I' (by simp) ⟨_, rfl⟩, hne "$-Infinity" '-' (by simp)
      ⟨_, rfl⟩, hne "$-0" '-' (by simp) ⟨_, rfl⟩,
    List.lookup_nil]

/-- **A marker is read by its body**, unless it starts a word. -/
theorem parse_marked {s : String} {marker : Char} {body : List Char}
    (hs : s.toList = '$' :: marker :: body) (h : marker ∉ ['u', 'N', 'I', '-']) :
    parse s = readMarked marker body := by
  obtain rfl : s = String.ofList ('$' :: marker :: body) := by rw [← hs, String.ofList_toList]
  simp only [parse, String.toList_ofList, lookup_words_eq_none h]

theorem readId_chars {id : Nat} (h : id < Nat.pow 2 32) : readId (Hex.chars id) = .ok id := by
  rw [readId, Hex.read?_chars h]

/-- An id reads back as itself or not at all. -/
theorem eq_of_readId_chars {id n : Nat} (h : readId (Hex.chars id) = .ok n) : n = id := by
  by_cases hid : id < Nat.pow 2 32
  · rw [readId_chars hid] at h
    exact (Except.ok.inj h).symm
  · rw [readId, Hex.read?_eq_none (Nat.le_of_not_lt hid)] at h
    cases h

/-! ### Texts and scalars -/

/-- **A text reads back as itself**, whatever it starts with. -/
@[simp] theorem parse_escape (s : String) : parse (escape s) = .ok (.text s) := by
  unfold escape
  split
  · rename_i h
    obtain ⟨body, hs⟩ : ∃ body, s.toList = '$' :: body := by
      cases hs : s.toList with
      | nil => simp [hs] at h
      | cons c body => exact ⟨body, by simp_all⟩
    have hlist : ("$" ++ s).toList = '$' :: '$' :: body := by rw [String.toList_append, hs]; rfl
    rw [parse_marked hlist (by decide)]
    change Except.ok (Token.text (String.ofList ('$' :: body))) = _
    rw [← hs, String.ofList_toList]
  · rename_i h
    unfold parse
    split
    · rename_i rest hs
      simp [hs] at h
    · rfl

@[simp] theorem parse_render_symbol (name : String) :
    parse (render (.symbol name)) = .ok (.symbol name) := by
  have hlist : (render (.symbol name)).toList = '$' :: 'S' :: name.toList := by simp [render]
  rw [parse_marked hlist (by decide)]
  simp [readMarked]

@[simp] theorem parse_render_bigint (n : Int) : parse (render (.bigint n)) = .ok (.bigint n) := by
  have hlist : (render (.bigint n)).toList = '$' :: 'n' :: (toString n).toList := by
    rw [render, String.toList_append]
    rfl
  rw [parse_marked hlist (by decide)]
  simp only [readMarked, String.ofList_toList, Integer.read?_toString]

theorem parse_render_date {t : Instant} (h : Instant.parse? t.format = some t) :
    parse (render (.date t)) = .ok (.date t) := by
  have hlist : (render (.date t)).toList = '$' :: 'D' :: t.format.toList := by
    rw [render, String.toList_append]
    rfl
  rw [parse_marked hlist (by decide)]
  simp [readMarked, h]

@[simp] theorem parse_render_undefined : parse (render .undefined) = .ok .undefined := rfl

/-- A number that is infinite, none, or the negative zero reads back as itself, up to the bits of a
NaN. -/
theorem parse_render_number {x : Double} (h : x.isNaN ∨ x.isInfinite ∨ x = .negZero) :
    ∃ y, parse (render (.number x)) = .ok (.number y) ∧ x.sameValue y := by
  by_cases hnan : x.isNaN
  · exact ⟨.nan, by rw [render, renderNumber, if_pos hnan]; rfl,
      by simp [Double.sameValue, hnan]; left; rfl⟩
  by_cases hinf : x.isInfinite
  · have hbits : x.bits.toNat % Nat.pow 2 63 = 2047 * Nat.pow 2 52 := by
      simpa [Double.isInfinite, Double.magnitudeBits] using hinf
    have hlt := x.bits.toNat_lt
    by_cases hneg : x.isNegative
    · refine ⟨.negInfinity,
        by rw [render, renderNumber, if_neg hnan, if_pos hinf, if_pos hneg]; rfl, ?_⟩
      have hge : x.bits.toNat ≥ Nat.pow 2 63 := by simpa [Double.isNegative] using hneg
      have hval : x.bits.toNat = 0xFFF0000000000000 := by
        simp only [Nat.pow_eq] at hbits hge
        omega
      have hx : x = .negInfinity := by
        cases x
        simp only [Double.negInfinity, Double.mk.injEq]
        exact UInt64.toNat_inj.mp hval
      simp [Double.sameValue, ← hx]
    · refine ⟨.infinity,
        by rw [render, renderNumber, if_neg hnan, if_pos hinf, if_neg hneg]; rfl, ?_⟩
      have hlow : ¬ x.bits.toNat ≥ Nat.pow 2 63 := by simpa [Double.isNegative] using hneg
      have hval : x.bits.toNat = 0x7FF0000000000000 := by
        simp only [Nat.pow_eq] at hbits hlow
        omega
      have hx : x = .infinity := by
        cases x
        simp only [Double.infinity, Double.mk.injEq]
        exact UInt64.toNat_inj.mp hval
      simp [Double.sameValue, ← hx]
  · obtain rfl : x = .negZero := by simpa [hnan, hinf] using h
    exact ⟨.negZero, rfl, by decide⟩

/-! ### What names a row -/

theorem toList_renderReference (r : Reference) :
    (renderReference r).toList = '$' :: (Hex.chars r.row ++ r.path.flatMap (':' :: ·.toList)) := by
  have hjoin : (r.path.map (":" ++ ·)).flatMap String.toList =
      r.path.flatMap (':' :: ·.toList) := by
    rw [List.flatMap_map]
    simp
  simp only [renderReference, Hex.text, String.toList_append, String.toList_join,
    String.toList_ofList, hjoin]
  rfl

theorem colon_notMem_chars (id : Nat) : ':' ∉ Hex.chars id := by
  intro h
  exact absurd (Hex.mem_alphabet_of_mem_chars h) (by decide)

/-- The first piece of a written reference is its id. -/
theorem splitColons_reference (id : Nat) (path : List String) :
    ∃ pieces, splitColons (Hex.chars id ++ path.flatMap (':' :: ·.toList)) =
      Hex.chars id :: pieces := by
  unfold splitColons
  cases path with
  | nil =>
    rw [List.flatMap_nil, List.append_nil]
    exact ⟨[], List.splitOn_eq_singleton (colon_notMem_chars id)⟩
  | cons key path =>
    rw [List.flatMap_cons, List.cons_append]
    exact ⟨_, List.splitOn_append_cons_self_of_not_mem (colon_notMem_chars id) _⟩

/-- Keys without colons are the other pieces. -/
theorem splitColons_reference_of_plain (id : Nat) {path : List String}
    (h : ∀ key ∈ path, ':' ∉ key.toList) :
    splitColons (Hex.chars id ++ path.flatMap (':' :: ·.toList)) = Hex.chars id ::
      path.map String.toList := by
  have main : ∀ (path : List String), (∀ key ∈ path, ':' ∉ key.toList) →
      ∀ front : List Char, ':' ∉ front →
      (front ++ path.flatMap (':' :: ·.toList)).splitOn ':' = front :: path.map String.toList := by
    intro path
    induction path with
    | nil =>
      intro _ front hfront
      rw [List.flatMap_nil, List.append_nil, List.splitOn_eq_singleton hfront]
      rfl
    | cons key path ih =>
      intro hpath front hfront
      rw [List.flatMap_cons, List.cons_append, List.splitOn_append_cons_self_of_not_mem hfront,
        ih (fun k hk => hpath k (List.mem_cons_of_mem _ hk)) _ (hpath key List.mem_cons_self)]
      rfl
  exact main path h _ (colon_notMem_chars id)

/-- A lowercase hexadecimal digit marks nothing but a plain reference. -/
theorem readMarked_of_mem_alphabet {c : Char} (h : c ∈ Hex.alphabet) (body : List Char) :
    readMarked c body = readReference (c :: body) := by
  have hmarkers : Hex.alphabet.all (fun c => c ≠ '$' ∧ c ≠ '@' ∧ c ≠ 'S' ∧ c ≠ 'T' ∧ c ≠
      'D' ∧ c ≠ 'n' ∧ Derived.ofMarker? c = none ∧ BinaryKind.ofLetter? c = none) =
        true := by decide
  obtain ⟨h1, h2, h3, h4, h5, h6, hderived, hbinary⟩ :=
    of_decide_eq_true (List.all_eq_true.mp hmarkers c h)
  have hbody : binaryMarker? c body = none := by
    unfold binaryMarker?
    split
    · rfl
    · exact hbinary
  simp only [readMarked, hderived, hbody]

/-- A written reference is read as one. -/
theorem parse_renderReference (r : Reference) :
    parse (renderReference r) = readReference (Hex.chars r.row ++
      r.path.flatMap (':' :: ·.toList)) := by
  obtain ⟨c, cs, hc⟩ := List.exists_cons_of_ne_nil (Hex.chars_ne_nil r.row)
  have hmem : c ∈ Hex.alphabet := Hex.mem_alphabet_of_mem_chars (n := r.row)
    (hc ▸ List.mem_cons_self)
  have hwords : Hex.alphabet.all (fun c => c ∉ ['u', 'N', 'I', '-']) = true := by decide
  have hword := of_decide_eq_true (List.all_eq_true.mp hwords c hmem)
  have hlist := toList_renderReference r
  rw [hc, List.cons_append] at hlist
  rw [parse_marked hlist hword, readMarked_of_mem_alphabet hmem, hc, List.cons_append]

/-- **A reference reads back as itself** when its id has 32 bits and no key of its path holds a
colon. -/
theorem parse_render_row {r : Reference} (hid : r.row < Nat.pow 2 32)
    (hpath : ∀ key ∈ r.path, ':' ∉ key.toList) : parse (render (.row r)) = .ok (.row r) := by
  rw [render, parse_renderReference, readReference, splitColons_reference_of_plain _ hpath]
  simp [readId_chars hid, Except.map, Function.comp_def]

theorem toList_renderMarked (marker : Char) (id : Nat) :
    (renderMarked marker id).toList = '$' :: marker :: Hex.chars id := by
  simp [renderMarked, Hex.text]

theorem parse_promise_eq_readId (id : Nat) :
    parse (render (.promise id)) = (readId (Hex.chars id)).map .promise := by
  rw [render, parse_marked (toList_renderMarked '@' id) (by decide)]
  rfl

theorem parse_derived_eq_readId (kind : Derived) (id : Nat) :
    parse (render (.derived kind id)) = (readId (Hex.chars id)).map (.derived kind) := by
  have hword : kind.marker ∉ ['u', 'N', 'I', '-'] := by cases kind <;> decide
  rw [render, parse_marked (toList_renderMarked kind.marker id) hword]
  cases kind <;> rfl

theorem parse_render_promise {id : Nat} (h : id < Nat.pow 2 32) :
    parse (render (.promise id)) = .ok (.promise id) := by
  rw [parse_promise_eq_readId, readId_chars h, Except.map]

theorem parse_render_derived {id : Nat} (h : id < Nat.pow 2 32) (kind : Derived) :
    parse (render (.derived kind id)) = .ok (.derived kind id) := by
  rw [parse_derived_eq_readId, readId_chars h, Except.map]

/-- A written token for binary data is read as one, or as a symbol. -/
theorem row?_of_parse_render_binary {kind : BinaryKind} {id n : Nat} {u : Token}
    (h : parse (render (.binary kind id)) = .ok u) (hn : u.row? = some n) : n = id := by
  have hword : kind.letter ∉ ['u', 'N', 'I', '-'] := by cases kind <;> decide
  have hall : (Hex.chars id).all (fun c => (Hex.digit? c).isSome) = true :=
    List.all_eq_true.mpr fun c hc => Hex.isSome_digit?_of_mem_chars hc
  have hmarker : kind.letter ≠ 'S' → binaryMarker? kind.letter (Hex.chars id) = some kind := by
    intro hS
    simp [binaryMarker?, hS, Hex.chars_ne_nil, hall]
  rw [render, parse_marked (toList_renderMarked kind.letter id) hword] at h
  by_cases hS : kind.letter = 'S'
  · rw [hS] at h
    obtain rfl := Except.ok.inj h
    cases hn
  · have hread : readMarked kind.letter (Hex.chars id) =
        (readId (Hex.chars id)).map (.binary kind) := by
      have hmarkers : kind.letter ≠ '$' ∧ kind.letter ≠ '@' ∧ kind.letter ≠ 'T' ∧
          kind.letter ≠ 'D' ∧ kind.letter ≠ 'n' ∧ Derived.ofMarker? kind.letter =
            none := by cases kind <;> decide
      obtain ⟨h1, h2, h3, h4, h5, hderived⟩ := hmarkers
      simp only [readMarked, hderived, hmarker hS]
    rw [hread] at h
    cases hid : readId (Hex.chars id) with
    | error f => rw [hid] at h; cases h
    | ok m =>
      rw [hid] at h
      obtain rfl := Except.ok.inj h
      obtain rfl := Option.some.inj hn
      exact eq_of_readId_chars hid

/-- **No token is read as one that speaks of another row.** -/
theorem row?_of_parse_render {t u : Token} (h : parse (render t) = .ok u) {n : Nat}
    (hn : u.row? = some n) : t.row? = some n := by
  have marked : ∀ (id : Nat) (make : Nat → Token), (∀ k, (make k).row? = some k) →
      (readId (Hex.chars id)).map make = .ok u → n = id := by
    intro id make hmake h
    cases hid : readId (Hex.chars id) with
    | error f => rw [hid] at h; cases h
    | ok m =>
      rw [hid] at h
      obtain rfl := Except.ok.inj h
      rw [hmake] at hn
      obtain rfl := Option.some.inj hn
      exact eq_of_readId_chars hid
  cases t with
  | text s =>
    rw [render, parse_escape] at h
    obtain rfl := Except.ok.inj h
    cases hn
  | undefined =>
    obtain rfl := Except.ok.inj h
    cases hn
  | number x =>
    rw [render, renderNumber] at h
    split at h
    · obtain rfl := Except.ok.inj h
      cases hn
    · split at h
      · split at h <;> obtain rfl := Except.ok.inj h <;> cases hn
      · obtain rfl := Except.ok.inj h
        cases hn
  | row r =>
    obtain ⟨pieces, hpieces⟩ := splitColons_reference r.row r.path
    rw [render, parse_renderReference, readReference, hpieces] at h
    rw [row?, marked r.row _ (fun _ => rfl) h]
  | promise id => rw [row?, marked id _ (fun _ => rfl) ((parse_promise_eq_readId id).symm.trans h)]
  | derived kind id =>
    rw [row?, marked id _ (fun _ => rfl) ((parse_derived_eq_readId kind id).symm.trans h)]
  | binary kind id => rw [row?, row?_of_parse_render_binary h hn]
  | symbol name =>
    rw [parse_render_symbol] at h
    obtain rfl := Except.ok.inj h
    cases hn
  | temporary id =>
    have hlist : (render (.temporary id)).toList = '$' :: 'T' :: id.toList := by simp [render]
    rw [parse_marked hlist (by decide)] at h
    obtain rfl := Except.ok.inj h
    cases hn
  | date t =>
    have hlist : (render (.date t)).toList = '$' :: 'D' :: t.format.toList := by
      rw [render, String.toList_append]
      rfl
    rw [parse_marked hlist (by decide)] at h
    simp only [readMarked] at h
    split at h
    · obtain rfl := Except.ok.inj h
      cases hn
    · cases h
  | bigint k =>
    rw [parse_render_bigint] at h
    obtain rfl := Except.ok.inj h
    cases hn

end GraphRows.Token
