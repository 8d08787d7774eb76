import GraphRows.Row.Reader
import GraphRows.Hint
import GraphRows.Proofs.Json.ReadBack
import GraphRows.Proofs.Text.Utf8

/-!
# Written rows are read as they were written

The reader sees bytes only, so what keeps rows apart is their form: a line holds no newline, a line
without a tag starts with no byte that could be one, and counted bytes announce their length.
`Frame.Sound` collects these conditions and every row an encoder queues meets them.

Headers have limits of their own: ids have 32 bits and lengths 64. A row beyond them stops the
reader with a fault; all rows before it have been read.

## Main results

* `Row.sound_frame`: rows keep the form
* `Frame.feed_encode`: a frame within the limits is read as it is
* `feed_frames`, `feed_rows`: so the rows read are those written
* `feed_rows_fault`: unless one is beyond the limits
-/

namespace GraphRows

/-! ### Text in lines -/

namespace Json

theorem newline_notMem_escapeChar (c : Char) : '\n' ∉ escapeChar c := by
  have hpadded : '\n' ∉ (Hex.padded 2 c.toNat).toList := by
    simp only [Hex.padded, String.toList_ofList, List.mem_append, not_or]
    refine ⟨fun h => absurd (List.eq_of_mem_replicate h) (by decide), fun h => ?_⟩
    exact absurd (Hex.mem_alphabet_of_mem_chars h) (by decide)
  unfold escapeChar
  split
  case h_8 _ _ hnewline _ _ _ _ =>
    split
    · simpa using hpadded
    · rw [List.mem_singleton]
      exact fun h => hnewline h.symm
  all_goals decide

theorem newline_notMem_stringChars (s : String) : '\n' ∉ stringChars s := by
  simp only [stringChars, List.cons_append, List.mem_cons, List.mem_append, List.mem_flatMap,
    not_or, not_exists, not_and]
  exact ⟨by decide, fun c _ => newline_notMem_escapeChar c, by decide, by simp⟩

theorem NumberText.newline_notMem (t : NumberText) (negative : Bool) :
    '\n' ∉ (if negative then ['-'] else []) ++ t.chars := by
  have hdigit : ∀ ds : List Char, (∀ c ∈ ds, c.isDigit) → '\n' ∉ ds :=
    fun ds hds h => absurd (hds _ h) (by decide)
  have hfraction : '\n' ∉ NumberText.fractionChars t.fraction := by
    cases hf : t.fraction with
    | none => simp [NumberText.fractionChars]
    | some ds => simpa [NumberText.fractionChars] using hdigit ds (t.fraction_digits ds hf).2
  have hexponent : '\n' ∉ NumberText.exponentChars t.exponent := by
    rcases t.exponent with _ | ⟨sign, n⟩
    · simp [NumberText.exponentChars]
    · have := hdigit (Nat.toDigits 10 n) fun _ => Integer.isDigit_of_mem_toDigits
      cases sign <;> simpa [NumberText.exponentChars] using this
  simp only [NumberText.chars, List.mem_append, not_or]
  exact ⟨by cases negative <;> decide, ⟨hdigit _ t.whole_digits.2, hfraction⟩, hexponent⟩

mutual

/-- **A printed value holds no newline.** -/
theorem newline_notMem_chars : ∀ j : Json, '\n' ∉ chars j
  | .null => by decide
  | .bool true => by decide
  | .bool false => by decide
  | .int n => by simpa [chars_int] using (NumberText.ofNat n.natAbs).newline_notMem (n < 0)
  | .float x => by
    by_cases h : x.isFinite
    · obtain ⟨t, ht, -⟩ := chars_float h
      rw [ht]
      exact t.newline_notMem _
    · rw [chars, floatChars, if_neg h]
      decide
  | .str s => newline_notMem_stringChars s
  | .arr items => by
    have := newline_notMem_itemChars items
    simp [chars, this]
  | .obj fields => by
    have := newline_notMem_fieldChars fields
    simp [chars, this]

theorem newline_notMem_itemChars : ∀ js : List Json, '\n' ∉ itemChars js
  | [] => by simp [itemChars]
  | [j] => newline_notMem_chars j
  | j :: k :: js => by
    have hj := newline_notMem_chars j
    have hjs := newline_notMem_itemChars (k :: js)
    simp [itemChars, hj, hjs]

theorem newline_notMem_fieldChars : ∀ fs : List (String × Json), '\n' ∉ fieldChars fs
  | [] => by simp [fieldChars]
  | [(key, j)] => by
    have hkey := newline_notMem_stringChars key
    have hj := newline_notMem_chars j
    simp [fieldChars, hkey, hj]
  | (key, j) :: f :: fs => by
    have hkey := newline_notMem_stringChars key
    have hj := newline_notMem_chars j
    have hfs := newline_notMem_fieldChars (f :: fs)
    simp [fieldChars, hkey, hj, hfs]

end

end Json

theorem newline_notMem_utf8 {s : String} (h : '\n' ∉ s.toList) : newline ∉ utf8 s := by
  intro hmem
  obtain ⟨c, hc, hbyte⟩ := List.mem_flatMap.mp hmem
  have hnat : c.toNat = '\n'.toNat := Utf8.toNat_of_ofNat_mem_encode (by decide) hbyte
  have : c = '\n' := by rw [← Char.ofNat_toNat c, hnat, Char.ofNat_toNat]
  exact h (this ▸ hc)

theorem newline_notMem_utf8_print (j : Json) : newline ∉ utf8 j.print := by
  refine newline_notMem_utf8 ?_
  rw [Json.print, String.toList_ofList]
  exact Json.newline_notMem_chars j

/-! ### Headers -/

theorem toNat_lt_of_mem_alphabet {c : Char} (h : c ∈ Hex.alphabet) : c.toNat < 0x80 := by
  have all : Hex.alphabet.all (fun c => c.toNat < 0x80) = true := by decide
  simpa using List.all_eq_true.mp all c h

theorem utf8_hexText (n : Nat) : utf8 (Hex.text n) = (Hex.chars n).map byte := by
  have main : ∀ cs : List Char, (∀ c ∈ cs, c ∈ Hex.alphabet) →
      cs.flatMap String.utf8EncodeChar = cs.map byte := by
    intro cs
    induction cs with
    | nil => simp
    | cons c cs ih =>
      intro h
      rw [List.flatMap_cons, Utf8.encode_of_lt (toNat_lt_of_mem_alphabet (h c List.mem_cons_self)),
        ih fun d hd => h d (List.mem_cons_of_mem _ hd)]
      rfl
  rw [utf8, Hex.text, String.toList_ofList, main _ fun c hc => Hex.mem_alphabet_of_mem_chars hc]

namespace RowReader

/-- A reader that is in a header number, read digit by digit below a bound. -/
structure Header where
  state : Nat → RowReader
  bound : Nat
  tooLarge : Fault
  bound_dvd : 16 ∣ bound
  bound_pos : 0 < bound
  step_digit : ∀ n, ∀ c ∈ Hex.alphabet,
    (state n).step (byte c) = (extend bound tooLarge n (byte c)).map fun n => (state n, none)

/-- The id of a row. -/
def idHeader : Header where
  state := .atId
  bound := Nat.pow 2 32
  tooLarge := .rowIdTooLarge
  bound_dvd := by decide
  bound_pos := by decide
  step_digit n c hc := by
    have all : Hex.alphabet.all (fun c => !(byte c == byte ':')) = true := by decide
    have hne : (byte c == byte ':') = false := by simpa using List.all_eq_true.mp all c hc
    simp only [step, hne, Bool.false_eq_true, if_false]

/-- The length of a counted row. -/
def lengthHeader (id : Nat) (tag : UInt8) : Header where
  state := .atLength id tag
  bound := Nat.pow 2 64
  tooLarge := .rowLengthTooLarge
  bound_dvd := by decide
  bound_pos := by decide
  step_digit n c hc := by
    have all : Hex.alphabet.all (fun c => !(byte c == byte ',')) = true := by decide
    have hne : (byte c == byte ',') = false := by simpa using List.all_eq_true.mp all c hc
    simp only [step, hne, Bool.false_eq_true, if_false]

namespace Header

variable (h : Header)

theorem extend_digit {n d : Nat} (hd : d < 16) :
    extend h.bound h.tooLarge n (byte d.digitChar) = if n * 16 + d <
      h.bound then .ok (n * 16 + d) else .error h.tooLarge := by
  have hmem : ∀ d ∈ List.range 16, d.digitChar ∈ Hex.alphabet := by decide
  have hlatin := Utf8.latin_byte (toNat_lt_of_mem_alphabet (hmem d (List.mem_range.mpr hd)))
  obtain ⟨k, hk⟩ := h.bound_dvd
  unfold extend
  rw [hlatin, Hex.digit?_digitChar hd]
  by_cases hfit : n * 16 + d < h.bound
  · rw [if_neg (by omega), if_pos hfit]
  · rw [if_pos (by omega), if_neg hfit]

theorem step_digitChar {n d : Nat} (hd : d < 16) :
    (h.state n).step (byte d.digitChar) =
      if n * 16 + d < h.bound then .ok (h.state (n * 16 + d), none) else .error h.tooLarge := by
  have hmem : ∀ d ∈ List.range 16, d.digitChar ∈ Hex.alphabet := by decide
  rw [h.step_digit n _ (hmem d (List.mem_range.mpr hd)), h.extend_digit hd]
  split <;> rfl

/-- **A header number below its bound is read.** -/
theorem feed_chars {n : Nat} (hn : n < h.bound) (rest : Bytes) :
    (h.state 0).feed ((Hex.chars n).map byte ++ rest) = (h.state n).feed rest := by
  induction n using Nat.base_induction 16 (by decide) generalizing rest with
  | single m hm =>
    rw [Hex.chars, Nat.toDigits_of_lt_base hm]
    simp only [List.map_cons, List.map_nil, List.cons_append, List.nil_append, feed,
      h.step_digitChar hm, Nat.zero_mul, Nat.zero_add, if_pos hn]
  | digit m k hk hm ih =>
    rw [Hex.chars, ← Nat.toDigits_append_toDigits (by decide) hm hk, Nat.toDigits_of_lt_base hk,
      List.map_append, List.append_assoc, ← Hex.chars, ih (by omega)]
    simp only [List.map_cons, List.map_nil, List.cons_append, List.nil_append, feed,
      h.step_digitChar hk, Nat.mul_comm m 16, if_pos hn]

/-- A header number that reaches its bound stops the reader. -/
theorem feed_chars_fault {n : Nat} (hn : h.bound ≤ n) (rest : Bytes) :
    ((h.state 0).feed ((Hex.chars n).map byte ++ rest)).rows = [] ∧
      ((h.state 0).feed ((Hex.chars n).map byte ++ rest)).fault = some h.tooLarge := by
  obtain ⟨b, hb⟩ := h.bound_dvd
  have hpos := h.bound_pos
  induction n using Nat.base_induction 16 (by decide) generalizing rest with
  | single m hm => omega
  | digit m k hk hm ih =>
    rw [Hex.chars, ← Nat.toDigits_append_toDigits (by decide) hm hk, Nat.toDigits_of_lt_base hk,
      List.map_append, List.append_assoc, ← Hex.chars]
    by_cases hm' : m < h.bound
    · rw [h.feed_chars hm']
      have hover : ¬ m * 16 + k < h.bound := by omega
      simp [feed, h.step_digitChar hk, hover]
    · exact ih (by omega) _

end Header

/-! ### Bodies -/

/-- A line is read up to its newline. -/
theorem feed_inLine (id : Nat) (tag : UInt8) {text : Bytes} (h : newline ∉ text)
    (acc rest : Bytes) :
    (inLine id tag acc).feed (text ++ newline :: rest) =
      { start.feed rest with
        rows := ⟨id, tag, acc.reverse ++ text⟩ :: (start.feed rest).rows } := by
  induction text generalizing acc with
  | nil => simp [feed, step, lineStep]
  | cons b text ih =>
    rw [List.mem_cons, not_or] at h
    have hb : (b == newline) = false := beq_eq_false_iff_ne.mpr (Ne.symm h.1)
    simp only [List.cons_append, feed, step, lineStep, hb, Bool.false_eq_true, if_false, ih h.2,
      List.reverse_cons, List.append_assoc, List.nil_append]

/-- Counted bytes are read up to their count. -/
theorem feed_inBytes (id : Nat) (tag : UInt8) {payload : Bytes} (h : payload ≠ [])
    (acc rest : Bytes) :
    (inBytes id tag payload.length acc).feed (payload ++ rest) =
      { start.feed rest with
        rows := ⟨id, tag, acc.reverse ++ payload⟩ :: (start.feed rest).rows } := by
  induction payload generalizing acc with
  | nil => exact absurd rfl h
  | cons b payload ih =>
    cases payload with
    | nil => simp [feed, step]
    | cons c payload =>
      have hlong : ¬ (b :: c :: payload).length ≤ 1 := by simp
      have hleft : (b :: c :: payload).length - 1 = (c :: payload).length := by simp
      rw [List.cons_append, feed, step, if_neg hlong, hleft]
      dsimp only
      rw [ih (by simp)]
      simp

end RowReader

/-! ### Frames -/

namespace Frame

/-- The row a reader should make of a frame. -/
def raw : Frame → RawRow
  | .line id tag text => ⟨id, tag.getD 0, text⟩
  | .counted id tag payload => ⟨id, tag, payload⟩

/-- A frame that can be told from its bytes. -/
inductive Sound : Frame → Prop
  | tagged {id : Nat} {tag : UInt8} {text : Bytes} (htag : RowTag.isLine tag = true)
      (hcount : RowTag.isCounted tag = false) (htext : newline ∉ text) :
        Sound (.line id (some tag) text)
  | untagged {id : Nat} {b : UInt8} {text : Bytes} (htag : RowTag.isLine b = false)
      (hcount : RowTag.isCounted b = false) (htext : newline ∉ b :: text) :
        Sound (.line id none (b :: text))
  | counted {id : Nat} {tag : UInt8} {payload : Bytes} (htag : RowTag.isCounted tag = true) :
      Sound (.counted id tag payload)

/-- The header of a frame is within its limits. -/
def InRange : Frame → Prop
  | .line id _ _ => id < Nat.pow 2 32
  | .counted id _ payload => id < Nat.pow 2 32 ∧ payload.length < Nat.pow 2 64

instance (f : Frame) : Decidable f.InRange := by
  cases f <;> unfold InRange <;> infer_instance

open RowReader

theorem feed_header {id : Nat} (h : id < Nat.pow 2 32) (rest : Bytes) :
    start.feed (header id ++ rest) = (RowReader.atTag id).feed rest := by
  have hread := idHeader.feed_chars (n := id) h (byte ':' :: rest)
  rw [header, utf8_hexText, List.append_assoc]
  exact hread

theorem feed_header_fault {id : Nat} (h : ¬ id < Nat.pow 2 32) (rest : Bytes) :
    (start.feed (header id ++ rest)).rows = [] ∧ (start.feed (header id ++ rest)).fault =
      some .rowIdTooLarge := by
  rw [header, utf8_hexText, List.append_assoc]
  exact idHeader.feed_chars_fault (Nat.le_of_not_lt h) _

/-- **A sound frame within the limits is read as it is.** -/
theorem feed_encode {f : Frame} (hsound : f.Sound) (hrange : f.InRange) (rest : Bytes) :
    start.feed (f.encode ++ rest) =
      { start.feed rest with rows := f.raw :: (start.feed rest).rows } := by
  cases hsound with
  | @tagged id tag text htag hcount htext =>
    simp only [encode, List.append_assoc, Option.toList, List.cons_append, List.nil_append]
    rw [feed_header hrange]
    simp only [feed, step, hcount, htag, Bool.false_eq_true, if_false, if_true]
    exact feed_inLine id tag htext [] rest
  | @untagged id b text htag hcount htext =>
    simp only [encode, List.append_assoc, Option.toList, List.cons_append, List.nil_append]
    rw [List.mem_cons, not_or] at htext
    have hb : (b == newline) = false := beq_eq_false_iff_ne.mpr (Ne.symm htext.1)
    rw [feed_header hrange]
    simp only [feed, step, hcount, htag, lineStep, hb, Bool.false_eq_true, if_false]
    exact feed_inLine id 0 htext.2 [b] rest
  | @counted id tag payload htag =>
    simp only [encode, List.append_assoc, List.cons_append, utf8_hexText]
    rw [feed_header hrange.1]
    simp only [feed, step, htag, if_true]
    have hlength := (lengthHeader id tag).feed_chars (n := payload.length) hrange.2
      (byte ',' :: (payload ++ rest))
    refine Eq.trans hlength ?_
    change (RowReader.atLength id tag payload.length).feed (byte ',' :: (payload ++ rest)) = _
    by_cases hempty : payload = []
    · subst hempty
      simp [feed, step, raw]
    · have hne : (payload.length == 0) = false := by simp [hempty]
      simp only [feed, step, beq_self_eq_true, if_true, hne, Bool.false_eq_true, if_false]
      exact feed_inBytes id tag hempty [] rest

/-- A sound frame beyond the limits stops the reader. -/
theorem feed_encode_fault {f : Frame} (hsound : f.Sound) (hrange : ¬ f.InRange) (rest : Bytes) :
    (start.feed (f.encode ++ rest)).rows = [] ∧ (start.feed (f.encode ++ rest)).fault.isSome := by
  have header_fault : ∀ id, ¬ id < Nat.pow 2 32 → ∀ rest : Bytes,
      (start.feed (header id ++ rest)).rows = [] ∧
        (start.feed (header id ++ rest)).fault.isSome := by
    intro id h rest
    obtain ⟨hrows, hfault⟩ := feed_header_fault h rest
    exact ⟨hrows, by rw [hfault]; rfl⟩
  cases hsound with
  | tagged =>
    simp only [encode, List.append_assoc]
    exact header_fault _ hrange _
  | untagged =>
    simp only [encode, List.append_assoc]
    exact header_fault _ hrange _
  | @counted id tag payload htag =>
    simp only [encode, List.append_assoc, List.cons_append, utf8_hexText]
    by_cases hid : id < Nat.pow 2 32
    · rw [feed_header hid]
      simp only [feed, step, htag, if_true]
      have hover : Nat.pow 2 64 ≤ payload.length := Nat.le_of_not_lt fun h => hrange ⟨hid, h⟩
      obtain ⟨hrows, hfault⟩ := (lengthHeader id tag).feed_chars_fault hover
        (byte ',' :: (payload ++ rest))
      refine ⟨hrows, ?_⟩
      rw [show (RowReader.atLength id tag 0) = (lengthHeader id tag).state 0 from rfl, hfault]
      rfl
    · exact header_fault _ hid _

end Frame

namespace Row

/-- The row a reader should make of a row. -/
def raw (r : Row) : RawRow := r.frame.raw

/-- The code of a hint is no newline. -/
def HintSafe (r : Row) : Prop := ∀ c j, r.body = .hint c j → c ≠ '\n'

theorem utf8_print_eq_cons (j : Json) :
    ∃ b text, utf8 j.print = b :: text ∧ RowTag.isLine b = false ∧ RowTag.isCounted b = false := by
  obtain ⟨c, cs, hc, hmem⟩ := j.chars_eq_cons
  have hall : Json.firstChars.all (fun c => c.toNat < 0x80 && !RowTag.isLine (byte c) &&
      !RowTag.isCounted (byte c)) = true := by decide
  obtain ⟨⟨hascii, hline⟩, hcount⟩ : (c.toNat < 0x80 ∧ RowTag.isLine (byte c) = false) ∧
      RowTag.isCounted (byte c) = false := by
    simpa using List.all_eq_true.mp hall c hmem
  refine ⟨byte c, cs.flatMap String.utf8EncodeChar, ?_, hline, hcount⟩
  rw [utf8, Json.print, String.toList_ofList, hc, List.flatMap_cons, Utf8.encode_of_lt hascii]
  rfl

/-- **Every row keeps the form**, a hint as long as its code is no newline. -/
theorem sound_frame {r : Row} (h : r.HintSafe) : r.frame.Sound := by
  have line : ∀ (id : Nat) (tag : RowTag) (text : String), RowTag.isLine tag.tag = true →
      RowTag.isCounted tag.tag = false → newline ∉ utf8 text → (tagged id tag text).Sound :=
    fun id tag text hline hcount htext => .tagged hline hcount htext
  obtain ⟨id, body⟩ := r
  cases body with
  | model j =>
    obtain ⟨b, text, htext, hline, hcount⟩ := utf8_print_eq_cons j
    have hnewline := newline_notMem_utf8_print j
    rw [htext] at hnewline
    change (Frame.line id none (utf8 j.print)).Sound
    rw [htext]
    exact .untagged hline hcount hnewline
  | text s => exact .counted (by decide)
  | binary data => exact .counted (by cases hk : data.kind <;> decide)
  | importing j => exact line id _ _ (by decide) (by decide) (newline_notMem_utf8_print j)
  | hint c j =>
    refine line id _ _ (by decide) (by decide) ?_
    rw [utf8_append, List.mem_append, not_or]
    refine ⟨newline_notMem_utf8 ?_, newline_notMem_utf8_print j⟩
    rw [String.toList_ofList, List.mem_singleton]
    exact Ne.symm (h c j rfl)
  | error j => exact line id _ _ (by decide) (by decide) (newline_notMem_utf8_print j)
  | postpone j => exact line id _ _ (by decide) (by decide) (newline_notMem_utf8_print j)
  | opening kind =>
    exact line id _ _ (by cases kind <;> decide) (by cases kind <;> decide) (by decide)
  | closing v =>
    refine line id _ _ (by decide) (by decide) ?_
    cases v with
    | none => decide
    | some j => exact newline_notMem_utf8_print j

/-- The header of a row is within its limits. -/
abbrev InRange (r : Row) : Prop := r.frame.InRange

theorem inRange_of_lt {r : Row} (hid : r.id < Nat.pow 2 32)
    (hlength : r.encode.length < Nat.pow 2 64) : r.InRange := by
  have counted : ∀ tag payload, r.frame = .counted r.id tag payload → r.InRange :=
      fun tag payload h => by
    rw [Row.encode, h, Frame.encode] at hlength
    rw [Row.InRange, h]
    refine ⟨hid, Nat.lt_of_le_of_lt ?_ hlength⟩
    simp
    omega
  obtain ⟨id, body⟩ := r
  cases body with
  | text s => exact counted _ _ rfl
  | binary data => exact counted _ _ rfl
  | _ => exact hid

end Row

/-- **Frames within the limits are read one by one**, and nothing is left over. -/
theorem feed_frames {frames : List Frame} (hsound : ∀ f ∈ frames, f.Sound)
    (hrange : ∀ f ∈ frames, f.InRange) :
    RowReader.start.feed (frames.flatMap Frame.encode) = ⟨frames.map Frame.raw, .start, none⟩ := by
  induction frames with
  | nil => rfl
  | cons f frames ih =>
    rw [List.flatMap_cons, Frame.feed_encode (hsound f List.mem_cons_self)
      (hrange f List.mem_cons_self),
      ih (fun f hf => hsound f (List.mem_cons_of_mem _ hf)) fun f hf =>
        hrange f (List.mem_cons_of_mem _ hf)]
    rfl

/-- **Rows within the limits are read one by one.** -/
theorem feed_rows {rows : List Row} (hsafe : ∀ r ∈ rows, r.HintSafe)
    (hrange : ∀ r ∈ rows, r.InRange) :
    RowReader.start.feed (rows.flatMap Row.encode) = ⟨rows.map Row.raw, .start, none⟩ := by
  have hsound : ∀ f ∈ rows.map Row.frame, f.Sound := List.forall_mem_map.mpr fun r hr =>
    Row.sound_frame (hsafe r hr)
  have hread := feed_frames hsound (List.forall_mem_map.mpr hrange)
  rw [List.flatMap_map, List.map_map] at hread
  exact hread

/-- A row beyond the limits stops the reader, with the rows before it read. -/
theorem feed_rows_fault {rows : List Row} (hsafe : ∀ r ∈ rows, r.HintSafe)
    (hrange : ¬ ∀ r ∈ rows, r.InRange) :
    (RowReader.start.feed (rows.flatMap Row.encode)).rows <+: rows.map Row.raw ∧
      (RowReader.start.feed (rows.flatMap Row.encode)).fault.isSome := by
  induction rows with
  | nil => exact absurd (by simp) hrange
  | cons r rows ih =>
    have hsound := Row.sound_frame (hsafe r List.mem_cons_self)
    rw [List.flatMap_cons, Row.encode]
    by_cases hr : r.InRange
    · rw [Frame.feed_encode hsound hr]
      have hrest := ih (fun r hr => hsafe r (List.mem_cons_of_mem _ hr)) fun hrows =>
        hrange (List.forall_mem_cons.mpr ⟨hr, hrows⟩)
      exact ⟨List.prefix_cons_inj _ |>.mpr hrest.1, hrest.2⟩
    · obtain ⟨hrows, hfault⟩ := Frame.feed_encode_fault hsound hr (rows.flatMap Row.encode)
      exact ⟨hrows ▸ List.nil_prefix, hfault⟩

end GraphRows
