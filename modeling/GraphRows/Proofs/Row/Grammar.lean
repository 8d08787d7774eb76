import Mathlib
import GraphRows.Proofs.Row.Framing

/-!
# The language of the reader

The grammar of rows is stated here without the machine: `Digits` for header numbers, `RowText` for
one row, and `Division` for a text cut into whole rows and the beginning of one more. The machine is
then held to the grammar from both sides.

`Stands` is where the two meet: it says of a row that is not complete where the machine stands in
it. It can be followed forwards, which shows that every text is divided or has a byte that no header
goes on with, and backwards, which shows that the machine reads any division as it is. Going back
one byte at a time also shows that no row is the beginning of another; a comparison of what is read
from both would not, since zeros before a row leave no trace.

## Main definitions

* `RowText`, `Unfinished`, `Division`: rows, beginnings of rows, and texts made of them
* `Refused`: a byte that cannot follow the beginning of a row

## Main result

* `reads_exactly_the_grammar`
-/

namespace GraphRows

variable {more rest t : Bytes} {texts : List Bytes} {rows : List RawRow} {d : Nat} {row : RawRow}
    {r : RowReader} {b : UInt8}

/-! ### The grammar -/

/-- A hexadecimal digit of either letter case, and its value. -/
inductive HexDigit (b : UInt8) : Nat → Prop
  | decimal (hlow : 0x30 ≤ b.toNat) (hhigh : b.toNat ≤ 0x39) : HexDigit b (b.toNat - 0x30)
  | lower (hlow : 0x61 ≤ b.toNat) (hhigh : b.toNat ≤ 0x66) : HexDigit b (b.toNat - 0x61 + 10)
  | upper (hlow : 0x41 ≤ b.toNat) (hhigh : b.toNat ≤ 0x46) : HexDigit b (b.toNat - 0x41 + 10)

/-- Digits, most significant first, and the number they stand for. No digits stand for zero. -/
inductive Digits : Bytes → Nat → Prop
  | none : Digits [] 0
  | more {ds : Bytes} {n d : Nat} {b : UInt8} (hds : Digits ds n) (hb : HexDigit b d) :
    Digits (ds ++ [b]) (n * 16 + d)

/-- The digits of an id that fits its 32 bits. -/
def IdDigits (ds : Bytes) (id : Nat) : Prop := Digits ds id ∧ id < Nat.pow 2 32

/-- The digits of a length that fits its 64 bits. -/
def LengthDigits (ds : Bytes) (n : Nat) : Prop := Digits ds n ∧ n < Nat.pow 2 64

/-- A byte that is no tag of any kind: it belongs to the payload of a line. -/
def IsPlain (b : UInt8) : Prop := RowTag.isCounted b = false ∧ RowTag.isLine b = false

/-- The bytes of one row. -/
inductive RowText : RawRow → Bytes → Prop
  | counted {ids lengths p : Bytes} {id : Nat} {tag : UInt8} (hid : IdDigits ids id)
      (htag : RowTag.isCounted tag = true) (hlength : LengthDigits lengths p.length) :
      RowText ⟨id, tag, p⟩ (ids ++ byte ':' :: tag :: (lengths ++ byte ',' :: p))
  | tagged {ids t : Bytes} {id : Nat} {tag : UInt8} (hid : IdDigits ids id)
      (hcount : RowTag.isCounted tag = false)
      (htag : RowTag.isLine tag = true) (htext : newline ∉ t) :
      RowText ⟨id, tag, t⟩ (ids ++ byte ':' :: tag :: (t ++ [newline]))
  | untagged {ids t : Bytes} {id : Nat} (hid : IdDigits ids id)
      (hplain : ∀ b ∈ (t ++ [newline]).head?, IsPlain b)
      (htext : newline ∉ t) : RowText ⟨id, 0, t⟩ (ids ++ byte ':' :: (t ++ [newline]))

/-- The beginning of a row that is not the whole of it. -/
def Unfinished (rest : Bytes) : Prop := ∃ row more, more ≠ [] ∧ RowText row (rest ++ more)

/-- A text cut into the texts of rows and the beginning of one more. -/
structure Division (w : Bytes) (texts : List Bytes) (rows : List RawRow) (rest : Bytes) : Prop where
  whole : w = texts.flatten ++ rest
  rows : List.Forall₂ RowText rows texts
  rest : Unfinished rest

/-- A byte that cannot follow the beginning of a row: in a header number it neither ends the number
nor is a digit that keeps it within its bits. -/
inductive Refused : Bytes → UInt8 → Prop
  | id {ds : Bytes} {n : Nat} {b : UInt8} (hid : IdDigits ds n) (hend : b ≠ byte ':')
      (hdigit : ∀ d, HexDigit b d → Nat.pow 2 32 ≤ n * 16 + d) : Refused ds b
  | length {ids ds : Bytes} {id n : Nat} {tag b : UInt8} (hid : IdDigits ids id)
      (htag : RowTag.isCounted tag = true)
      (hlength : LengthDigits ds n) (hend : b ≠ byte ',')
        (hdigit : ∀ d, HexDigit b d → Nat.pow 2 64 ≤ n * 16 + d) :
      Refused (ids ++ byte ':' :: tag :: ds) b

/-! ### Digits -/

theorem toNat_latin (b : UInt8) : (latin b).toNat = b.toNat := by
  have hvalid : b.toNat.isValidChar := .inl (Nat.lt_trans b.toNat_lt (by decide))
  rw [latin, Char.ofNat, dif_pos hvalid]
  rfl

theorem digit?_latin : Hex.digit? (latin b) = some d ↔ HexDigit b d := by
  have hle : ∀ c c' : Char, (c ≤ c') ↔ c.toNat ≤ c'.toNat := fun c c' => Iff.rfl
  simp only [Hex.digit?, Bool.and_eq_true, decide_eq_true_eq, hle, toNat_latin]
  constructor
  · intro h
    split at h
    next hr => exact Option.some.inj h ▸ .decimal hr.1 hr.2
    split at h
    next hr => exact Option.some.inj h ▸ .lower hr.1 hr.2
    split at h
    next hr => exact Option.some.inj h ▸ .upper hr.1 hr.2
    cases h
  · intro h
    cases h with
    | decimal hlow hhigh => exact if_pos ⟨hlow, hhigh⟩
    | lower hlow hhigh =>
      rw [if_neg (fun h => absurd (Nat.le_trans hlow h.2) (by decide))]
      exact if_pos ⟨hlow, hhigh⟩
    | upper hlow hhigh =>
      rw [if_neg (fun h => absurd (Nat.le_trans hlow h.2) (by decide)),
        if_neg (fun h => absurd (Nat.le_trans h.1 hhigh) (by decide))]
      exact if_pos ⟨hlow, hhigh⟩

theorem HexDigit.lt (h : HexDigit b d) : d < 16 := by
  cases h <;> omega

theorem HexDigit.eq_zero_iff (h : HexDigit b d) : d = 0 ↔ b = byte '0' := by
  rw [← UInt8.toNat_inj, show (byte '0').toNat = 0x30 from rfl]
  cases h <;> omega

theorem HexDigit.ne {c : UInt8} (h : HexDigit b d)
    (hc : c.toNat < 0x30 ∨ 0x39 < c.toNat ∧ c.toNat < 0x41) : b ≠ c := by
  rintro rfl
  cases h <;> omega

theorem HexDigit.ne_colon (h : HexDigit b d) : b ≠ byte ':' := h.ne (by decide)

theorem HexDigit.ne_comma (h : HexDigit b d) : b ≠ byte ',' := h.ne (by decide)

/-- Only zeros stand for zero. -/
theorem Digits.eq_zero_iff {ds : Bytes} {n : Nat} (h : Digits ds n) :
    n = 0 ↔ ∀ b ∈ ds, b = byte '0' := by
  induction h with
  | none => simp
  | @more ds n d b hds hb ih =>
    simp only [List.mem_append, List.mem_singleton, or_imp, forall_and, forall_eq,
      ← hb.eq_zero_iff, ← ih]
    omega

theorem IdDigits.none : IdDigits [] 0 := ⟨.none, by decide⟩

theorem LengthDigits.none : LengthDigits [] 0 := ⟨.none, by decide⟩

namespace RowReader

/-- **A header number takes a byte** exactly if it is a digit that keeps the number below its
bound. -/
theorem extend_cases {bound : Nat} (hbound : 16 ∣ bound) (tooLarge : Fault) (n : Nat) (b : UInt8) :
    (∃ d, HexDigit b d ∧ n * 16 + d < bound ∧ extend bound tooLarge n b = .ok (n * 16 + d)) ∨
      (∀ d, HexDigit b d → bound ≤ n * 16 + d) ∧ ∃ f, extend bound tooLarge n b = .error f := by
  obtain ⟨k, rfl⟩ := hbound
  unfold extend
  by_cases hlarge : n * 16 ≥ 16 * k
  · exact .inr ⟨fun d _ => by omega, _, if_pos hlarge⟩
  rw [if_neg hlarge]
  cases hd : Hex.digit? (latin b) with
  | none =>
    refine .inr ⟨fun d hb => ?_, _, rfl⟩
    rw [digit?_latin.mpr hb] at hd
    cases hd
  | some d =>
    have hb := digit?_latin.mp hd
    have := hb.lt
    exact .inl ⟨d, hb, by omega, rfl⟩

theorem extend_digit {bound n : Nat} (hbound : 16 ∣ bound) (tooLarge : Fault) (hb : HexDigit b d)
    (hn : n * 16 + d < bound) : extend bound tooLarge n b = .ok (n * 16 + d) := by
  unfold extend
  rw [if_neg (by omega), digit?_latin.mpr hb]

/-! ### The beginning of a row -/

theorem snoc_inj {s : Bytes} {c : UInt8} (h : s ++ [b] = t ++ [c]) : s = t ∧ b = c := by
  simpa using List.append_inj' h rfl

/-- Where the machine stands in a row that is not complete. -/
inductive Stands : Bytes → RowReader → Prop
  | id {ds : Bytes} {n : Nat} (hid : IdDigits ds n) : Stands ds (.atId n)
  | tag {ids : Bytes} {id : Nat} (hid : IdDigits ids id) : Stands (ids ++ [byte ':']) (.atTag id)
  | length {ids ds : Bytes} {id n : Nat} {tag : UInt8} (hid : IdDigits ids id)
      (htag : RowTag.isCounted tag = true)
      (hlength : LengthDigits ds n) : Stands (ids ++ byte ':' :: tag :: ds) (.atLength id tag n)
  | tagged {ids t : Bytes} {id : Nat} {tag : UInt8} (hid : IdDigits ids id)
      (hcount : RowTag.isCounted tag = false)
      (htag : RowTag.isLine tag = true) (htext : newline ∉ t) :
      Stands (ids ++ byte ':' :: tag :: t) (.inLine id tag t.reverse)
  | untagged {ids t : Bytes} {id : Nat} {b : UInt8} (hid : IdDigits ids id) (hplain : IsPlain b)
      (htext : newline ∉ b :: t) :
      Stands (ids ++ byte ':' :: b :: t) (.inLine id 0 (b :: t).reverse)
  | bytes {ids lengths g : Bytes} {id left : Nat} {tag : UInt8} (hid : IdDigits ids id)
      (htag : RowTag.isCounted tag = true) (hlength : LengthDigits lengths (g.length + left))
        (hleft : 0 < left) :
      Stands (ids ++ byte ':' :: tag :: (lengths ++ byte ',' :: g)) (.inBytes id tag left g.reverse)

/-- What one byte does to the beginning of a row: it lengthens it, completes it, or is refused. -/
inductive Advance (rest : Bytes) (r : RowReader) (b : UInt8) : Prop
  | on {n : RowReader} (hstep : r.step b = .ok (n, none)) (hnext : Stands (rest ++ [b]) n)
  | complete {w : RawRow} (hstep : r.step b = .ok (start, some w)) (hrow : RowText w (rest ++ [b]))
  | refuse {f : Fault} (hstep : r.step b = .error f) (hrefused : Refused rest b)

theorem isPlain_newline : IsPlain newline := ⟨by decide, by decide⟩

/-- A byte of a line, with or without a tag. -/
theorem lineStep_advance (id : Nat) (tag : UInt8) {payload lead : Bytes}
    (hstep : r.step b = .ok (lineStep id tag payload.reverse b))
    (hon : b ≠ newline → Stands (lead ++ payload ++ [b]) (.inLine id tag (payload ++ [b]).reverse))
    (hrow : RowText ⟨id, tag, payload⟩ (lead ++ payload ++ [newline])) :
    Advance (lead ++ payload) r b := by
  by_cases hb : b = newline
  · subst hb
    rw [lineStep, if_pos (by simp), List.reverse_reverse] at hstep
    exact .complete hstep hrow
  · rw [lineStep, if_neg (by simpa using hb)] at hstep
    refine .on hstep ?_
    simpa using hon hb

/-- **The machine goes through a row as the grammar does.** -/
theorem Stands.advance (h : Stands rest r) (b : UInt8) : Advance rest r b := by
  cases h with
  | @id ds n hid =>
    by_cases hcolon : b = byte ':'
    · subst hcolon
      exact .on (by simp [step]) (.tag hid)
    have hstep : (atId n).step b = (extend (Nat.pow 2 32) .rowIdTooLarge n b).map fun n =>
        (.atId n, none) := by
      simp [step, hcolon]
    obtain ⟨d, hd, hfit, hext⟩ | ⟨hnone, f, hext⟩ := extend_cases (show 16 ∣ Nat.pow 2 32 by decide)
      .rowIdTooLarge n b
    · exact .on (hstep.trans (by rw [hext]; rfl)) (.id ⟨hid.1.more hd, hfit⟩)
    · exact .refuse (hstep.trans (by rw [hext]; rfl)) (.id hid hcolon hnone)
  | @tag ids id hid =>
    rw [show ids ++ [byte ':'] = ids ++ [byte ':'] ++ [] by simp]
    by_cases hcount : RowTag.isCounted b = true
    · refine .on (n := .atLength id b 0) (by simp [step, hcount]) ?_
      simpa using Stands.length hid hcount .none
    by_cases hline : RowTag.isLine b = true
    · refine .on (n := .inLine id b []) (by simp [step, hcount, hline]) ?_
      simpa using Stands.tagged (t := []) hid (by simpa using hcount) hline (by simp)
    refine lineStep_advance id 0 (by simp [step, hcount, hline]) (fun hb => ?_) ?_
    · simpa using Stands.untagged (t := []) hid ⟨by simpa using hcount, by simpa using hline⟩
        (by simpa using Ne.symm hb)
    · simpa using RowText.untagged (t := []) hid (by simpa using isPlain_newline) (by simp)
  | @length ids ds id n tag hid htag hlength =>
    by_cases hcomma : b = byte ','
    · subst hcomma
      by_cases hzero : n = 0
      · subst hzero
        refine .complete (w := ⟨id, tag, []⟩) (by simp [step]) ?_
        simpa using RowText.counted (p := []) hid htag hlength
      · refine .on (n := .inBytes id tag n []) (by simp [step, hzero]) ?_
        simpa using Stands.bytes (g := []) hid htag (by simpa using hlength)
          (Nat.pos_of_ne_zero hzero)
    have hstep : (atLength id tag n).step b =
        (extend (Nat.pow 2 64) .rowLengthTooLarge n b).map fun n => (.atLength id tag n, none) := by
      simp [step, hcomma]
    obtain ⟨d, hd, hfit, hext⟩ | ⟨hnone, f, hext⟩ := extend_cases (show 16 ∣ Nat.pow 2 64 by decide)
      .rowLengthTooLarge n b
    · refine .on (hstep.trans (by rw [hext]; rfl)) ?_
      simpa using Stands.length hid htag ⟨hlength.1.more hd, hfit⟩
    · exact .refuse (hstep.trans (by rw [hext]; rfl)) (.length hid htag hlength hcomma hnone)
  | @tagged ids text id tag hid hcount htag htext =>
    rw [show ids ++ byte ':' :: tag :: text = ids ++ [byte ':', tag] ++ text by simp]
    refine lineStep_advance id tag rfl (fun hb => ?_) ?_
    · have hmore : newline ∉ text ++ [b] := by simpa [htext] using Ne.symm hb
      simpa using Stands.tagged hid hcount htag hmore
    · simpa using RowText.tagged hid hcount htag htext
  | @untagged ids text id c hid hplain htext =>
    rw [show ids ++ byte ':' :: c :: text = ids ++ [byte ':'] ++ c :: text by simp]
    refine lineStep_advance id 0 rfl (fun hb => ?_) ?_
    · have hmore : newline ∉ c :: (text ++ [b]) := by
        rw [← List.cons_append, List.mem_append, not_or, List.mem_singleton]
        exact ⟨htext, Ne.symm hb⟩
      simpa using Stands.untagged hid hplain hmore
    · simpa using RowText.untagged (t := c :: text) hid (by simpa using hplain) htext
  | @bytes ids lengths got id left tag hid htag hlength hleft =>
    by_cases hlast : left ≤ 1
    · have hone : left = 1 := by omega
      subst hone
      refine .complete (w := ⟨id, tag, got ++ [b]⟩) (by simp [step]) ?_
      simpa using RowText.counted (p := got ++ [b]) hid htag (by simpa using hlength)
    · refine .on (n := .inBytes id tag (left - 1) (got ++ [b]).reverse) (by simp [step, hlast]) ?_
      have hmore : LengthDigits lengths ((got ++ [b]).length + (left - 1)) := by
        rwa [List.length_append, List.length_singleton, Nat.add_assoc,
          Nat.add_sub_cancel' (by omega)]
      simpa using Stands.bytes hid htag hmore (by omega)

/-- **The beginning of a row has one byte less to go back to**: the machine stood in that one and
took the byte. -/
theorem Stands.back (h : Stands (rest ++ [b]) r) :
    ∃ before, Stands rest before ∧ before.step b = .ok (r, none) := by
  generalize hw : rest ++ [b] = w at h
  cases h with
  | id hid =>
    obtain ⟨hds, hfit⟩ := hid
    cases hds with
    | none => simp at hw
    | @more ds n d c hds hc =>
      obtain ⟨rfl, rfl⟩ : rest = ds ∧ b = c := snoc_inj hw
      refine ⟨.atId n, .id ⟨hds, by omega⟩, ?_⟩
      simp [step, hc.ne_colon, extend_digit (by decide) _ hc hfit, Except.map]
  | @tag ids id hid =>
    obtain ⟨rfl, rfl⟩ : rest = ids ∧ b = byte ':' := snoc_inj hw
    exact ⟨_, .id hid, by simp [step]⟩
  | @length ids ds id n tag hid htag hlength =>
    obtain ⟨hds, hfit⟩ := hlength
    cases hds with
    | none =>
      obtain ⟨rfl, rfl⟩ : rest = ids ++ [byte ':'] ∧ b = tag :=
        snoc_inj (by simpa using hw)
      exact ⟨_, .tag hid, by simp [step, htag]⟩
    | @more ds n d c hds hc =>
      obtain ⟨rfl, rfl⟩ : rest = ids ++ byte ':' :: tag :: ds ∧ b = c :=
        snoc_inj (by simpa using hw)
      refine ⟨_, .length hid htag ⟨hds, by omega⟩, ?_⟩
      simp [step, hc.ne_comma, extend_digit (by decide) _ hc hfit, Except.map]
  | @tagged ids text id tag hid hcount htag htext =>
    cases text using List.reverseRecOn with
    | nil =>
      obtain ⟨rfl, rfl⟩ : rest = ids ++ [byte ':'] ∧ b = tag :=
        snoc_inj (by simpa using hw)
      exact ⟨_, .tag hid, by simp [step, hcount, htag]⟩
    | append_singleton text c =>
      obtain ⟨rfl, rfl⟩ : rest = ids ++ byte ':' :: tag :: text ∧ b = c :=
        snoc_inj (by simpa using hw)
      rw [List.mem_append, not_or, List.mem_singleton] at htext
      exact ⟨_, .tagged hid hcount htag htext.1, by simp [step, lineStep, Ne.symm htext.2]⟩
  | @untagged ids text id c hid hplain htext =>
    cases text using List.reverseRecOn with
    | nil =>
      obtain ⟨rfl, rfl⟩ : rest = ids ++ [byte ':'] ∧ b = c :=
        snoc_inj (by simpa using hw)
      have hb : b ≠ newline := fun h => htext (by simp [h])
      exact ⟨_, .tag hid, by simp [step, lineStep, hplain.1, hplain.2, hb]⟩
    | append_singleton text e =>
      obtain ⟨rfl, rfl⟩ : rest = ids ++ byte ':' :: c :: text ∧ b = e :=
        snoc_inj (by simpa using hw)
      rw [← List.cons_append, List.mem_append, not_or, List.mem_singleton] at htext
      exact ⟨_, .untagged hid hplain htext.1, by simp [step, lineStep, Ne.symm htext.2]⟩
  | @bytes ids lengths got id left tag hid htag hlength hleft =>
    cases got using List.reverseRecOn with
    | nil =>
      obtain ⟨rfl, rfl⟩ : rest = ids ++ byte ':' :: tag :: lengths ∧ b = byte ',' :=
        snoc_inj (by simpa using hw)
      refine ⟨_, .length hid htag (by simpa using hlength), ?_⟩
      simp [step, Nat.ne_of_gt hleft]
    | append_singleton got c =>
      obtain ⟨rfl, rfl⟩ : rest = ids ++ byte ':' :: tag :: (lengths ++ byte ',' :: got) ∧ b = c :=
        snoc_inj (by simpa using hw)
      have hmore : LengthDigits lengths (got.length + (left + 1)) := by
        rwa [List.length_append, List.length_singleton, Nat.add_assoc,
          Nat.add_comm 1 left] at hlength
      refine ⟨_, .bytes hid htag hmore (by omega), ?_⟩
      simp [step, Nat.ne_of_gt hleft]

theorem Stands.eq_start (h : Stands [] r) : r = start := by
  generalize hw : ([] : Bytes) = w at h
  cases h with
  | id hid =>
    subst hw
    obtain rfl := hid.1.eq_zero_iff.mpr (by simp)
    rfl
  | _ => simp at hw

theorem feed_of_step {next : RowReader} {row : Option RawRow} (h : r.step b = .ok (next, row)) :
    r.feed [b] = ⟨row.toList, next, none⟩ := by
  cases row <;> simp [feed, h]

theorem feed_of_refused {f : Fault} (h : r.step b = .error f) (rest : Bytes) :
    r.feed (b :: rest) = ⟨[], r, some f⟩ := by
  simp [feed, h]

/-- The machine reads the beginning of a row as it stands there. -/
theorem Stands.feed (h : Stands rest r) : start.feed rest = ⟨[], r, none⟩ := by
  induction rest using List.reverseRecOn generalizing r with
  | nil => rw [h.eq_start, RowReader.feed]
  | append_singleton rest b ih =>
    obtain ⟨before, hbefore, hstep⟩ := h.back
    rw [feed_append, ih hbefore]
    simp [Fed.andThen, feed_of_step hstep]

/-- The machine stands in every beginning of what it stands in. -/
theorem Stands.left (h : Stands (rest ++ more) r) : ∃ before, Stands rest before := by
  induction more using List.reverseRecOn generalizing r with
  | nil => exact ⟨r, by simpa using h⟩
  | append_singleton more b ih =>
    rw [← List.append_assoc] at h
    obtain ⟨before, hbefore, -⟩ := h.back
    exact ih hbefore

/-- A beginning that leaves no trace consists of zeros. -/
theorem Stands.isIdle_iff (h : Stands rest r) :
    r.isIdle = true ↔ ∀ b ∈ rest, b = byte '0' := by
  have colon : ∀ ids more : Bytes, ¬ ∀ b ∈ ids ++ byte ':' :: more, b = byte '0' :=
    fun ids more hall => absurd (hall (byte ':') (by simp)) (by decide)
  cases h with
  | id hid =>
    rw [← hid.1.eq_zero_iff]
    simp [isIdle, start]
  | tag hid | length hid | tagged hid | untagged hid | bytes hid =>
    exact iff_of_false (by simp [isIdle, start]) (colon _ _)

end RowReader

/-! ### Whole rows -/

open RowReader

/-- **A row is complete with its last byte**, and not before. -/
theorem RowText.last (h : RowText row t) :
    ∃ rest b r, t = rest ++ [b] ∧ Stands rest r ∧ r.step b = .ok (start, some row) := by
  cases h with
  | @counted ids lengths payload id tag hid htag hlength =>
    cases payload using List.reverseRecOn with
    | nil =>
      refine ⟨ids ++ byte ':' :: tag :: lengths, byte ',', _, by simp, .length hid htag hlength, ?_⟩
      simp [step]
    | append_singleton payload b =>
      have hleft : LengthDigits lengths (payload.length + 1) := by simpa using hlength
      refine ⟨ids ++ byte ':' :: tag :: (lengths ++ byte ',' :: payload), b,
        _, by simp, .bytes hid htag hleft (by simp), ?_⟩
      simp [step]
  | @tagged ids text id tag hid hcount htag htext =>
    refine ⟨ids ++ byte ':' :: tag :: text, newline, _, by simp, .tagged hid hcount htag htext, ?_⟩
    simp [step, lineStep]
  | @untagged ids text id hid hplain htext =>
    cases text with
    | nil =>
      refine ⟨ids ++ [byte ':'], newline, _, by simp, .tag hid, ?_⟩
      simp [step, lineStep, isPlain_newline.1, isPlain_newline.2]
    | cons b text =>
      refine ⟨ids ++ byte ':' :: b :: text, newline,
        _, by simp, .untagged hid (hplain b (by simp)) htext, ?_⟩
      simp [step, lineStep]

/-- A row is read as it is, whatever follows it. -/
theorem RowText.feed (h : RowText row t) (more : Bytes) :
    start.feed (t ++ more) = { start.feed more with rows := row :: (start.feed more).rows } := by
  obtain ⟨rest, b, r, rfl, hrest, hstep⟩ := h.last
  rw [List.append_assoc, feed_append, hrest.feed]
  simp [Fed.andThen, RowReader.feed, hstep]

/-- The beginnings of rows are where the machine stands. -/
theorem unfinished_iff : Unfinished rest ↔ ∃ r, Stands rest r := by
  constructor
  · rintro ⟨row, more, hmore, hrow⟩
    obtain ⟨lead, b, r, hw, hlead, -⟩ := hrow.last
    obtain ⟨more, c, rfl⟩ : ∃ init c, more = init ++ [c] :=
      ⟨_, _, (List.dropLast_append_getLast hmore).symm⟩
    obtain ⟨rfl, -⟩ := List.append_inj' ((List.append_assoc ..).trans hw) rfl
    exact hlead.left
  · rintro ⟨r, hr⟩
    cases hr with
    | @id ds n hid =>
      exact ⟨_, [byte ':', newline], by simp,
        .untagged (t := []) hid (by simpa using isPlain_newline) (by simp)⟩
    | @tag ids id hid =>
      refine ⟨⟨id, 0, []⟩, [newline], by simp, ?_⟩
      simpa using RowText.untagged (t := []) hid (by simpa using isPlain_newline) (by simp)
    | @length ids ds id n tag hid htag hlength =>
      refine ⟨⟨id, tag, List.replicate n 0⟩, byte ',' :: List.replicate n 0, by simp, ?_⟩
      simpa using RowText.counted (p := List.replicate n 0) hid htag (by simpa using hlength)
    | @tagged ids text id tag hid hcount htag htext =>
      refine ⟨⟨id, tag, text⟩, [newline], by simp, ?_⟩
      simpa using RowText.tagged hid hcount htag htext
    | @untagged ids text id b hid hplain htext =>
      refine ⟨⟨id, 0, b :: text⟩, [newline], by simp, ?_⟩
      simpa using RowText.untagged (t := b :: text) hid (by simpa using hplain) htext
    | @bytes ids lengths got id left tag hid htag hlength hleft =>
      refine ⟨⟨id, tag, got ++ List.replicate left 0⟩, List.replicate left 0, by simp; omega, ?_⟩
      simpa using RowText.counted (p := got ++ List.replicate left 0) hid htag
        (by simpa using hlength)

/-- No row is the beginning of another. -/
theorem RowText.eq_of_append {row' : RawRow} {t' more' : Bytes} (h : RowText row t)
    (h' : RowText row' t') (hw : t ++ more = t' ++ more') : t = t' := by
  -- a proper beginning of a row yields no row, a row does
  have proper : ∀ {row row' : RawRow} {t t' u : Bytes}, RowText row t → RowText row' t' →
      t' = t ++ u → u = [] := by
    intro row row' t t' u h h' ht
    by_contra hu
    obtain ⟨r, hr⟩ := unfinished_iff.mp ⟨row', u, hu, ht ▸ h'⟩
    have hread := h.feed []
    rw [List.append_nil, hr.feed] at hread
    simp at hread
  obtain ⟨u, rfl, -⟩ | ⟨u, rfl, -⟩ := List.append_eq_append_iff.mp hw
  · rw [proper h h' rfl, List.append_nil]
  · rw [proper h' h rfl, List.append_nil]

/-- The beginning of a row holds no whole one. -/
theorem RowText.not_left_of_unfinished (h : RowText row t) : ¬ Unfinished (t ++ more) := by
  intro hrest
  obtain ⟨r, hr⟩ := unfinished_iff.mp hrest
  obtain ⟨before, hbefore⟩ := hr.left
  have hread := h.feed []
  rw [List.append_nil, hbefore.feed] at hread
  simp at hread

/-! ### Texts -/

/-- **A divided text is read as it is divided.** -/
theorem Division.feed {w : Bytes} (h : Division w texts rows rest) :
    ∃ r, Stands rest r ∧ start.feed w = ⟨rows, r, none⟩ := by
  obtain ⟨rfl, hrows, hrest⟩ := h
  obtain ⟨r, hr⟩ := unfinished_iff.mp hrest
  refine ⟨r, hr, ?_⟩
  induction hrows with
  | nil => exact hr.feed
  | cons hrow hrows ih => rw [List.flatten_cons, List.append_assoc, hrow.feed, ih]

/-- **A text is divided in one way.** -/
theorem Division.unique {w rest' : Bytes} {texts' : List Bytes} {rows' : List RawRow}
    (h : Division w texts rows rest) (h' : Division w texts' rows' rest') :
    texts = texts' ∧ rows = rows' ∧ rest = rest' := by
  obtain ⟨_, _, hread⟩ := h.feed
  obtain ⟨_, _, hread'⟩ := h'.feed
  have hrows : rows = rows' := congrArg Fed.rows (hread.symm.trans hread')
  obtain ⟨rfl, hforall, hrest⟩ := h
  obtain ⟨hw, hforall', hrest'⟩ := h'
  refine and_left_comm.mp ⟨hrows, ?_⟩
  clear hread hread' hrows
  induction hforall generalizing texts' rows' with
  | nil =>
    cases hforall' with
    | nil => exact ⟨rfl, by simpa using hw⟩
    | cons hrow _ =>
      rw [List.flatten_nil, List.nil_append, List.flatten_cons, List.append_assoc] at hw
      exact absurd (hw ▸ hrest) hrow.not_left_of_unfinished
  | @cons row t rows texts hrow hrows ih =>
    cases hforall' with
    | nil =>
      rw [List.flatten_nil, List.nil_append, List.flatten_cons, List.append_assoc] at hw
      exact absurd (hw ▸ hrest') hrow.not_left_of_unfinished
    | @cons row' t' rows' texts' hrow' hrows' =>
      simp only [List.flatten_cons, List.append_assoc] at hw
      obtain rfl := hrow.eq_of_append hrow' hw
      obtain ⟨rfl, rfl⟩ := ih (List.append_cancel_left hw) hrows'
      exact ⟨rfl, rfl⟩

/-- **Every text is divided, or it is up to a byte that is refused.** -/
theorem divided_or_refused (w : Bytes) :
    (∃ texts rows rest, Division w texts rows rest) ∨
      ∃ texts rows rest b tail, w = texts.flatten ++ rest ++ b :: tail ∧
        Division (texts.flatten ++ rest) texts rows rest ∧ Refused rest b := by
  induction w using List.reverseRecOn with
  | nil => exact .inl ⟨[], [], [], rfl, .nil, unfinished_iff.mpr ⟨_, .id .none⟩⟩
  | append_singleton w b ih =>
    obtain ⟨texts, rows, rest, rfl, hrows, hrest⟩ |
      ⟨texts, rows, rest, c, tail, rfl, hdivision, hrefused⟩ := ih
    · obtain ⟨r, hr⟩ := unfinished_iff.mp hrest
      cases hr.advance b with
      | on _ hnext =>
        exact .inl ⟨texts, rows, rest ++ [b], by simp, hrows, unfinished_iff.mpr ⟨_, hnext⟩⟩
      | @complete row _ hrow =>
        refine .inl ⟨texts ++ [rest ++ [b]], rows ++ [row],
          [], by simp, ?_, unfinished_iff.mpr ⟨_, .id .none⟩⟩
        exact List.rel_append hrows (.cons hrow .nil)
      | refuse _ hrefused =>
        exact .inr ⟨texts, rows, rest, b, [], rfl, ⟨rfl, hrows, hrest⟩, hrefused⟩
    · exact .inr ⟨texts, rows, rest, c, tail ++ [b], by simp, hdivision, hrefused⟩

/-- The machine refuses what the grammar refuses. -/
theorem Refused.step (h : Refused rest b) :
    ∃ r f, Stands rest r ∧ r.step b = .error f := by
  cases h with
  | @id _ n _ hid hend hdigit =>
    obtain ⟨d, hd, hfit, -⟩ | ⟨-, f, hext⟩ := extend_cases (show 16 ∣ Nat.pow 2 32 by decide)
      .rowIdTooLarge n b
    · exact absurd (hdigit d hd) (by omega)
    · exact ⟨_, f, .id hid, by simp [RowReader.step, hend, hext, Except.map]⟩
  | @length ids ds id n tag _ hid htag hlength hend hdigit =>
    obtain ⟨d, hd, hfit, -⟩ | ⟨-, f, hext⟩ := extend_cases (show 16 ∣ Nat.pow 2 64 by decide)
      .rowLengthTooLarge n b
    · exact absurd (hdigit d hd) (by omega)
    · exact ⟨_, f, .length hid htag hlength, by simp [RowReader.step, hend, hext, Except.map]⟩

/-- A byte that is refused is a fault of the machine, behind the rows before it. -/
theorem Refused.feed (h : Refused rest b)
    (hrows : List.Forall₂ RowText rows texts) (tail : Bytes) :
    ∃ r f, start.feed (texts.flatten ++ rest ++ b :: tail) = ⟨rows, r, some f⟩ := by
  obtain ⟨r, f, hr, hstep⟩ := h.step
  obtain ⟨r', hr', hread⟩ := Division.feed ⟨rfl, hrows, unfinished_iff.mpr ⟨r, hr⟩⟩
  obtain rfl : r = r' := congrArg Fed.reader (hr.feed.symm.trans hr'.feed)
  refine ⟨r, f, ?_⟩
  rw [feed_append, hread]
  simp [Fed.andThen, feed_of_refused hstep]

/-- **The reader accepts exactly the grammar.** A text that is made of whole rows and the beginning
of one more is read without a fault: the rows come out as they are, and the reader is idle exactly
if the beginning consists of zeros. There is one such division at most. A text without one is
refused: up to a header byte that is no digit, or one too many, it is divided, and the rows of that
division come out. -/
theorem reads_exactly_the_grammar (w : Bytes) :
    (∀ texts rows rest, Division w texts rows rest →
      (start.feed w).rows = rows ∧ (start.feed w).fault = none ∧
        ((start.feed w).reader.isIdle = true ↔ ∀ b ∈ rest, b = byte '0')) ∧
    (∀ texts rows rest texts' rows' rest', Division w texts rows rest →
      Division w texts' rows' rest' → texts = texts' ∧ rows = rows' ∧ rest = rest') ∧
    ((¬ ∃ texts rows rest, Division w texts rows rest) → (start.feed w).fault.isSome ∧
      ∃ texts rest b tail, w = texts.flatten ++ rest ++ b :: tail ∧
        Division (texts.flatten ++ rest) texts (start.feed w).rows rest ∧ Refused rest b) := by
  refine ⟨fun texts rows rest h => ?_, fun _ _ _ _ _ _ h h' => h.unique h', fun hnone => ?_⟩
  · obtain ⟨r, hr, hread⟩ := h.feed
    rw [hread]
    exact ⟨rfl, rfl, hr.isIdle_iff⟩
  · obtain hdivided | ⟨texts, rows, rest, b, tail, rfl, hdivision, hrefused⟩ := divided_or_refused w
    · exact absurd hdivided hnone
    · obtain ⟨r, f, hread⟩ := hrefused.feed hdivision.rows tail
      rw [hread]
      exact ⟨rfl, texts, rest, b, tail, rfl, hdivision, hrefused⟩

/-- One row and two zeros: the zeros leave the reader idle. -/
theorem reads_exactly_the_grammar_zeros :
    Division [byte '1', byte ':', byte '2', newline, byte '0',
      byte '0'] [[byte '1', byte ':', byte '2', newline]]
        [⟨1, 0, [byte '2']⟩] [byte '0', byte '0'] ∧
      (start.feed [byte '1', byte ':', byte '2', newline, byte '0', byte '0']).reader.isIdle =
        true := by
  have hone : IdDigits [byte '1'] 1 := ⟨.more .none (.decimal (by decide) (by decide)), by decide⟩
  have hzeros : IdDigits [byte '0', byte '0'] 0 :=
    ⟨.more (.more .none (.decimal (by decide) (by decide)))
      (.decimal (by decide) (by decide)), by decide⟩
  have hrow : RowText ⟨1, 0, [byte '2']⟩ [byte '1', byte ':', byte '2', newline] :=
    .untagged (t := [byte '2']) hone (by simpa using ⟨by decide, by decide⟩) (by decide)
  have hdivision : Division [byte '1', byte ':', byte '2', newline, byte '0', byte '0']
      [[byte '1', byte ':', byte '2', newline]] [⟨1, 0, [byte '2']⟩] [byte '0', byte '0'] :=
    ⟨rfl, .cons hrow .nil, unfinished_iff.mpr ⟨_, .id hzeros⟩⟩
  exact ⟨hdivision, ((reads_exactly_the_grammar _).1 _ _ _ hdivision).2.2.mpr (by simp)⟩

end GraphRows
