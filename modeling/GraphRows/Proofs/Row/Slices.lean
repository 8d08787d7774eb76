import GraphRows.Proofs.Row.Framing

/-!
# Reading by slices

`RowReader.feed` takes one byte at a time. A reader that is given a whole piece need not do so: in a
line it looks for the newline, and of counted bytes it takes as many as were announced, or all there
are. Only headers are read byte by byte. A byte after an id that is no tag is not consumed but left
to the line, and a counted row without bytes is complete without there being a next byte.

Such a reader is `RowReader.slices`. It stands between the same states and reads the same rows, so
what is known of bytes is known of slices; in particular it does not matter where pieces are cut.

## Main results

* `slices_eq_feed`: slices are read like bytes
* `slices_append`: where the bytes are cut does not matter
-/

namespace GraphRows

namespace RowReader

variable {r : RowReader} {id : Nat} {tag : UInt8}

/-- The row that is complete without another byte. -/
def due? : RowReader → Option RawRow
  | .inBytes id tag 0 payload => some ⟨id, tag, payload.reverse⟩
  | _ => none

/-- How often the reader may go on before it consumes a byte. -/
def idling : RowReader → Nat
  | .atTag _ => 1
  | .inBytes _ _ _ _ => 1
  | _ => 0

/-- What is read when a row was completed before. -/
def Fed.behind (fed : Fed) (row : RawRow) : Fed := { fed with rows := row :: fed.rows }

/-- Feed a piece slice by slice. -/
def slices (r : RowReader) (piece : Bytes) : Fed :=
  match piece, r with
  | [], r =>
    match r.due? with
    | some row => ⟨[row], start, none⟩
    | none => ⟨[], r, none⟩
  | b :: rest, .atId n =>
    if b == byte ':' then slices (.atTag n) rest
    else
      match extend (Nat.pow 2 32) .rowIdTooLarge n b with
      | .error f => ⟨[], .atId n, some f⟩
      | .ok n => slices (.atId n) rest
  | b :: rest, .atTag id =>
    if RowTag.isCounted b then slices (.atLength id b 0) rest
    else if RowTag.isLine b then slices (.inLine id b []) rest
    else slices (.inLine id 0 []) (b :: rest)
  | b :: rest, .atLength id tag n =>
    if b == byte ',' then slices (.inBytes id tag n []) rest
    else
      match extend (Nat.pow 2 64) .rowLengthTooLarge n b with
      | .error f => ⟨[], .atLength id tag n, some f⟩
      | .ok n => slices (.atLength id tag n) rest
  | b :: rest, .inLine id tag payload =>
    match (b :: rest).findIdx? (· == newline) with
    | some i =>
      (slices start ((b :: rest).drop (i + 1))).behind
        ⟨id, tag, payload.reverse ++ (b :: rest).take i⟩
    | none => ⟨[], .inLine id tag ((b :: rest).reverse ++ payload), none⟩
  | b :: rest, .inBytes id tag left payload =>
    if left ≤ (b :: rest).length then
      (slices start ((b :: rest).drop left)).behind
        ⟨id, tag, payload.reverse ++ (b :: rest).take left⟩
    else
      ⟨[], .inBytes id tag (left - (b :: rest).length) ((b :: rest).reverse ++ payload), none⟩
termination_by (piece.length, r.idling)
decreasing_by all_goals simp [Prod.lex_def, idling, start] <;> omega

/-! ### Slices without an end -/

theorem feed_inLine_open {text : Bytes} (h : newline ∉ text) (acc : Bytes) :
    (inLine id tag acc).feed text = ⟨[], .inLine id tag (text.reverse ++ acc), none⟩ := by
  induction text generalizing acc with
  | nil => rfl
  | cons b text ih =>
    rw [List.mem_cons, not_or] at h
    have hb : (b == newline) = false := beq_eq_false_iff_ne.mpr (Ne.symm h.1)
    simp [feed, step, lineStep, hb, ih h.2]

theorem feed_inBytes_open {payload : Bytes} {left : Nat} (h : payload.length < left) (acc : Bytes) :
    (inBytes id tag left acc).feed payload =
      ⟨[], .inBytes id tag (left - payload.length) (payload.reverse ++ acc), none⟩ := by
  induction payload generalizing left acc with
  | nil => rfl
  | cons b payload ih =>
    rw [List.length_cons] at h
    rw [feed, step, if_neg (by omega)]
    dsimp only
    rw [ih (by omega), List.length_cons, Nat.sub_sub, Nat.add_comm 1]
    simp

/-! ### Slices and bytes -/

/-- A slice of a line, up to its newline. -/
theorem feed_inLine_of_findIdx? {piece : Bytes} {i : Nat}
    (h : piece.findIdx? (· == newline) = some i) (acc : Bytes) :
    (inLine id tag acc).feed piece =
      (start.feed (piece.drop (i + 1))).behind ⟨id, tag, acc.reverse ++ piece.take i⟩ := by
  obtain ⟨hi, hnewline, hbefore⟩ := List.findIdx?_eq_some_iff_getElem.mp h
  have hsplit : piece = piece.take i ++ newline :: piece.drop (i + 1) := by
    rw [← beq_iff_eq.mp hnewline, ← List.drop_eq_getElem_cons hi, List.take_append_drop]
  have hnot : newline ∉ piece.take i := by
    intro hmem
    obtain ⟨k, hk, hget⟩ := List.mem_take_iff_getElem.mp hmem
    exact hbefore k (by omega) (by simp [hget])
  rw [hsplit, feed_inLine id tag hnot, ← hsplit]
  rfl

/-- **Slices are read like bytes**, when the row that is due, if any, has been handed out. -/
theorem slices_eq (r : RowReader) (piece : Bytes) :
    r.slices piece = match r.due? with
      | some row => (start.feed piece).behind row
      | none => r.feed piece := by
  fun_induction slices r piece with
  | case1 r row h => simp [h, feed, Fed.behind]
  | case2 r h => simp [h, feed]
  | case3 b rest n hb ih => simp [ih, due?, feed, step, hb]
  | case4 b rest n hb f hf => simp [due?, feed, step, hb, hf, Except.map]
  | case5 b rest n hb n' hn ih => simp [ih, due?, feed, step, hb, hn, Except.map]
  | case6 b rest id hb ih => simp [ih, due?, feed, step, hb]
  | case7 b rest id hb hb' ih => simp [ih, due?, feed, step, hb, hb']
  | case8 b rest id hb hb' ih =>
    cases hline : lineStep id 0 [] b with
    | mk next row => cases row <;> simp [ih, due?, feed, step, hb, hb', hline]
  | case9 b rest id tag n hb ih =>
    cases n with
    | zero => simp [ih, due?, feed, step, hb, Fed.behind]
    | succ n => simp [ih, due?, feed, step, hb]
  | case10 b rest id tag n hb f hf => simp [due?, feed, step, hb, hf, Except.map]
  | case11 b rest id tag n hb n' hn ih => simp [ih, due?, feed, step, hb, hn, Except.map]
  | case12 b rest id tag payload i hi ih =>
    rw [ih]
    exact (feed_inLine_of_findIdx? hi payload).symm
  | case13 b rest id tag payload hnone =>
    refine (feed_inLine_open (fun hmem => ?_) payload).symm
    have hnot := List.findIdx?_eq_none_iff.mp hnone newline hmem
    simp at hnot
  | case14 b rest id tag left payload hleft ih =>
    rw [ih]
    cases left with
    | zero => simp [due?, start]
    | succ left =>
      have hlength : ((b :: rest).take (left + 1)).length = left + 1 := List.length_take_of_le hleft
      have hread := feed_inBytes id tag (List.ne_nil_of_length_eq_add_one hlength) payload
        ((b :: rest).drop (left + 1))
      rw [hlength, List.take_append_drop] at hread
      exact hread.symm
  | case15 b rest id tag left payload hleft =>
    have hread : (inBytes id tag left payload).feed (b :: rest) = _ :=
      feed_inBytes_open (Nat.lt_of_not_le hleft) payload
    cases left with
    | zero => exact absurd (Nat.zero_le _) hleft
    | succ left => exact hread.symm

/-- No byte leaves the reader in a state in which a row is due. -/
theorem due?_step {b : UInt8} {next : RowReader} {row : Option RawRow}
    (h : r.step b = .ok (next, row)) : next.due? = none := by
  have line : ∀ {id tag payload}, lineStep id tag payload b = (next, row) → next.due? = none := by
    intro id tag payload h
    unfold lineStep at h
    split at h <;> cases h <;> rfl
  have digit : ∀ {bound f n} {state : Nat → RowReader}, (∀ n, (state n).due? = none) →
      (extend bound f n b).map (fun n => (state n, none)) = .ok (next, row) → next.due? = none := by
    intro bound f n state hstate h
    cases hn : extend bound f n b with
    | error f => simp [hn, Except.map] at h
    | ok n =>
      rw [hn] at h
      cases h
      exact hstate n
  cases r with
  | atId n =>
    rw [step] at h
    split at h
    · cases h
      rfl
    · exact digit (fun _ => rfl) h
  | atTag id =>
    rw [step] at h
    repeat' split at h
    any_goals cases h; rfl
    exact line (Except.ok.inj h)
  | atLength id tag n =>
    rw [step] at h
    split at h
    · cases n <;> cases h <;> rfl
    · exact digit (fun _ => rfl) h
  | inLine id tag payload => exact line (Except.ok.inj h)
  | inBytes id tag left payload =>
    rw [step] at h
    split at h
    · cases h
      rfl
    · rename_i hleft
      cases h
      obtain ⟨k, hk⟩ := Nat.exists_eq_succ_of_ne_zero (n := left - 1) (by omega)
      rw [hk]
      rfl

theorem due?_feed (h : r.due? = none) (piece : Bytes) : (r.feed piece).reader.due? = none := by
  induction piece generalizing r with
  | nil => exact h
  | cons b rest ih =>
    rw [feed]
    split
    · exact h
    · rename_i hstep
      exact ih (due?_step hstep)
    · rename_i hstep
      exact ih (due?_step hstep)

theorem slices_eq_feed (h : r.due? = none) (piece : Bytes) : r.slices piece = r.feed piece := by
  rw [slices_eq, h]

/-- Feed another piece by slices, unless a fault has stopped the reading. -/
def Fed.thenSlices (a : Fed) (piece : Bytes) : Fed :=
  if a.fault.isSome then a
  else { a.reader.slices piece with rows := a.rows ++ (a.reader.slices piece).rows }

/-- **Where the bytes are cut does not matter** to a reader that goes by slices. -/
theorem slices_append (h : r.due? = none) (a b : Bytes) :
    r.slices (a ++ b) = (r.slices a).thenSlices b := by
  rw [slices_eq_feed h, slices_eq_feed h, feed_append, Fed.andThen, Fed.thenSlices,
    slices_eq_feed (due?_feed h a)]
  cases (r.feed a).fault <;> rfl

end RowReader

end GraphRows
