import GraphRows.Proofs.Encoder.Closing

/-!
# What a closed encoder has said about each id

When the sink is closed every account is settled, so the rows that went out tell every id that was
handed out, each in full and none twice. Rows of a stream pass through two queues, and the order in
which these are emptied keeps the rows of one id in theirs. An id that a payload speaks of has a row
with a value, so it is not that of a hint.

## Main result

* `closed_output_tells_each_id`
-/

namespace GraphRows

/-- **The output of a closed encoder tells every id once.** What the sink was given is the text of
rows whose ids are exactly those that were handed out. The rows of each id are, in their order: one
hint; or one row with a model, a text, binary data, an import, an error or a postponement; or the
opening of a stream, any number of items, and one row that ends it. Every id that a written model,
item or closing value speaks of is among these and is not that of a hint. As long as ids and lengths
fit into their headers, those rows are what a reader makes of the bytes. -/
theorem closed_output_tells_each_id {η : Type} {run : Force η} (hrun : Quiet run) {i : Nat}
    {model : Value} {x : Stage η} (h : Stage.Reached run i model x)
    (hclosed : (x.store.sink i).isClosed) :
    ∃ rows : List Row, x.given i = rows.flatMap Row.encode ∧
      ((∀ r ∈ rows, r.InRange) → RowReader.start.feed (x.given i) =
        ⟨rows.map Row.raw, .start, none⟩) ∧
      (∀ id, (∃ r ∈ rows, r.id = id) ↔ id < x.encoder.refs.nextId) ∧
      (∀ id < x.encoder.refs.nextId, Told (rowsOf id rows)) ∧
      ∀ r ∈ rows, ∀ id, r.body.Mentions id →
        id < x.encoder.refs.nextId ∧ ∀ r' ∈ rowsOf id rows, r'.body.isHint = false := by
  obtain ⟨rows, A, hidle, hself, hgiven⟩ := h.exists_accounts hrun hclosed
  have htold : ∀ id < x.encoder.refs.nextId, Told (rowsOf id rows) :=
    fun id => (A.told_iff hidle.1 hidle.2).1
  have hids : ∀ id, (∃ r ∈ rows, r.id = id) ↔ id < x.encoder.refs.nextId := by
    intro id
    constructor
    · rintro ⟨r, hr, rfl⟩
      by_contra hid
      have hnone : rowsOf r.id rows = [] := (A.told_iff hidle.1 hidle.2).2 (Nat.not_lt.mp hid)
      exact absurd (mem_rowsOf.mpr ⟨hr, rfl⟩) (hnone ▸ List.not_mem_nil)
    · intro hid
      obtain ⟨r, hr⟩ := List.exists_mem_of_ne_nil _ (htold id hid).ne_nil
      exact ⟨r, mem_rowsOf.mp hr⟩
  refine ⟨rows, hgiven, fun hrange => ?_, hids, htold, fun r hr id hm => ?_⟩
  · rw [hgiven]
    exact feed_rows hself.safe hrange
  · obtain ⟨r', hr', hid, hvalue⟩ := hself.mentions r hr id hm
    have hused : id < x.encoder.refs.nextId := (hids id).mp ⟨r', hr', hid⟩
    exact ⟨hused, (htold id hused).not_isHint (mem_rowsOf.mpr ⟨hr', hid⟩) hvalue⟩

theorem closed_output_tells_each_id_aborted :
    ∃ x : Stage Unit, Stage.Reached noThunks 0 unsettledArray.1 x ∧
    (x.store.sink 0).isClosed ∧ x.encoder.refs.nextId = 5 ∧
    ∃ rows : List Row, x.given 0 = rows.flatMap Row.encode ∧ ∀ id < 5, Told (rowsOf id rows) := by
  obtain ⟨x, hreached, hx⟩ := exists_aborted (fun x =>
    (x.store.sink 0).isClosed && x.encoder.refs.nextId == 5) (by decide +kernel)
  obtain ⟨hclosed, hnext⟩ := Bool.and_eq_true_iff.mp hx
  rw [beq_iff_eq] at hnext
  obtain ⟨rows, hgiven, -, -, htold, -⟩ := closed_output_tells_each_id quiet_noThunks
    hreached hclosed
  exact ⟨x, hreached, hclosed, hnext, rows, hgiven, hnext ▸ htold⟩

end GraphRows
