import GraphRows.Proofs.Decoder.Settling
import GraphRows.Proofs.Encoder.Closing

/-!
# What a closed encoder has written settles a decoder

An encoder keeps books: every row that is spoken of is written or owed, and every stream that was
opened is ended or owed an end. It closes its sink when nothing is owed. A decoder keeps in good
order: what is open waits for a row that has not come. So the bytes of a sink that was closed leave
a decoder nothing to wait for, whatever the run was: normal or aborted, with a sink that asks for
more or does not, in whatever pieces the bytes arrive.

## Main result

* `closed_output_settles`
-/

namespace GraphRows

open DecodeM

/-- **The output of a closed encoder leaves nothing open.** A new decoder, whether or not its root
was asked for, is fed all that the sink was given, in any pieces. Then every entry is fulfilled or
rejected and no stream is open. As long as ids and lengths fit into their headers, all of it is
framed; then the decoder is not closed by it, and its root is there. -/
theorem closed_output_settles {η : Type} {run : Force η} (hrun : Quiet run) {i : Nat}
    {model : Value} {x : Stage η}
    (h : Stage.Reached run i model x) (hclosed : (x.store.sink i).isClosed) {pieces : List Bytes}
    (hpieces : pieces.flatten = x.given i) (options : DecoderOptions) (s : Store) (start : Decoding)
    (hstart : start = ⟨.create options, s⟩ ∨ start = (handle 0 ⟨.create options, s⟩).2) :
    let fed := feedAll pieces start
    (∀ j < fed.2.decoder.entries.size, (fed.2.decoder.entry j).state.isTerminal) ∧
      fed.2.decoder.streams = [] ∧
      (x.encoder.refs.nextId ≤ Nat.pow 2 32 → (x.given i).length < Nat.pow 2 64 → fed.1 = .ok ()) ∧
      (fed.1 = .ok () → fed.2.decoder.isClosed = false ∧
        ∃ state, fed.2.decoder.status? 0 = some state ∧ state.isTerminal) := by
  obtain ⟨rows, hrows, hgiven, hrange⟩ := h.selfContained hrun hclosed
  have T : Tidy (.among rows [] .start) start.decoder ∧ start.decoder.wake = [] := by
    rcases hstart with rfl | rfl
    · exact ⟨create_tidy options rows, rfl⟩
    · exact handle_tidy options s hrows
  obtain ⟨hdone, hframed, hopen⟩ := feedAll_done hrows (hpieces.trans hgiven) T.1 T.2
  refine ⟨hdone.settled, hdone.streams, fun hids hlength => hframed (hrange hids hlength),
    fun hok => ?_⟩
  obtain ⟨hclosed, j, hj, hid⟩ := hopen hok
  exact ⟨hclosed, _, by rw [Decoder.status?, hid]; rfl, hdone.settled j hj⟩

theorem closed_output_settles_aborted : ∃ x : Stage Unit,
    Stage.Reached noThunks 0 unsettledArray.1 x ∧ (x.store.sink 0).isClosed ∧
      (feedAll [x.given 0] ⟨.create default, {}⟩).1 = .ok () ∧
      ∀ j < (feedAll [x.given 0] ⟨.create default, {}⟩).2.decoder.entries.size,
        ((feedAll [x.given 0] ⟨.create default, {}⟩).2.decoder.entry j).state.isTerminal := by
  obtain ⟨x, hreached, hx⟩ := exists_aborted (fun x => (x.store.sink 0).isClosed &&
    decide (x.encoder.refs.nextId ≤ Nat.pow 2 32) && decide ((x.given 0).length < Nat.pow 2 64))
      (by decide +kernel)
  simp only [Bool.and_eq_true, decide_eq_true_eq] at hx
  obtain ⟨⟨hclosed, hids⟩, hlength⟩ := hx
  obtain ⟨hsettled, -, hframed, -⟩ :=
    closed_output_settles quiet_noThunks hreached hclosed (List.flatten_singleton) default
      {} _ (.inl rfl)
  exact ⟨x, hreached, hclosed, hframed hids hlength, hsettled⟩

end GraphRows
