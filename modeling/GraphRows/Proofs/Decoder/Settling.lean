import GraphRows.Proofs.Decoder.Taking
import GraphRows.Proofs.Encoder.Ledger

/-!
# Rows that stand on their own leave nothing open

A decoder is fed the rows of a list in order. As long as every row that is spoken of is somewhere in
the list, an entry that no row has come for belongs to a row still ahead; as long as every stream
has its last row in the list, a stream without an end in its queue is one whose last row is still
ahead. When the list is through there is nothing ahead, and what good order says of such a decoder
is that everything is settled and every stream delivered.

How the bytes were cut into pieces makes no difference. Bytes that cannot be framed close the
decoder, and closing settles everything at once.

## Main results

* `DecodeM.takeRow_ensures`: one row of a self-contained list keeps the decoder in good order
* `DecodeM.feedAll_settles`: after the bytes of a self-contained list of rows, everything is settled
-/

namespace GraphRows

open Decoder

namespace Row

/-! ### What written rows are read as -/

/-- The kind of row a body is written as. -/
def sort : RowBody → RowSort
  | .model _ => .model
  | .text _ => .tagged .text
  | .binary data => .binary data.kind
  | .importing _ => .tagged .importing
  | .hint .. => .tagged .hint
  | .error _ => .tagged .error
  | .postpone _ => .tagged .postpone
  | .opening kind => .tagged (.stream kind)
  | .closing _ => .tagged .close

theorem sort?_raw (r : Row) : r.raw.sort? = some (sort r.body) := by
  obtain ⟨id, body⟩ := r
  cases body with
  | binary data =>
    obtain ⟨kind, bytes⟩ := data
    cases kind <;> rfl
  | opening kind => cases kind <;> rfl
  | _ => rfl

theorem id_raw (r : Row) : r.raw.id = r.id := by
  obtain ⟨id, body⟩ := r
  cases body <;> rfl

theorem isValue_raw (r : Row) : r.raw.isValue = r.body.isValue := by
  rw [RawRow.isValue, sort?_raw, Option.any_some]
  cases r.body <;> rfl

theorem isFinal_raw (r : Row) : r.raw.isFinal = r.body.isFinal := by
  rw [RawRow.isFinal, sort?_raw, Option.any_some]
  cases r.body <;> rfl

theorem isOpening_raw (r : Row) : r.raw.isOpening = r.body.isOpening := by
  rw [RawRow.isOpening, sort?_raw, Option.any_some]
  cases r.body <;> rfl

/-- What is read of a row mentions nothing that was not written. -/
theorem mentions_of_model?_raw {r : Row} {j : Json} (hj : r.raw.model? = some j) {n : Nat}
    (hn : j.Mentions n) : r.body.Mentions n := by
  have read : ∀ {k : Json}, (Json.read k.print).toOption = some j → k.Mentions n := by
    intro k hk
    cases hread : Json.read k.print with
    | error e =>
      rw [hread] at hk
      cases hk
    | ok j' =>
      rw [hread] at hk
      obtain rfl : j' = j := Option.some.inj hk
      exact Json.mentions_of_read_print hread hn
  rw [RawRow.model?, sort?_raw, Option.any_some] at hj
  obtain ⟨id, body⟩ := r
  cases body with
  | model k =>
    simp only [sort, RowSort.isModel, if_true, raw, frame, untagged, Frame.raw,
      Utf8.decodeLossy_utf8] at hj
    exact read hj
  | closing v =>
    simp only [sort, RowSort.isModel, if_true, raw, frame, tagged, Frame.raw,
      Utf8.decodeLossy_utf8] at hj
    cases v with
    | none => cases hj
    | some k => exact read hj
  | _ => cases hj

end Row

/-! ### A list of rows -/

/-- What is known of the rows of a list when some of them have come. -/
def Affairs.among (rows done : List Row) (reader : RowReader) : Affairs where
  wanted k := ∃ r ∈ rows, r.id = k ∧ r.body.isValue
  arrived k := ∃ r ∈ done, r.id = k ∧ r.body.isValue
  unended k := ∃ a r b, done = a ++ r :: b ∧ r.id = k ∧ r.body.isOpening ∧ ∀ r' ∈ b, r'.id = k →
    r'.body.isFinal = false
  spoken _ := True
  reader

theorem Affairs.arrived_among (rows done : List Row) (reader : RowReader) (r : Row) :
    (among rows (done ++ [r]) reader).arrived =
      fun k => (among rows done reader).arrived k ∨ k = r.id ∧ r.body.isValue := by
  funext k
  refine propext ⟨?_, ?_⟩
  · rintro ⟨r', hr', rfl, hvalue⟩
    rcases List.mem_append.mp hr' with hr' | hr'
    · exact .inl ⟨r', hr', rfl, hvalue⟩
    · obtain rfl := List.mem_singleton.mp hr'
      exact .inr ⟨rfl, hvalue⟩
  · rintro (⟨r', hr', hid, hvalue⟩ | ⟨rfl, hvalue⟩)
    · exact ⟨r', List.mem_append_left _ hr', hid, hvalue⟩
    · exact ⟨r, List.mem_append_right _ List.mem_cons_self, rfl, hvalue⟩

theorem Affairs.unended_among (rows done : List Row) (reader : RowReader) (r : Row) (k : Nat)
    (h : (among rows done reader).unended k) :
    k = r.id ∧ r.body.isFinal ∨ (among rows (done ++ [r]) reader).unended k := by
  obtain ⟨a, r', b, rfl, rfl, hopening, hlater⟩ := h
  by_cases hlast : r'.id = r.id ∧ r.body.isFinal
  · exact .inl hlast
  · refine .inr ⟨a, r', b ++ [r], by simp, rfl, hopening, fun r'' hr'' hid => ?_⟩
    rcases List.mem_append.mp hr'' with hr'' | hr''
    · exact hlater r'' hr'' hid
    · obtain rfl := List.mem_singleton.mp hr''
      exact Bool.eq_false_iff.mpr fun hfinal => hlast ⟨hid.symm, hfinal⟩

/-- Nothing is open: every entry is settled and every stream has ended. -/
structure Decoder.Done (d : Decoder) : Prop where
  settled : d.AllSettled
  streams : d.streams = []

namespace DecodeM

variable {rows done : List Row} {reader : RowReader}

/-- **One row of a self-contained list.** -/
theorem takeRow_ensures (hrows : SelfContained rows) {r : Row} (hr : r ∈ rows) :
    Ensures (fun x => Tidy (.among rows done reader) x.decoder) (takeRow r.raw)
      fun _ x => Tidy (.among rows (done ++ [r]) reader) x.decoder ∧ x.decoder.wake = [] := by
  rw [takeRow_eq]
  refine .bind (Q := fun _ x => Tidy (.among rows (done ++ [r]) reader) x.decoder) ?_ fun _ =>
    runWatchers_ensures rfl rfl
  have taken : Ensures (fun x => Tidy (.among rows done reader) x.decoder) (takeIn r.raw) fun _ x =>
      Tidy { Affairs.among rows (done ++ [r]) reader with
        arrived := fun k => (Affairs.among rows done reader).arrived k ∨ k = r.raw.id ∧
          r.raw.isValue } x.decoder := by
    refine takeIn_ensures r.raw ?_ (fun j hj n hn => hrows.mentions r hr n
      (Row.mentions_of_model?_raw hj hn))
      (fun _ _ _ _ => trivial) (fun _ _ _ _ _ _ => trivial) ?_ ?_
    · rw [r.isValue_raw, r.id_raw]
      exact fun hvalue => ⟨r, hr, rfl, hvalue⟩
    · rw [r.isFinal_raw, r.id_raw]
      exact Affairs.unended_among rows done reader r
    · rw [r.isOpening_raw, r.id_raw]
      exact fun hopening => ⟨done, r, [], rfl, rfl, hopening, fun _ h => absurd h List.not_mem_nil⟩
  rw [r.isValue_raw, r.id_raw, ← Affairs.arrived_among] at taken
  exact taken

end DecodeM

/-- **When all rows have come, nothing is open.** -/
theorem Tidy.done {rows : List Row} {reader : RowReader} {d : Decoder} (hrows : SelfContained rows)
    (T : Tidy (.among rows rows reader) d) (hwake : d.wake = []) : d.Done := by
  have hsettled : d.AllSettled := by
    refine Waits.isTerminal_of_not_isPending T.waits hwake (fun i hi => ?_) fun i hi =>
      nomatch T.orderly.reviving i hi
    refine Bool.eq_false_iff.mpr fun hpending => ?_
    obtain ⟨id, hid⟩ := (T.orderly.owned i hi hpending).resolve_left nofun
    obtain ⟨j, hj, hbusy⟩ := T.orderly.arrived id (T.orderly.wanted id i hid hpending)
    obtain rfl := Option.some.inj (hid.symm.trans hj)
    exact nomatch hbusy hpending
  refine ⟨hsettled, List.eq_nil_iff_forall_not_mem.mpr fun p hp => ?_⟩
  have hqueue : p.2.queue ≠ [] := by
    rcases T.orderly.ending p hp with ⟨x, hx, -⟩ | ⟨a, r, b, heq, hid, hopening, hlater⟩
    · exact List.ne_nil_of_mem hx
    · obtain ⟨r', hr', hid', hfinal⟩ := hrows.ends a r b heq hopening
      rw [hlater r' hr' (hid'.trans hid)] at hfinal
      cases hfinal
  have hwaiting := (T.orderly.queued p hp hqueue).resolve_left nofun
  obtain ⟨front, rest, j, hfront, hwaits, hwatch⟩ := T.orderly.waiting p hp hwaiting
  have hj := T.orderly.known p hp front (hfront ▸ List.mem_cons_self) j hwaits
  rcases hwatch with hwatch | hwatch | hwatch
  · rw [T.waits.settled j (hsettled j hj) (by simp [hwake])] at hwatch
    cases hwatch
  · cases hwatch
  · cases hwatch.1

namespace DecodeM

/-! ### Closing -/

/-- An entry that is there is settled afterwards, and those that were settled stay so. -/
theorem settleEntry_settles (i : Nat) (o : Outcome) (x : Decoding) :
    (settleEntry i o x).2.decoder.entries.size = x.decoder.entries.size ∧
      ∀ j < x.decoder.entries.size,
      (x.decoder.entry j).state.isTerminal ∨ j = i →
        ((settleEntry i o x).2.decoder.entry j).state.isTerminal := by
  cases hterminal : (x.decoder.entry i).state.isTerminal with
  | true =>
    rw [settleEntry_of_terminal hterminal]
    refine ⟨rfl, fun j _ h => h.elim (fun h => h) ?_⟩
    rintro rfl
    exact hterminal
  | false =>
    obtain ⟨state, s, hstate, heq⟩ := settleEntry_of_open (o := o) hterminal
    rw [heq]
    refine ⟨size_modifyEntry .., fun j hj h => ?_⟩
    change ((x.decoder.modifyEntry i ({ · with state })).entry j).state.isTerminal
    rw [entry_modifyEntry]
    split
    · exact hstate
    · rename_i hne
      refine h.resolve_right ?_
      rintro rfl
      exact hne ⟨rfl, hj⟩

/-- Rejecting all that is open leaves nothing open. -/
theorem rejectEntries_settles (reason : Rejection) :
    Ensures (fun _ => True) (rejectEntries (fun st => !st.isTerminal) reason) fun _ x =>
      x.decoder.AllSettled := by
  unfold rejectEntries
  refine .bind .decoder fun d => ?_
  let I : List Nat → Decoding → Prop := fun rest x =>
    x.decoder.entries.size = d.entries.size ∧ ∀ j < d.entries.size,
      (x.decoder.entry j).state.isTerminal ∨ j ∈ rest
  refine ((Ensures.forM (I := I) (fun i rest => .bind .decoder fun d' => ?_) _).pre ?_).post
    fun _ x hx => ?_
  · split
    · rintro x ⟨⟨hsize, hx⟩, rfl⟩
      obtain ⟨hsize', hsettled⟩ := settleEntry_settles i (.error reason) x
      refine ⟨hsize'.trans hsize, fun j hj => ?_⟩
      rcases hx j hj with h | h
      · exact .inl (hsettled j (hsize ▸ hj) (.inl h))
      · rcases List.mem_cons.mp h with h | h
        · exact .inl (hsettled j (hsize ▸ hj) (.inr h))
        · exact .inr h
    · rename_i hterminal
      refine .pure ?_
      rintro x ⟨⟨hsize, hx⟩, rfl⟩
      refine ⟨hsize, fun j hj => ?_⟩
      rcases hx j hj with h | h
      · exact .inl h
      · rcases List.mem_cons.mp h with rfl | h
        · exact .inl (by simpa using hterminal)
        · exact .inr h
  · rintro x ⟨-, rfl⟩
    exact ⟨rfl, fun j hj => .inr (List.mem_range.mpr hj)⟩
  · exact fun j hj => (hx.2 j (hx.1 ▸ hj)).resolve_right List.not_mem_nil

/-- **Closing an open decoder settles everything.** -/
theorem closeWith_done (reason : Rejection) :
    Ensures (fun x => x.decoder.closed = none) (closeWith reason) fun _ x => x.decoder.Done := by
  unfold closeWith
  refine .bind .decoder fun d => ?_
  split
  · refine .bind (Q := fun _ _ => True) (.modifyDecoder fun _ _ => trivial) fun _ =>
      .bind (Q := fun _ _ => True) (fun _ _ => trivial) fun _ => .bind (Q := fun _ _ => True)
        (fun _ _ => trivial) fun _ =>
      .bind (rejectEntries_settles reason) fun _ => .bind runWatchers_settled fun _ =>
        .bind .decoder fun d' => ?_
    refine .bind (Q := fun _ x => x.decoder.Done) (.modifyDecoder fun x hx => ⟨hx.1, rfl⟩)
      fun _ => ?_
    exact Ensures.forM (I := fun _ x => x.decoder.Done) (fun p _ => .modifyStore fun x hx => hx) _
  · rename_i hclosed
    rintro x ⟨hx, rfl⟩
    exact absurd (by simp [hx]) hclosed

/-! ### Pieces -/

/-- Some rows of a list have come, and `rest` comes next, before `tail`. -/
def Expecting (rows : List Row) (tail rest : List RawRow) (reader : RowReader) (d : Decoder) :
    Prop :=
  ∃ done todo, rows = done ++ todo ∧ todo.map Row.raw = rest ++ tail ∧
    Tidy (.among rows done reader) d ∧ d.wake = []

variable {rows : List Row} {tail : List RawRow}

theorem Expecting.setReader {rest : List RawRow} {reader : RowReader} {d : Decoder}
    (h : Expecting rows tail rest reader d) (reader' : RowReader) :
    Expecting rows tail rest reader' { d with reader := reader' } := by
  obtain ⟨done, todo, hrows, htodo, T, hwake⟩ := h
  have O := T.orderly
  exact ⟨done, todo, hrows, htodo, ⟨{ O with alive := ⟨O.alive.1, rfl⟩ },
    T.waits.congr rfl rfl rfl⟩, hwake⟩

theorem takeRow_expecting (hrows : SelfContained rows) (row : RawRow) (rest : List RawRow)
    (reader : RowReader) :
    Ensures (fun x => Expecting rows tail (row :: rest) reader x.decoder) (takeRow row)
      fun _ x => Expecting rows tail rest reader x.decoder := by
  rintro x ⟨done, todo, heq, htodo, T, -⟩
  cases todo with
  | nil => cases htodo
  | cons r todo =>
    obtain ⟨rfl, htodo'⟩ := List.cons.inj htodo
    have hr : r ∈ rows := heq ▸ List.mem_append_right _ List.mem_cons_self
    have h := takeRow_ensures hrows hr x T
    exact ⟨done ++ [r], todo, by simp [heq], htodo', h.1, h.2⟩

/-- One piece, with what comes behind it. -/
theorem feed_ensures (tail : List RawRow) (hrows : SelfContained rows) (piece : Bytes)
    (reader : RowReader) (later : List RawRow) :
    Ensures (fun x => Expecting rows tail ((reader.feed piece).rows ++ later) reader x.decoder)
      (feed piece) fun o x => match (reader.feed piece).fault with
      | none => o = .ok () ∧ Expecting rows tail later (reader.feed piece).reader x.decoder
      | some f => o = .error f ∧ x.decoder.Done := by
  unfold feed
  refine .bind .decoder fun d => .of_exists ?_
  rintro ⟨x, ⟨done, todo, _, _, T, _⟩, hd⟩
  obtain ⟨hclosed, hreader⟩ : d.closed = none ∧ d.reader = reader := hd ▸ T.orderly.alive
  rw [hclosed, hreader]
  refine .bind (Q := fun _ x => Expecting rows tail ((reader.feed piece).rows ++ later)
    (reader.feed piece).reader x.decoder)
    (.modifyDecoder fun x hx => hx.1.setReader _) fun _ => .bind (Ensures.forM
      (I := fun rest x => Expecting rows tail (rest ++ later) (reader.feed piece).reader x.decoder)
      (fun row rest => takeRow_expecting hrows row (rest ++ later) _) _) fun _ => ?_
  cases (reader.feed piece).fault with
  | none => exact .pure fun x hx => ⟨rfl, hx⟩
  | some f =>
    refine .bind ((closeWith_done _).pre ?_) fun _ => .pure fun x hx => ⟨rfl, hx⟩
    rintro x ⟨_, _, _, _, T, _⟩
    exact T.orderly.alive.1

/-- **The bytes come in pieces.** What they come to is what they would come to in one piece. -/
theorem feedAll_ensures (tail : List RawRow) (hrows : SelfContained rows) (pieces : List Bytes)
    (reader : RowReader) : Ensures (fun x => Expecting rows tail (reader.feed pieces.flatten).rows
      reader x.decoder) (feedAll pieces) fun o x => match (reader.feed pieces.flatten).fault with
      | none => o = .ok () ∧ Expecting rows tail [] (reader.feed pieces.flatten).reader x.decoder
      | some f => o = .error f ∧ x.decoder.Done := by
  induction pieces generalizing reader with
  | nil => exact .pure fun x hx => ⟨rfl, hx⟩
  | cons piece rest ih =>
    rw [List.flatten_cons, RowReader.feed_append, RowReader.Fed.andThen]
    unfold feedAll
    have hfeed := fun later => feed_ensures tail hrows piece reader later
    cases hfault : (reader.feed piece).fault with
    | some f =>
      have h := hfeed []
      simp only [hfault, List.append_nil] at h ⊢
      refine .bind h fun o => .of_exists ?_
      rintro ⟨_, rfl, _⟩
      exact .pure fun x hx => hx
    | none =>
      have h := hfeed (RowReader.feed (reader.feed piece).reader rest.flatten).rows
      simp only [hfault] at h ⊢
      refine .bind h fun o => .of_exists ?_
      rintro ⟨_, rfl, _⟩
      exact (ih _).pre fun x hx => hx.2

/-- **After the bytes of rows that stand on their own, nothing is open**, however the bytes were
cut. If their headers are within the limits, they are framed; then the decoder was not closed for
it, and the root is settled. -/
theorem feedAll_done (hrows : SelfContained rows) {pieces : List Bytes}
    (hpieces : pieces.flatten = rows.flatMap Row.encode) {x : Decoding}
    (T : Tidy (.among rows [] .start) x.decoder) (hwake : x.decoder.wake = []) :
    (feedAll pieces x).2.decoder.Done ∧ ((∀ r ∈ rows, r.InRange) → (feedAll pieces x).1 = .ok ()) ∧
      ((feedAll pieces x).1 = .ok () →
      (feedAll pieces x).2.decoder.isClosed = false ∧
        ∃ i < (feedAll pieces x).2.decoder.entries.size,
        (feedAll pieces x).2.decoder.ids.lookup 0 = some i) := by
  by_cases hrange : ∀ r ∈ rows, r.InRange
  · have h := feedAll_ensures [] hrows pieces .start x
    rw [hpieces, feed_rows hrows.safe hrange] at h
    obtain ⟨hok, done, todo, heq, htodo, T', hwake'⟩ := h ⟨[], rows, rfl, by simp, T, hwake⟩
    obtain rfl : todo = [] := List.map_eq_nil_iff.mp htodo
    obtain rfl : rows = done := by simpa using heq
    refine ⟨T'.done hrows hwake', fun _ => hok, fun _ =>
      ⟨by rw [Decoder.isClosed, T'.orderly.alive.1]; rfl, ?_⟩⟩
    obtain ⟨i, hi, -⟩ := T'.orderly.arrived 0 hrows.root
    exact ⟨i, T'.orderly.named 0 i hi, hi⟩
  · obtain ⟨⟨tail, htail⟩, hfault⟩ := feed_rows_fault hrows.safe hrange
    obtain ⟨f, hf⟩ := Option.isSome_iff_exists.mp hfault
    have h := feedAll_ensures tail hrows pieces .start x
    rw [hpieces, hf] at h
    obtain ⟨ho, hdone⟩ := h ⟨[], rows, rfl, htail.symm, T, hwake⟩
    exact ⟨hdone, fun h => absurd h hrange, fun h => nomatch ho.symm.trans h⟩

/-! ### A new decoder -/

/-- A new decoder is in good order, whatever is going to be asked of it. -/
theorem tidy_create (options : DecoderOptions) {a : Affairs}
    (halive : a.closed = none ∧ a.reader = .start) (harrived : ∀ id, ¬ a.arrived id)
    (hrunning : a.running = []) : Tidy a (Decoder.create options) := by
  have blank : ∀ i, (Decoder.create options).entry i = { handle := 0 } :=
    fun i => entry_of_size_le _ (Nat.zero_le i)
  constructor
  · refine ⟨⟨halive.1.symm, halive.2.symm⟩, nofun, nofun, nofun, nofun, fun id hid =>
      absurd hid (harrived id), ?_, nofun, nofun, nofun, nofun, nofun, nofun, fun _ _ _ => nofun⟩
    intro i hi
    rw [blank] at hi
    cases hi
  · refine ⟨nofun, ?_,
      ?_, by simp [hrunning], fun t _ => ?_, ?_, ?_, ?_, ?_, nofun, ?_, fun _ => 0, ?_⟩
    case refine_3 =>
      rw [blank, hrunning]
      rfl
    all_goals simp [WaitsFor, blank, EntryState.isTerminal, EntryState.isBlocked]

theorem create_tidy (options : DecoderOptions) (rows : List Row) :
    Tidy (.among rows [] .start) (Decoder.create options) := by
  refine tidy_create options ⟨rfl, rfl⟩ ?_ rfl
  rintro id ⟨r, hr, -⟩
  cases hr

/-- The root may be asked for first. -/
theorem handle_tidy (options : DecoderOptions) (s : Store) {rows : List Row}
    (hrows : SelfContained rows) :
    Tidy (.among rows [] .start) (handle 0 ⟨Decoder.create options, s⟩).2.decoder ∧
      (handle 0 ⟨Decoder.create options, s⟩).2.decoder.wake = [] := by
  have T := create_tidy options rows
  refine ⟨⟨T.orderly.newRow (isBlank_pending _) rfl hrows.root, T.waits.newEntry (isBlank_pending _)
    rfl nofun ?_ rfl⟩, rfl⟩
  exact fun k j hj => (lookup_of_lookup_cons hj).imp_right And.right

end DecodeM

end GraphRows
