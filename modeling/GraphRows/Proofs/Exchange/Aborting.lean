import GraphRows.Proofs.Decoder.Cutting
import GraphRows.Proofs.Decoder.Fulfilment
import GraphRows.Proofs.Decoder.Mirroring
import GraphRows.Proofs.Encoder.Aborting
import GraphRows.Proofs.Reference.Tokens

/-!
# What a decoder hears of an abort

The rows of an abort come last. The first of them gives the reason, with an id that no row had, and
every outstanding task answers with a reference to it. No row came for those ids before, so a
decoder has nothing for them but handles that were asked for. The row with the reason rejects its
own entry; and a row that is nothing but a reference to a rejected entry is rejected with the same
reason.

## Main results

* `DecodeM.Unheard.status?_takeRow_rejection`, `DecodeM.Unheard.status?_takeRow_reference`: what the
  rows of an abort do to a decoder
* `outcome?_handle_asked`: handles are as far as their entries, with any loader that leaves them
  alone
* `abort_answers_everything`: an abort, what it sends, what may follow it and what a decoder makes
  of it
-/

namespace GraphRows

open Decoder DecodeM

variable {rows : List RawRow} {before : List Row} {f : Nat} {r : Rejection}

namespace Encoder

/-- The reason that is read in the row of a rejection. -/
def toldReason (e : Encoder) (count : Nat) : Rejection → Rejection
  | .postpone reason => .postpone reason
  | .error cause => .ofFault (if e.config.exposeErrors then
      .ofWire (e.digestAt count cause) (some cause.message)
        (some ("\n".intercalate (cause.causes.map ("    caused by: " ++ ·))))
    else .ofWire (e.digestAt count cause) none none)

end Encoder

namespace DecodeM

/-! ### Entries that no row came for -/

/-- No row has come for an id. -/
structure Unheard (x : Decoding) (id : Nat) : Prop where
  alive : x.decoder.closed = none
  named : Named x
  silent : x.decoder.stream? id = none
  pending : ∀ i, x.decoder.ids.lookup id = some i → (x.decoder.entry i).state = .pending

variable {x y : Decoding} {id i : Nat}

theorem bind_of_eq {α β : Type} {m : DecodeM α} {f : α → DecodeM β} {a : α} (h : m x = (a, y)) :
    (m >>= f) x = f a y := by
  change f (m x).1 (m x).2 = _
  rw [h]

theorem Unheard.exists_openRow? (U : Unheard x id) :
    ∃ i y, openRow? id x = (some i, y) ∧ y.decoder.ids.lookup id = some i ∧
    i < y.decoder.entries.size ∧ (y.decoder.entry i).state = .pending ∧
      Onward Entry.Kept x.decoder y.decoder := by
  have hopen : openRow? id x =
      (if ((entryOf id x).2.decoder.entry (entryOf id x).1).state.isPending then some
        (entryOf id x).1 else none,
      (entryOf id x).2) := rfl
  have honward : Onward Entry.Kept x.decoder (entryOf id x).2.decoder := entryOf_onward id x
  have hlt := entryOf_lt_size U.named id
  have hentry : ((entryOf id x).2.decoder.entry (entryOf id x).1).state = .pending ∧
      (entryOf id x).2.decoder.ids.lookup id = some (entryOf id x).1 := by
    cases hid : x.decoder.ids.lookup id with
    | some i =>
      rw [entryOf_of_some hid]
      exact ⟨U.pending i hid, hid⟩
    | none =>
      rw [entryOf_of_none hid U.alive]
      exact ⟨by simp [Decoder.entry], List.lookup_cons_self⟩
  refine ⟨_, _, ?_, hentry.2, hlt, hentry.1, honward⟩
  rw [hopen, hentry.1]
  rfl

/-- A settled entry keeps its state. -/
theorem status?_of_onward {d d' : Decoder} (h : Onward Entry.Kept d d') {state : EntryState}
    (hstate : d.status? id = some state) (hterminal : state.isTerminal) :
    d'.status? id = some state := by
  obtain ⟨i, hi, rfl⟩ := Option.map_eq_some_iff.mp hstate
  rw [Decoder.status?, h.ids id i hi, Option.map_some,
    (h.entry i (lt_size_of_isTerminal d hterminal)).settled hterminal]

/-- An open entry that is rejected is rejected with that reason. -/
theorem status?_settleEntry (hid : y.decoder.ids.lookup id = some i)
    (hi : i < y.decoder.entries.size) (hopen : (y.decoder.entry i).state.isTerminal = false)
    (r : Rejection) : (settleEntry i (.error r) y).2.decoder.status? id = some (.rejected r) := by
  rw [settleEntry_eq_of_open hopen, Decoder.status?]
  change (y.decoder.ids.lookup id).map _ = _
  rw [hid, Option.map_some, (changed_settle hi (settledAs (.error r))).self]
  rfl

/-- A rejection that comes for an id no row came for. -/
theorem Unheard.status?_takeValue (U : Unheard x id) (r : Rejection) :
    (takeValue id (.error r) x).2.decoder.status? id = some (.rejected r) := by
  obtain ⟨i, y, hrow, hid, hi, hstate, -⟩ := U.exists_openRow?
  have htake : takeValue id (.error r) x = settleEntry i (.error r) y := by
    unfold takeValue
    rw [decoder_bind, if_neg (by rw [U.silent]; exact Bool.false_ne_true)]
    rw [bind_of_eq hrow]
  rw [htake]
  exact status?_settleEntry hid hi (by rw [hstate]; rfl) r

/-- A model that is nothing but a reference to a rejected row comes for an id no row came for. -/
theorem Unheard.status?_takeModel (U : Unheard x id) (hf : f < Nat.pow 2 32)
    (hrejected : x.decoder.status? f = some (.rejected r)) :
    (takeModel id (Encoder.rowJson f).print x).2.decoder.status? id = some (.rejected r) := by
  obtain ⟨i, y, hrow, hid, hi, hstate, honward⟩ := U.exists_openRow?
  have hread : Json.read (Encoder.rowJson f).print =
      .ok (.str (Token.render (.row { row := f }))) :=
    Json.read_print_of_portable trivial (Nat.zero_le _)
  have hparse : Token.parse (Token.render (.row { row := f })) = .ok (.row { row := f }) :=
    Token.parse_render_row hf (by intro key hkey; cases hkey)
  obtain ⟨j, hj, hjstate⟩ := Option.map_eq_some_iff.mp (status?_of_onward honward hrejected rfl)
  have hne : j ≠ i := by
    rintro rfl
    rw [hstate] at hjstate
    cases hjstate
  -- while the row is read, its own entry has changed its state and the rejected one has not
  let z : Decoding := ⟨y.decoder.modifyEntry i ({ · with state := .reviving }), y.store⟩
  have hchanged := changed_modifyEntry hi ({ · with state := .reviving })
  have hrevive : revive i .root (.str (Token.render (.row { row := f }))) z = (.error r, z) := by
    have hz : entryOf f z = (j, z) := entryOf_of_some hj
    rw [revive, hparse]
    change reference i f [] .plain .root z = _
    unfold reference
    rw [bind_of_eq hz, decoder_bind, show (z.decoder.entry j).state =
      .rejected r from (hchanged.other hne).symm ▸ hjstate]
    rfl
  have htake : takeModel id (Encoder.rowJson f).print x =
      settleEntry i (.error r) ⟨z.decoder.modifyDraft i ({ · with failed := true }), z.store⟩ := by
    unfold takeModel
    rw [decoder_bind, if_neg (by rw [U.silent]; exact Bool.false_ne_true), bind_of_eq hrow]
    change reviveRow i (Encoder.rowJson f).print y = _
    unfold reviveRow
    rw [hread]
    have hbegin : modifyDecoder (·.modifyEntry i ({ · with state := .reviving })) y = ((), z) := rfl
    dsimp only
    rw [bind_of_eq hbegin, bind_of_eq hrevive]
    rfl
  have hdraft := changed_modifyEntry (d := z.decoder) (i := i) (by rw [hchanged.size]; exact hi)
    fun e => { e with draft := { e.draft with failed := true } }
  rw [htake]
  refine status?_settleEntry (y := ⟨z.decoder.modifyDraft i ({ · with failed := true }), z.store⟩)
    hid ?_ ?_ r
  · rw [Decoder.modifyDraft, hdraft.size, hchanged.size]
    exact hi
  · rw [Decoder.modifyDraft, hdraft.self, hchanged.self]
    rfl

/-! ### The rows of an abort -/

theorem errorReason_of_portable {j : Json} (h : j.Portable) (hdepth : j.depth ≤ Json.depthLimit) :
    errorReason (utf8 j.print) = .ofFault (.ofWire (((j.field? "digest").bind Json.str?).getD "")
      ((j.field? "message").bind Json.str?) ((j.field? "stack").bind Json.str?)) := by
  have hread : Json.readBytes (utf8 j.print) = .ok j := by
    simp only [Json.readBytes, Utf8.decode?_utf8, Json.read_print_of_portable h hdepth]
  rw [errorReason, hread]

theorem postponeReason_of_portable {j : Json} (h : j.Portable)
    (hdepth : j.depth ≤ Json.depthLimit) :
    postponeReason (utf8 j.print) = .postpone (((j.field? "reason").bind Json.str?).getD "") := by
  have hread : Json.readBytes (utf8 j.print) = .ok j := by
    simp only [Json.readBytes, Utf8.decode?_utf8, Json.read_print_of_portable h hdepth]
  rw [postponeReason, hread]

/-- What a row does, told from what was written. -/
theorem takeRow_raw (r : Row) :
    takeRow r.raw = (takeSort r.raw.id r.raw.payload (Row.sort r.body) >>=
      fun _ => runWatchers) := by
  rw [takeRow_eq, takeIn, Row.sort?_raw]

theorem takeRow_postpone (id : Nat) (j : Json) :
    takeRow (Row.raw ⟨id, .postpone j⟩) = (takeValue id (.error (postponeReason (utf8 j.print))) >>=
      fun _ => runWatchers) := by
  rw [takeRow_raw]
  rfl

theorem takeRow_error (id : Nat) (j : Json) :
    takeRow (Row.raw ⟨id, .error j⟩) = (takeValue id (.error (errorReason (utf8 j.print))) >>=
      fun _ => runWatchers) := by
  rw [takeRow_raw]
  rfl

/-- The row of a rejection brings the reason it was written for. -/
theorem takeRow_rejection (e : Encoder) (count : Nat) (reason : Rejection) (id : Nat) :
    takeRow (Row.raw ⟨id, e.rejectionBody count reason⟩) =
      (takeValue id (.error (e.toldReason count reason)) >>= fun _ => runWatchers) := by
  cases reason with
  | postpone p =>
    rw [Encoder.rejectionBody, takeRow_postpone, postponeReason_of_portable
      (by simp [Json.Portable, Json.PortableFields])
      (by simp [Json.depth, Json.depthFields, Json.depthLimit])]
    rfl
  | error cause =>
    rw [Encoder.rejectionBody, takeRow_error, Encoder.toldReason, Encoder.errorPayload]
    cases e.config.exposeErrors with
    | true =>
      rw [if_pos rfl, if_pos rfl, errorReason_of_portable
        (by simp [Json.Portable, Json.PortableFields])
        (by simp [Json.depth, Json.depthFields, Json.depthLimit])]
      rfl
    | false =>
      rw [if_neg Bool.false_ne_true, if_neg Bool.false_ne_true, errorReason_of_portable
        (by simp [Json.Portable, Json.PortableFields])
          (by simp [Json.depth, Json.depthFields, Json.depthLimit])]
      rfl

theorem takeRow_model (id : Nat) (j : Json) :
    takeRow (Row.raw ⟨id, .model j⟩) = (takeModel id j.print >>= fun _ => runWatchers) := by
  rw [takeRow_raw]
  exact congrArg (fun text => takeModel id text >>= fun _ => runWatchers)
    (Utf8.decodeLossy_utf8 j.print)

/-- **The row of a rejection** rejects its entry, if no row came for it. -/
theorem Unheard.status?_takeRow_rejection (U : Unheard x id) (e : Encoder) (count : Nat)
    (reason : Rejection) :
    (takeRow (Row.raw ⟨id, e.rejectionBody count reason⟩) x).2.decoder.status? id =
      some (.rejected (e.toldReason count reason)) := by
  rw [takeRow_rejection]
  exact status?_of_onward (runWatchers_onward _) (U.status?_takeValue _) rfl

/-- **A reference to a rejected row** is rejected with the same reason, if no row came for it. -/
theorem Unheard.status?_takeRow_reference (U : Unheard x id) (hf : f < Nat.pow 2 32)
    (hrejected : x.decoder.status? f = some (.rejected r)) :
    (takeRow (Row.raw ⟨id, .model (Encoder.rowJson f)⟩) x).2.decoder.status? id =
      some (.rejected r) := by
  rw [takeRow_model]
  exact status?_of_onward (runWatchers_onward _) (U.status?_takeModel hf hrejected) rfl

/-- A decoder at rest that some rows have come to. -/
def Heeds (rows : List RawRow) (x : Decoding) : Prop :=
  ∃ h, Rests (.fed rows .start) h x.decoder

namespace Heeds

theorem orderly (H : Heeds rows x) : Orderly (.fed rows .start) x.decoder :=
  H.elim fun _ C => C.tidy.orderly

theorem takeRows (H : Heeds rows x) (todo : List RawRow) :
    Heeds (rows ++ todo) (todo.forM takeRow x).2 :=
  H.elim fun _ C => ⟨_, C.takeRows todo⟩

/-- No row has come for an id that none of the rows has. -/
theorem unheard (H : Heeds rows x) (hid : ∀ r ∈ rows, r.isValue → r.id ≠ id) : Unheard x id := by
  have nobody : ¬ (Affairs.fed rows .start).arrived id := by
    rintro ⟨r, hr, rfl, hvalue⟩
    exact hid r hr hvalue rfl
  refine ⟨H.orderly.alive.1, H.orderly.named, ?_, fun i hi => ?_⟩
  · cases hstream : x.decoder.stream? id with
    | none => rfl
    | some st => exact absurd (H.orderly.streamed _ (Orderly.mem_of_stream? hstream)) nobody
  · have hpending := H.orderly.heard i
    cases hstate : (x.decoder.entry i).state with
    | pending => rfl
    | _ => exact absurd (hpending (by rw [hstate]; rfl) rfl id hi) nobody

theorem takeRows_onward (H : Heeds rows x) (todo : List RawRow) :
    Onward Entry.Kept x.decoder (todo.forM takeRow x).2.decoder := by
  induction todo generalizing rows x with
  | nil => exact .refl x.decoder
  | cons row todo ih =>
    exact (takeRow_onward H.orderly.named row).trans (ih (H.takeRows [row]))

/-- What is settled stays as it is when more rows come. -/
theorem status?_append (H : Heeds [] x) {state : EntryState}
    (h : (rows.forM takeRow x).2.decoder.status? id = some state) (hterminal : state.isTerminal)
    (more : List RawRow) : ((rows ++ more).forM takeRow x).2.decoder.status? id = some state := by
  rw [takeRows_append]
  exact status?_of_onward ((H.takeRows rows).takeRows_onward more) h hterminal

/-- **What a decoder makes of the rows of an abort**: the reason and every row that refers to it are
rejected alike. -/
theorem status?_abort (H : Heeds [] x) {more : List Row} {ids : List Nat}
    (hf : f < Nat.pow 2 32) (hnew : ∀ r ∈ before, r.id ≠ f ∧ r.id ∉ ids) (hfresh : f ∉ ids)
    (hnodup : ids.Nodup) (e : Encoder) (count : Nat) (reason : Rejection)
    (hid : id = f ∨ id ∈ ids) :
    (((before ++ (⟨f, e.rejectionBody count reason⟩ : Row) ::
      (ids.map fun id => (⟨id, .model (Encoder.rowJson f)⟩ : Row)) ++
      more).map Row.raw).forM takeRow x).2.decoder.status? id =
        some (.rejected (e.toldReason count reason)) := by
  let told : Row := ⟨f, e.rejectionBody count reason⟩
  have htold : (((before ++ [told]).map Row.raw).forM takeRow x).2.decoder.status? f =
      some (.rejected (e.toldReason count reason)) := by
    have U : Unheard ((before.map Row.raw).forM takeRow x).2 f := (H.takeRows _).unheard
        fun _ hr _ => by
      obtain ⟨r, hr', rfl⟩ := List.mem_map.mp hr
      rw [Row.id_raw]
      exact (hnew r hr').1
    rw [List.map_append, takeRows_append]
    exact U.status?_takeRow_rejection e count reason
  rcases hid with rfl | hid
  · have h := H.status?_append htold rfl
      (((ids.map fun n => (⟨n, .model (Encoder.rowJson id)⟩ : Row)) ++ more).map Row.raw)
    rw [← List.map_append] at h
    simpa only [told, List.append_assoc, List.cons_append, List.nil_append] using h
  · obtain ⟨ids₁, ids₂, rfl⟩ := List.append_of_mem hid
    -- when its row comes, the reason is there and nothing came for the id
    let earlier : List Row := before ++ [told] ++ ids₁.map fun n => ⟨n, .model (Encoder.rowJson f)⟩
    have hreason : ((earlier.map Row.raw).forM takeRow x).2.decoder.status? f =
        some (.rejected (e.toldReason count reason)) := by
      have h := H.status?_append htold rfl ((ids₁.map fun n =>
        (⟨n, .model (Encoder.rowJson f)⟩ : Row)).map Row.raw)
      rwa [← List.map_append] at h
    have hearlier : ∀ r ∈ earlier, r.id ≠ id := by
      intro r hr
      rcases List.mem_append.mp hr with hr | hr
      · rcases List.mem_append.mp hr with hr | hr
        · rintro rfl
          exact (hnew r hr).2 hid
        · obtain rfl := List.mem_singleton.mp hr
          rintro rfl
          exact hfresh hid
      · obtain ⟨n, hn, rfl⟩ := List.mem_map.mp hr
        rintro rfl
        exact (List.nodup_append.mp hnodup).2.2 _ hn _ List.mem_cons_self rfl
    have U : Unheard ((earlier.map Row.raw).forM takeRow x).2 id := (H.takeRows _).unheard
        fun _ hr _ => by
      obtain ⟨r, hr', rfl⟩ := List.mem_map.mp hr
      rw [Row.id_raw]
      exact hearlier r hr'
    have hanswer :
        (((earlier ++ [(⟨id, .model (Encoder.rowJson f)⟩ : Row)]).map Row.raw).forM takeRow
          x).2.decoder.status? id =
        some (.rejected (e.toldReason count reason)) := by
      rw [List.map_append, takeRows_append]
      exact U.status?_takeRow_reference hf hreason
    have h := H.status?_append hanswer rfl
      (((ids₂.map fun n => (⟨n, .model (Encoder.rowJson f)⟩ : Row)) ++ more).map Row.raw)
    rw [← List.map_append] at h
    simpa only [earlier, told, List.append_assoc, List.cons_append, List.nil_append,
      List.map_append, List.map_cons, List.map_nil] using h

end Heeds

/-! ### Feeding -/

/-- A piece that cannot be read closes the decoder. -/
theorem isSome_closed_of_feed {piece : Bytes} {f : Fault} (h : (feed piece x).1 = .error f) :
    (feed piece x).2.decoder.closed.isSome := by
  cases hclosed : x.decoder.closed with
  | some r =>
    rw [feed_eq_of_closed (by rw [hclosed]; rfl)] at h
    cases h
  | none =>
    rw [feed_eq_afterFed hclosed] at h ⊢
    cases hfault : (x.decoder.reader.feed piece).fault with
    | none =>
      rw [RowReader.Fed.answer, hfault] at h
      cases h
    | some f => exact isSome_closed_afterFed x hfault

/-- Pieces are acted on like the whole. -/
theorem feedAll_eq_feed (pieces : List Bytes) (x : Decoding) :
    feedAll pieces x = feed pieces.flatten x := by
  induction pieces generalizing x with
  | nil => exact (feed_nil x).symm
  | cons piece pieces ih =>
    obtain ⟨o, y, hfed⟩ : ∃ o y, feed piece x = (o, y) := ⟨_, _, rfl⟩
    rw [List.flatten_cons, feed_append, feedAll, bind_of_eq hfed, hfed]
    cases o with
    | ok u => exact ih y
    | error f =>
      have hclosed : y.decoder.closed.isSome := by
        have h := isSome_closed_of_feed (x := x) (f := f) (by rw [hfed])
        rwa [hfed] at h
      rw [feed_eq_of_closed hclosed]
      rfl

theorem Heeds.feedAll (H : Heeds [] x) {rows : List Row} (hsafe : ∀ r ∈ rows, r.HintSafe)
    (hrange : ∀ r ∈ rows, r.InRange) {pieces : List Bytes}
    (hpieces : pieces.flatten = rows.flatMap Row.encode) :
    DecodeM.feedAll pieces x = (.ok (), ((rows.map Row.raw).forM takeRow x).2) := by
  have hreader : x.decoder.reader = .start := H.orderly.alive.2
  rw [feedAll_eq_feed, hpieces, feed_eq_afterFed H.orderly.alive.1, hreader, feed_rows hsafe hrange,
    Decoding.afterFed]
  change (Except.ok (), ((rows.map Row.raw).forM takeRow (x.reading .start)).2) = _
  rw [← hreader, Decoding.reading_self]

end DecodeM

/-- The handle of a row, when it is asked for, is rejected. -/
def Decoding.RejectedWith (x : Decoding) (id : Nat) (r : Rejection) : Prop :=
  (DecodeM.handle id x).2.store.outcome? (DecodeM.handle id x).1 = some (.error r)

theorem rejectedWith_of_status? {x : Decoding} {id : Nat} (H : Heeds rows x)
    (hkept : ∀ i < x.decoder.entries.size, x.store.outcome? (x.decoder.entry i).handle =
      (x.decoder.entry i).state.outcome?)
    (h : x.decoder.status? id = some (.rejected r)) : x.RejectedWith id r := by
  obtain ⟨i, hi, hstate⟩ := Option.map_eq_some_iff.mp h
  change (DecodeM.entryOf id x).2.store.outcome?
    ((DecodeM.entryOf id x).2.decoder.entry (DecodeM.entryOf id x).1).handle = _
  rw [entryOf_of_some hi, hkept i (H.orderly.named id i hi), hstate]
  rfl

section Asked

variable {options : DecoderOptions} {s : Store}

/-- A new decoder whose rows with some ids were asked for. -/
def Decoding.asked (options : DecoderOptions) (s : Store) (ids : List Nat) : Decoding :=
  ids.foldl (fun x id => (DecodeM.handle id x).2) ⟨.create options, s⟩

/-- The loader of a new decoder touches nothing but what it makes, or at least no handle: it may
then hand out again what it made before. -/
def LoadsSafely (options : DecoderOptions) (s : Store) : Prop :=
  options.loader.Tame (· < s.cells.size) ∨
    (∀ c, s.PassesTo c → c < s.cells.size) ∧ LoadsApart options ⟨.create options, s⟩

theorem heeds_asked (ids : List Nat) : Heeds [] (.asked options s ids) :=
  List.foldlRecOn ids _ ⟨_, rests_create options⟩ fun _ H id _ =>
    H.elim fun _ C => ⟨_, C.entryOf id⟩

/-- Handles are as far as their entries. -/
theorem outcome?_handle_asked (hs : s.Sound) (hl : LoadsSafely options s) (ids : List Nat)
    (rows : List RawRow) : ∀ i < (rows.forM takeRow (.asked options s ids)).2.decoder.entries.size,
    (rows.forM takeRow (.asked options s ids)).2.store.outcome?
      ((rows.forM takeRow (.asked options s ids)).2.decoder.entry i).handle =
    ((rows.forM takeRow (.asked options s ids)).2.decoder.entry i).state.outcome? := by
  intro i hi
  rcases hl with hl | ⟨hpasses, hl⟩
  · have S : Shown rows (· < s.cells.size) [] .start (.asked options s ids) :=
      List.foldlRecOn ids _ (shown_create hs hl rows) fun _ S id _ => S.entryOf id
    exact (S.takeRows List.prefix_rfl).outcome?_handle hi
  · have hasked : Decoding.Steps ⟨.create options, s⟩ (.asked options s ids) :=
      List.foldlRecOn ids _ .refl fun x h id _ => .tail h (.handle x id)
    have hsteps : Decoding.Steps ⟨.create options, s⟩
        (rows.forM takeRow (.asked options s ids)).2 :=
      hasked.trans (Decoding.steps_rows rows (heeds_asked ids).orderly.alive.1)
    obtain ⟨p, hp, ho⟩ := (hsteps.mirrored (mirrored_create hpasses) hl).1.handles i hi
    rw [Store.outcome?, hp]
    exact ho

end Asked

/-- The rows of an abort can be told from their bytes. -/
theorem hintSafe_abort {e : Encoder} (L : Ledger.Closed before e) (reason : Rejection) :
    ∀ r ∈ before ++ e.queued ++ e.taskRows reason ++ e.streamRows reason, r.HintSafe := by
  intro r hr c j hbody
  have safe : ∀ {r : Row}, r ∈ before ++ e.queued → r.HintSafe := fun hr => L.safe _ (by
    simpa only [Encoder.queued, Encoder.allRows, List.append_assoc] using hr)
  rcases List.mem_append.mp hr with hr | hr
  · rcases List.mem_append.mp hr with hr | hr
    · exact safe hr c j hbody
    · rw [Encoder.taskRows] at hr
      split at hr
      · cases hr
      · rcases List.mem_cons.mp hr with rfl | hr
        · cases reason <;> cases hbody
        · obtain ⟨id, -, rfl⟩ := List.mem_map.mp hr
          cases hbody
  · obtain ⟨j', hj'⟩ := Encoder.exists_error_of_mem_endRows hr
    rw [hj'] at hbody
    cases hbody

/-- **A decoder that is fed the output of an abort** rejects the row of the reason and those of the
tasks alike. -/
theorem rejected_of_abort {options : DecoderOptions} {s : Store} (hs : s.Sound)
    (hl : LoadsSafely options s) (asked : List Nat) {e : Encoder}
    (L : Ledger.Closed before e) (reason : Rejection) {pieces : List Bytes}
    (hpieces : pieces.flatten = (before ++ e.queued ++ e.taskRows reason ++
      e.streamRows reason).flatMap Row.encode)
    (hframed : (RowReader.start.feed ((before ++ e.queued ++ e.taskRows reason ++
      e.streamRows reason).flatMap Row.encode)).fault = none) :
    (feedAll pieces (.asked options s asked)).1 = .ok () ∧ ∀ {task : Task}, task ∈ e.tasks →
      ∀ id, id = e.refs.nextId ∨ id ∈ e.taskIds →
      (feedAll pieces (.asked options s asked)).2.RejectedWith id
        (e.toldReason e.errorCount reason) := by
  have H : Heeds [] (.asked options s asked) := heeds_asked asked
  have hsafe := hintSafe_abort L reason
  have hrange : ∀ r ∈ before ++ e.queued ++ e.taskRows reason ++ e.streamRows reason,
      r.InRange := by
    by_contra hrange
    obtain ⟨-, hfault⟩ := feed_rows_fault hsafe hrange
    rw [hframed] at hfault
    cases hfault
  have hfed := H.feedAll hsafe hrange hpieces
  rw [hfed]
  refine ⟨rfl, fun {task} htask id hid => rejectedWith_of_status? (H.takeRows _)
    (outcome?_handle_asked hs hl asked _) ?_⟩
  have hrows : e.taskRows reason = (⟨e.refs.nextId, e.rejectionBody e.errorCount reason⟩ : Row) ::
      e.abortable.map fun id => (⟨id, .model (Encoder.rowJson e.refs.nextId)⟩ : Row) := by
    rw [Encoder.taskRows, if_neg]
    intro hempty
    rw [List.isEmpty_iff.mp hempty] at htask
    cases htask
  have hkept : ∀ {n}, n ∈ e.abortable ↔ n ∈ e.taskIds := L.abortable.mem_iff
  rw [hrows] at hrange ⊢
  have hf : e.refs.nextId < Nat.pow 2 32 := by
    have h := hrange ⟨e.refs.nextId, e.rejectionBody e.errorCount reason⟩
      (List.mem_append_left _ (List.mem_append_right _ List.mem_cons_self))
    cases reason with
    | postpone p => exact h
    | error cause => exact h
  refine H.status?_abort hf (fun r hr => ⟨Encoder.no_row_of_owed L (.inl rfl) r hr, fun hmem => ?_⟩)
    (fun h => Encoder.nextId_notMem_taskIds L (hkept.mp h))
    (L.abortable.nodup_iff.mpr L.nodup_taskIds) e e.errorCount reason
    (hid.imp_right hkept.mpr)
  exact Encoder.no_row_of_owed L (.inr (hkept.mp hmem)) r hr rfl

/-! ### All of it -/

open Stage in
/-- **An abort answers for everything, once.** Take an encoder in any state it can reach that is not
closed, with a sink that always wants more, and any reason. `before` is what the sink was given so
far. The abort sends what was queued; then, if any task is outstanding, one row that tells the
reason, with an id of its own, and for each task one reference to it; then one error for each open
stream; and nothing else. Nothing is pending then, the sink is closed once, and the sources of the
open streams are cancelled. Whatever follows, the encoder and what the sink was given stay as they
are, and the sink is not closed again. While an encoder is being aborted it keeps no task, and no
message makes it render one. All this is framed as long as ids and lengths fit into their headers.
Then a new decoder, whatever handles were asked of it, with a loader that leaves them alone, that is
fed it in any pieces rejects the handle of every task with the reason of that one row. -/
theorem abort_answers_everything {η : Type} {run : Force η} (hrun : Quiet run) {i : Nat}
    {model : Value} {x : Stage η}
    (h : Reached run i model x) (hopen : x.encoder.status ≠ .closed)
    (hsink : x.encoder.sink = some i)
    (hready : ∀ m n, (x.store.sink i).ready m n = true) (reason : Option Rejection) :
    ∃ before ends : List Row, x.given i = before.flatMap Row.encode ∧
      -- what is sent
      (x.aborted reason).given i = (before ++ x.encoder.queued ++
          (if x.encoder.tasks.isEmpty then [] else
        (⟨x.encoder.refs.nextId, x.encoder.rejectionBody x.encoder.errorCount
          (reason.getD .aborted)⟩ : Row) ::
          x.encoder.abortable.map fun id =>
            (⟨id, .model (Encoder.rowJson x.encoder.refs.nextId)⟩ : Row)) ++
          ends).flatMap Row.encode ∧
      (x.encoder.abortable.Nodup ∧ x.encoder.abortable.Perm (x.encoder.tasks.map (·.id))) ∧
      (x.encoder.refs.nextId ∉ x.encoder.abortable ∧ ∀ r ∈ before ++ x.encoder.queued,
        r.id ≠ x.encoder.refs.nextId) ∧
      ends.map (·.id) = x.encoder.streams.map (·.id) ∧ (∀ r ∈ ends, ∃ j, r.body = .error j) ∧
      -- how it is left
      (x.aborted reason).encoder.pending = 0 ∧ ((x.aborted reason).store.sink i).closes = 1 ∧
      (∀ task ∈ x.encoder.streams, ∃ c, task.model = .cell c ∧
        ((x.store.stream? c).isSome → (x.aborted reason).store.IsCancelled c)) ∧
      -- what may follow
      (∀ y, Relation.ReflTransGen (Step run i) (x.aborted reason) y → y.encoder =
        (x.aborted reason).encoder ∧
        y.given i = (x.aborted reason).given i ∧ (y.store.sink i).closes = 1) ∧
      (∀ y, Reached run i model y → y.encoder.status = .aborting → y.encoder.tasks = [] ∧
        ∀ fuel s z, Render.handleAll run fuel ⟨y.encoder, s, y.host⟩ = some ((), z) → z.encoder =
          y.encoder ∧ z.host = y.host) ∧
      -- what is heard of it
      ((x.aborted reason).encoder.refs.nextId ≤ Nat.pow 2 32 → ((x.aborted reason).given i).length <
        Nat.pow 2 64 → (RowReader.start.feed ((x.aborted reason).given i)).fault = none) ∧
      ∀ (options : DecoderOptions) (s : Store) (asked : List Nat) (pieces : List Bytes), s.Sound →
        LoadsSafely options s → pieces.flatten = (x.aborted reason).given i →
        (RowReader.start.feed pieces.flatten).fault = none →
        (feedAll pieces (.asked options s asked)).1 = .ok () ∧
        ∀ task ∈ x.encoder.tasks, (feedAll pieces (.asked options s asked)).2.RejectedWith task.id
            (x.encoder.toldReason x.encoder.errorCount (reason.getD .aborted)) ∧
          (feedAll pieces (.asked options s asked)).2.RejectedWith x.encoder.refs.nextId
            (x.encoder.toldReason x.encoder.errorCount (reason.getD .aborted)) := by
  have hx := h.sound hrun
  obtain ⟨before, L, hgiven⟩ := hx.exists_sent hsink
  obtain ⟨hsent, hpending, hclosed⟩ := abort_sends hx hopen hsink hready reason
  have hsound : Sound i (x.aborted reason) := hx.step hrun (.abort reason)
  have hcloses : ∀ y : Stage η, Sound i y → y.encoder.status = .closed →
      (y.store.sink i).closes = 1 := by
    intro y hy hclosed
    rw [Flows.closes hy, if_pos hclosed]
  have hrows : (x.aborted reason).given i =
      (before ++ x.encoder.queued ++ x.encoder.taskRows (reason.getD .aborted) ++
        x.encoder.streamRows (reason.getD .aborted)).flatMap Row.encode := by
    rw [hsent, Stage.given, hgiven, Encoder.abortRows, ← List.flatMap_append]
    simp only [List.append_assoc]
  refine ⟨before, x.encoder.streamRows (reason.getD .aborted), hgiven, hrows,
    ⟨L.abortable.nodup_iff.mpr L.nodup_taskIds, L.abortable⟩,
    ⟨fun hid => Encoder.nextId_notMem_taskIds L (L.abortable.mem_iff.mp hid), Encoder.no_row_of_owed
      L (.inl rfl)⟩,
    Encoder.map_id_endRows .., fun r hr => Encoder.exists_error_of_mem_endRows hr, hpending,
      hcloses _ hsound hclosed, ?_, ?_, ?_,
    ?_, ?_⟩
  · intro task htask
    obtain ⟨c, hc⟩ := L.sources task htask
    exact ⟨c, hc, isCancelled_aborted hx hopen hsink reason htask hc⟩
  · intro y hy
    obtain ⟨hsound', hsame, hgiven'⟩ := hsound.of_closed hrun hclosed hy
    exact ⟨hsame, hgiven', hcloses y hsound' (hsame ▸ hclosed)⟩
  · intro y hy haborting
    obtain ⟨htasks, hstreams⟩ := hy.rests hrun haborting
    exact ⟨htasks, fun fuel s z hz => Flows.handleAll_idle htasks hstreams y.host fuel
      ⟨y.encoder, s, y.host⟩ () z ⟨rfl, rfl⟩ hz⟩
  · refine (h.step (.abort reason)).framed hrun ?_
    rw [Sink.isClosed, show ((x.aborted reason).store.sink i).closes =
      1 from hcloses _ hsound hclosed]
    rfl
  · intro options s asked pieces hs hl hpieces hframed
    rw [hpieces, hrows] at hframed
    rw [hrows] at hpieces
    obtain ⟨hanswer, hrejected⟩ := rejected_of_abort hs hl asked L
      (reason.getD .aborted) hpieces hframed
    exact ⟨hanswer, fun task htask =>
      ⟨hrejected htask _ (.inr (List.mem_map_of_mem htask)), hrejected htask _ (.inl rfl)⟩⟩

theorem abort_answers_everything_unsettled :
    ∃ x : Stage Unit, Stage.Reached noThunks 0 unsettledArray.1 x ∧
    x.encoder.status ≠ .closed ∧ x.encoder.sink = some 0 ∧ x.encoder.streams.length = 1 ∧
      ∃ task, x.encoder.tasks = [task] ∧ ((x.aborted none).store.sink 0).closes = 1 ∧
      (feedAll [(x.aborted none).given 0] (.asked default {} [0])).2.RejectedWith task.id
        (x.encoder.toldReason x.encoder.errorCount .aborted) := by
  obtain ⟨x, hreached, hready, hx⟩ := exists_unsettled
    (Q := fun x => ∀ m n, (x.store.sink 0).ready m n = true)
    (fun x => x.encoder.status != .closed && x.encoder.sink == some 0 &&
      x.encoder.streams.length == 1 &&
      x.encoder.tasks.length == 1 && decide ((x.aborted none).encoder.refs.nextId ≤ Nat.pow 2 32) &&
      decide (((x.aborted none).given 0).length < Nat.pow 2 64)) (fun _ _ _ => rfl)
    (fun hx hready h m n => by rw [h.ready quiet_noThunks (hx.sound quiet_noThunks), hready])
    (by decide +kernel)
  simp only [Bool.and_eq_true, bne_iff_ne, beq_iff_eq, decide_eq_true_eq] at hx
  obtain ⟨⟨⟨⟨⟨hopen, hsink⟩, hstreams⟩, htasks⟩, hids⟩, hlength⟩ := hx
  obtain ⟨before, ends, -, -, -, -, -, -, -, hcloses, -, -, -, hframed, hheard⟩ :=
    abort_answers_everything quiet_noThunks hreached hopen hsink hready none
  obtain ⟨task, htask⟩ := List.length_eq_one_iff.mp htasks
  obtain ⟨-, hrejected⟩ := hheard default {} [0] [(x.aborted none).given 0] sound_empty
    (.inl (standard_tame _)) (by simp) (by simpa using hframed hids hlength)
  exact ⟨x, hreached, hopen, hsink, hstreams, task, htask, hcloses,
    (hrejected task (by rw [htask]; exact List.mem_singleton_self _)).1⟩

end GraphRows
