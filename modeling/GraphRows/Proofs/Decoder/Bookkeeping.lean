import GraphRows.Proofs.Decoder.History
import GraphRows.Proofs.Decoder.Settling

/-!
# The books of a decoder between calls

A decoder is asked for handles, fed bytes and closed, in any order and with any bytes; what becomes
of the store between two calls is nobody's business here. Whenever a call is over, all watchers that
had to run have run, each of them once, and what is still open waits: a blocked entry has as many
holes as there are watchers for it on open entries, nobody waits in a circle, and everybody waits
for a row that has not come. Closing settles what is left.

## Main result

* `books_between_calls`
-/

namespace GraphRows

open Decoder DecodeM WatcherEvent

variable {d : Decoder} {x : Decoding} {h : List WatcherEvent}

/-! ### Closing -/

namespace DecodeM

/-- The first half of closing: what no row has come for is rejected. -/
def shut (reason : Rejection) : DecodeM Unit := do
  modifyDecoder fun d => { d with closed := some reason }
  rejectEntries EntryState.isPending reason

/-- What is left only waits for itself. -/
def rejectRest (reason : Rejection) : DecodeM Unit :=
  rejectEntries (fun st => !st.isTerminal) reason

/-- The streams that are open end with the reason. -/
def endStreams (reason : Rejection) : DecodeM Unit := do
  let streams := (← decoder).streams
  modifyDecoder fun d => { d with streams := [] }
  streams.forM fun (_, st) => modifyStore fun s => (s.push st.stream (.error reason)).2

theorem closeWith_of_open (h : x.decoder.closed = none) (reason : Rejection) :
    closeWith reason x = (do
      shut reason
      runWatchers
      rejectRest reason
      runWatchers
      endStreams reason : DecodeM Unit) x := by
  unfold closeWith
  rw [decoder_bind, if_pos (by rw [h]; rfl)]
  rfl

theorem closeWith_of_closed (h : x.decoder.closed.isSome) (reason : Rejection) :
    closeWith reason x = ((), x) := by
  unfold closeWith
  rw [decoder_bind, if_neg (by simpa using Option.isSome_iff_ne_none.mp h)]
  rfl

variable {a : Affairs}

/-- Rejecting entries keeps the order. -/
theorem rejectEntries_ensures (hclosed : a.closed.isSome) (test : EntryState → Bool)
    (reason : Rejection) :
    Ensures (fun x => Tidy a x.decoder) (rejectEntries test reason) fun _ x =>
      Tidy a x.decoder := by
  unfold rejectEntries
  refine .bind .decoder fun d => ?_
  let I : List Nat → Decoding → Prop := fun rest x => Tidy a x.decoder ∧ ∀ i ∈ rest,
    i < x.decoder.entries.size
  refine ((Ensures.forM (I := I) (fun i rest => .bind .decoder fun d' => ?_) _).pre ?_).post
    fun _ x hx => hx.1
  · split
    · rintro x ⟨⟨T, hx⟩, -⟩
      have hheard : a.Heard x.decoder i := fun hopen => by rw [hopen] at hclosed; cases hclosed
      have hsettled := settleEntry_ensures i (.error reason) x
        ⟨T, hx i List.mem_cons_self, hheard⟩
      refine ⟨hsettled.1, fun j hj => ?_⟩
      rw [(settleEntry_settles i (.error reason) x).1]
      exact hx j (List.mem_cons_of_mem _ hj)
    · exact .pure fun x hx => ⟨hx.1.1, fun j hj => hx.1.2 j (List.mem_cons_of_mem _ hj)⟩
  · rintro x ⟨T, rfl⟩
    exact ⟨T, fun i hi => List.mem_range.mp hi⟩

theorem rejectEntries_onward (test : EntryState → Bool) (reason : Rejection) :
    Goes Entry.Grown (rejectEntries test reason) := by
  unfold rejectEntries
  refine .bind .decoder fun d => habit_goes.forM (fun i => .bind .decoder fun d' => ?_) _
  split
  · exact settleEntry_onward i _
  · exact .pure _

theorem shut_ensures (T : Tidy a x.decoder) (reason : Rejection) :
    Tidy { a with closed := some reason } (shut reason x).2.decoder := by
  have O := T.orderly
  refine rejectEntries_ensures (a := { a with closed := some reason }) rfl EntryState.isPending
    reason ⟨{ x.decoder with closed := some reason }, x.store⟩ ⟨?_, T.waits.congr rfl rfl rfl⟩
  exact { O with alive := ⟨rfl, O.alive.2⟩, heard := fun _ _ => nofun }

theorem shut_onward (reason : Rejection) : Goes Entry.Grown (shut reason) :=
  .bind (.modifyDecoder fun _ => .congr rfl rfl) fun _ =>
    rejectEntries_onward EntryState.isPending reason

theorem endStreams_decoder (reason : Rejection) (x : Decoding) :
    (endStreams reason x).2.decoder = { x.decoder with streams := [] } := by
  have h : Ensures (· = x) (endStreams reason) fun _ y => y.decoder =
      { x.decoder with streams := [] } := by
    refine .bind .decoder fun d =>
      .bind (Q := fun _ y => y.decoder = { x.decoder with streams := [] }) (.modifyDecoder ?_)
        fun _ => ?_
    · rintro y ⟨rfl, -⟩
      rfl
    · exact Ensures.forM (I := fun _ y => y.decoder = { x.decoder with streams := [] })
        (fun p _ => .modifyStore fun y hy => hy) _
  exact h x rfl

/-- The history of closing. -/
def historyOfClosing (reason : Rejection) (x : Decoding) : List WatcherEvent :=
  if x.decoder.closed.isSome then []
  else
    let x₁ := (shut reason x).2
    let x₂ := (runWatchers x₁).2
    let x₃ := (rejectRest reason x₂).2
    historyOf (shut reason) x ++ historyOfWatchers x₁ ++ historyOf (rejectRest reason) x₂ ++
      historyOfWatchers x₃

end DecodeM

/-- Nothing more will come: everything is settled and nothing is left to do. -/
structure Decoder.Shut (d : Decoder) : Prop where
  closed : d.closed.isSome
  settled : d.AllSettled
  wake : d.wake = []
  watchers : ∀ i, (d.entry i).watchers = []

/-- A rejected entry is added. -/
theorem Decoder.Shut.push {r : Rejection} (S : d.Shut) (hr : d.closed = some r) (handle : CellId)
    (ids : List (Nat × Nat)) :
    Decoder.Shut { d with entries := d.entries.push { state := .rejected r, handle }, ids } := by
  have hentry := entry_push d { state := .rejected r, handle }
  refine ⟨by rw [hr]; rfl, fun i hi => ?_, S.wake, fun i => ?_⟩
  · change (Decoder.entry
      { d with entries := d.entries.push { state := .rejected r, handle } } i).state.isTerminal
    rw [hentry]
    split
    · rfl
    · rename_i hne
      simp only [Array.size_push] at hi
      exact S.settled i (by omega)
  · change (Decoder.entry
      { d with entries := d.entries.push { state := .rejected r, handle } } i).watchers = []
    rw [hentry]
    split
    · rfl
    · exact S.watchers i

/-- What is left when the first half of closing is done settles in the second half. -/
theorem Booked.settleRest {a : Affairs} (B : Booked h [] x.decoder) (T : Tidy a x.decoder)
    (hloose : a.loose = none) (hrunning : a.running = []) (hclosed : a.closed.isSome)
    (reason : Rejection) :
    (runWatchers (rejectRest reason x).2).2.decoder.Shut ∧
      Booked (h ++ historyOf (rejectRest reason) x ++ historyOfWatchers (rejectRest reason x).2) []
        (runWatchers (rejectRest reason x).2).2.decoder := by
  have T' : Tidy a (rejectRest reason x).2.decoder := rejectEntries_ensures hclosed _ reason x T
  have B' := B.grow (rejectEntries_onward (fun st => !st.isTerminal) reason x)
  have hsettled := runWatchers_settled _ (rejectEntries_settles reason x trivial)
  obtain ⟨T'', hwake⟩ := runWatchers_ensures hloose hrunning _ T'
  refine ⟨⟨T''.orderly.alive.1 ▸ hclosed, hsettled, hwake, fun i => ?_⟩,
    B'.watchers T' hloose hrunning⟩
  rcases Nat.lt_or_ge i (runWatchers (rejectRest reason x).2).2.decoder.entries.size with hi | hi
  · exact GraphRows.Waits.settled T''.waits i (hsettled i hi) (by simp [hwake])
  · exact congrArg Entry.watchers (entry_of_size_le _ hi)

/-- **Closing settles everything**, and every watcher runs. -/
theorem Booked.close {a : Affairs} {h : List WatcherEvent} {x : Decoding}
    (B : Booked h [] x.decoder) (T : Tidy a x.decoder) (hloose : a.loose = none)
    (hrunning : a.running = []) (hopen : a.closed = none) (reason : Rejection) :
    (closeWith reason x).2.decoder.Shut ∧
      Booked (h ++ historyOfClosing reason x) [] (closeWith reason x).2.decoder := by
  have hclosed : x.decoder.closed = none := T.orderly.alive.1.trans hopen
  have T₁ := shut_ensures T reason
  have B₁ := (B.grow (shut_onward reason x)).watchers T₁ hloose hrunning
  have T₂ := (runWatchers_ensures (a := { a with closed := some reason }) hloose hrunning
    (shut reason x).2 T₁).1
  obtain ⟨S, B₂⟩ := B₁.settleRest T₂ hloose hrunning rfl reason
  have hrun : (closeWith reason x).2.decoder =
      { (runWatchers
        (rejectRest reason (runWatchers (shut reason x).2).2).2).2.decoder with streams :=
          [] } := by
    rw [closeWith_of_open hclosed]
    exact endStreams_decoder reason _
  rw [hrun, historyOfClosing, if_neg (by simp [hclosed])]
  refine ⟨⟨S.closed, S.settled, S.wake, S.watchers⟩, ?_⟩
  simp only [List.append_assoc, historyOf] at B₂ ⊢
  exact B₂.congr rfl

/-! ### Rows -/

/-- The rows whose values a row takes. -/
def RawRow.referents (row : RawRow) : List Nat := (row.model?.map Json.referents).getD []

/-- What is known when some rows have come, whatever else may come. -/
def Affairs.fed (rows : List RawRow) (reader : RowReader) : Affairs where
  wanted _ := True
  arrived k := ∃ r ∈ rows, k = r.id ∧ r.isValue
  unended _ := True
  spoken k := ∃ r ∈ rows, k ∈ r.referents
  reader

section Fed

variable {rows : List RawRow} {reader : RowReader} {refers : Nat → Nat → Prop} {x : Decoding}

/-- A row is going to be acted on, and what it refers to is spoken of. -/
theorem Tidy.address (T : Tidy { Affairs.fed rows reader with refers } x.decoder) (row : RawRow) :
    Tidy
      { Affairs.fed rows reader with spoken := (Affairs.fed (rows ++ [row]) reader).spoken, refers }
      x.decoder := by
  have O := T.orderly
  refine ⟨{ O with }, T.waits.regard fun k hk => ?_⟩
  obtain ⟨r, hr, hmem⟩ := hk
  exact ⟨r, List.mem_append_left _ hr, hmem⟩

theorem Affairs.spoken_fed {row : RawRow} {j : Json} (hj : row.model? = some j) {n : Nat}
    (hn : n ∈ j.referents) : (Affairs.fed (rows ++ [row]) reader).spoken n :=
  ⟨row, by simp, by rw [RawRow.referents, hj]; exact hn⟩

/-- What a row says is taken in, whatever it says. -/
theorem Tidy.takeIn (T : Tidy { Affairs.fed rows reader with refers } x.decoder) (row : RawRow)
    (hrefers : row.isValue → ¬ (Affairs.fed rows reader).arrived row.id → ∀ j, row.model? =
      some j → ∀ n ∈ j.referents, refers row.id n) :
    Tidy { Affairs.fed (rows ++ [row]) reader with refers } (DecodeM.takeIn row x).2.decoder := by
  have harrived : (Affairs.fed (rows ++ [row]) reader).arrived =
      fun k => (Affairs.fed rows reader).arrived k ∨ k = row.id ∧ row.isValue := by
    funext k
    simp only [Affairs.fed, List.mem_append, List.mem_singleton, or_and_right, exists_or,
      exists_eq_left]
  have htaken : Tidy { Affairs.fed (rows ++ [row]) reader with
      arrived := fun k => (Affairs.fed rows reader).arrived k ∨ k = row.id ∧ row.isValue,
        refers } (DecodeM.takeIn row x).2.decoder :=
    takeIn_ensures row (fun _ => trivial) (fun _ _ _ _ => trivial)
      (fun _ hj _ hn => Affairs.spoken_fed hj hn) hrefers
      (fun _ _ => .inr trivial) (fun _ => trivial) x (T.address row)
  rw [← harrived] at htaken
  exact htaken

end Fed

/-- The history of acting on a row. -/
def historyOfRow (row : RawRow) (x : Decoding) : List WatcherEvent :=
  historyOf (takeIn row) x ++ historyOfWatchers (takeIn row x).2

/-- The history of acting on rows. -/
def historyOfRows : List RawRow → Decoding → List WatcherEvent
  | [], _ => []
  | row :: rest, x => historyOfRow row x ++ historyOfRows rest (takeRow row x).2

/-- The order is kept, the account is right, and nobody is left to wake for. -/
structure Rests (a : Affairs) (h : List WatcherEvent) (d : Decoder) : Prop where
  tidy : Tidy a d
  booked : Booked h [] d
  wake : d.wake = []

namespace Rests

variable {rows : List RawRow} {reader : RowReader} {h : List WatcherEvent} {x : Decoding}

/-- **One row**, whatever it says. -/
theorem takeRow (C : Rests (.fed rows reader) h x.decoder) (row : RawRow) :
    Rests (.fed (rows ++ [row]) reader) (h ++ historyOfRow row x)
      (DecodeM.takeRow row x).2.decoder := by
  have T₁ : Tidy (.fed (rows ++ [row]) reader) (takeIn row x).2.decoder :=
    C.tidy.takeIn row fun _ _ _ _ _ _ => trivial
  have B₁ := C.booked.grow (takeIn_onward C.tidy.orderly.named row)
  rw [takeRow_eq]
  obtain ⟨T₂, hwake⟩ := runWatchers_ensures rfl rfl _ T₁
  refine ⟨T₂, ?_, hwake⟩
  have B₂ := B₁.watchers T₁ rfl rfl
  rw [List.append_assoc] at B₂
  exact B₂

/-- **Any number of rows.** -/
theorem takeRows (C : Rests (.fed rows reader) h x.decoder) (todo : List RawRow) :
    Rests (.fed (rows ++ todo) reader) (h ++ historyOfRows todo x)
      (todo.forM DecodeM.takeRow x).2.decoder := by
  induction todo generalizing rows h x with
  | nil =>
    rw [List.append_nil, historyOfRows, List.append_nil]
    exact C
  | cons row todo ih =>
    have hrest := ih (C.takeRow row)
    rw [List.append_assoc, List.append_assoc] at hrest
    exact hrest

theorem setReader (C : Rests (.fed rows reader) h x.decoder) (reader' : RowReader) :
    Rests (.fed rows reader') h { x.decoder with reader := reader' } := by
  have O := C.tidy.orderly
  exact ⟨⟨{ O with alive := ⟨O.alive.1, rfl⟩ }, C.tidy.waits.congr rfl rfl rfl⟩,
    C.booked.congr rfl, C.wake⟩

/-- Somebody asks for a row. -/
theorem entryOf (C : Rests (.fed rows reader) h x.decoder) (id : Nat) :
    Rests (.fed rows reader) (h ++ historyOf (DecodeM.entryOf id) x)
      (DecodeM.entryOf id x).2.decoder := by
  refine ⟨?_, C.booked.grow (entryOf_onward id x), ?_⟩
  · exact (entryOf_ensures (P := fun x => Tidy (.fed rows reader) x.decoder) rfl
      (fun _ T => T) trivial (fun _ _ _ _ _ _ _ T => T) x C.tidy).1
  · cases hid : x.decoder.ids.lookup id with
    | some i =>
      rw [entryOf_of_some hid]
      exact C.wake
    | none =>
      rw [entryOf_of_none hid C.tidy.orderly.alive.1]
      exact C.wake

end Rests

namespace DecodeM

/-- The decoder when the rows of a piece were acted on, before a fault closes it. -/
def afterRows (piece : Bytes) (x : Decoding) : Decoding :=
  ((x.decoder.reader.feed piece).rows.forM takeRow
    ⟨{ x.decoder with reader := (x.decoder.reader.feed piece).reader }, x.store⟩).2

theorem feed_of_open (h : x.decoder.closed = none) (piece : Bytes) :
    (feed piece x).2 =
      match (x.decoder.reader.feed piece).fault with
      | none => afterRows piece x
      | some f => (closeWith (.ofFault f) (afterRows piece x)).2 := by
  unfold feed
  rw [decoder_bind, if_neg (by simp [h])]
  cases hfault : (x.decoder.reader.feed piece).fault with
  | none => rfl
  | some f => rfl

theorem feed_of_closed (h : x.decoder.closed.isSome) (piece : Bytes) : (feed piece x).2 = x := by
  unfold feed
  rw [decoder_bind, if_pos h]
  rfl

/-- The history of feeding a piece. -/
def historyOfFeed (piece : Bytes) (x : Decoding) : List WatcherEvent :=
  if x.decoder.closed.isSome then []
  else
    historyOfRows (x.decoder.reader.feed piece).rows
        ⟨{ x.decoder with reader := (x.decoder.reader.feed piece).reader }, x.store⟩ ++
      match (x.decoder.reader.feed piece).fault with
      | none => []
      | some f => historyOfClosing (.ofFault f) (afterRows piece x)

end DecodeM

/-! ### Calls -/

/-- What may be asked of a decoder. -/
inductive Call where
  | handle (id : Nat)
  | feed (piece : Bytes)
  | close

namespace Call

/-- Do what is asked. -/
def perform (x : Decoding) : Call → Decoding
  | .handle id => (DecodeM.handle id x).2
  | .feed piece => (DecodeM.feed piece x).2
  | .close => (DecodeM.close x).2

/-- The bytes that come with the call. -/
def bytes : Call → Bytes
  | .feed piece => piece
  | .handle _ | .close => []

/-- What happens to watchers during the call. -/
def history (x : Decoding) : Call → List WatcherEvent
  | .handle id => historyOf (DecodeM.handle id) x
  | .feed piece => historyOfFeed piece x
  | .close => historyOfClosing (.ofFault .connectionClosed) x

end Call

namespace Decoder

/-- A decoder after some calls, each with the store it finds. -/
def after (d : Decoder) : List (Store × Call) → Decoder
  | [] => d
  | (s, call) :: rest => (call.perform ⟨d, s⟩).decoder.after rest

/-- What happens to watchers during some calls. -/
def history (d : Decoder) : List (Store × Call) → List WatcherEvent
  | [] => []
  | (s, call) :: rest => call.history ⟨d, s⟩ ++ (call.perform ⟨d, s⟩).decoder.history rest

end Decoder

/-- A decoder between calls, when some bytes have come. -/
inductive Between (bytes : Bytes) (h : List WatcherEvent) (d : Decoder) : Prop
  | working (hfault : (RowReader.start.feed bytes).fault = none)
      (C : Rests (.fed (RowReader.start.feed bytes).rows (RowReader.start.feed bytes).reader) h d)
  | shut (S : d.Shut) (B : Booked h [] d)

/-- Bytes that could be framed, and then some more. -/
theorem feed_append_of_fault_eq_none {bytes : Bytes} (h : (RowReader.start.feed bytes).fault = none)
    (piece : Bytes) :
    RowReader.start.feed (bytes ++ piece) = { (RowReader.start.feed bytes).reader.feed piece with
      rows := (RowReader.start.feed bytes).rows ++
        ((RowReader.start.feed bytes).reader.feed piece).rows } := by
  rw [RowReader.feed_append, RowReader.Fed.andThen, h]

namespace Between

variable {bytes : Bytes} {h : List WatcherEvent} {d : Decoder}

/-- **What was shut stays shut.** -/
theorem perform_of_shut (S : d.Shut) (B : Booked h [] d) (s : Store) (call : Call) :
    Between (bytes ++ call.bytes) (h ++ call.history ⟨d, s⟩) (call.perform ⟨d, s⟩).decoder := by
  cases call with
  | handle id =>
    refine .shut ?_ (B.grow (entryOf_onward id ⟨d, s⟩))
    change (entryOf id ⟨d, s⟩).2.decoder.Shut
    cases hid : d.ids.lookup id with
    | some i =>
      rw [entryOf_of_some (x := ⟨d, s⟩) hid]
      exact S
    | none =>
      obtain ⟨r, hr⟩ := Option.isSome_iff_exists.mp S.closed
      rw [entryOf_of_closed (x := ⟨d, s⟩) hid hr]
      exact S.push hr _ _
  | feed piece =>
    rw [Call.perform, Call.history, historyOfFeed, if_pos S.closed, feed_of_closed (x := ⟨d, s⟩)
      S.closed, List.append_nil]
    exact .shut S B
  | close =>
    rw [Call.perform, Call.history, historyOfClosing, if_pos S.closed, DecodeM.close,
      closeWith_of_closed (x := ⟨d, s⟩) S.closed, List.append_nil]
    exact .shut S B

/-- **One call.** -/
theorem perform (C : Between bytes h d) (s : Store) (call : Call) :
    Between (bytes ++ call.bytes) (h ++ call.history ⟨d, s⟩) (call.perform ⟨d, s⟩).decoder := by
  cases C with
  | shut S B => exact perform_of_shut S B s call
  | working hfault C =>
    have hclosed : d.closed = none := C.tidy.orderly.alive.1
    have hreader : d.reader = (RowReader.start.feed bytes).reader := C.tidy.orderly.alive.2
    cases call with
    | handle id =>
      rw [Call.bytes, List.append_nil]
      exact .working hfault (C.entryOf (x := ⟨d, s⟩) id)
    | close =>
      obtain ⟨S, B⟩ := C.booked.close (x := ⟨d, s⟩) C.tidy rfl rfl rfl (.ofFault .connectionClosed)
      exact .shut S B
    | feed piece =>
      have hfed := feed_append_of_fault_eq_none hfault piece
      rw [← hreader] at hfed
      have C' := Rests.takeRows (x := ⟨{ d with reader := (d.reader.feed piece).reader }, s⟩)
        (C.setReader (x := ⟨d, s⟩) (d.reader.feed piece).reader) (d.reader.feed piece).rows
      rw [Call.bytes, Call.perform, Call.history, historyOfFeed, if_neg (by simp [hclosed]),
        feed_of_open (x := ⟨d, s⟩) hclosed, ← List.append_assoc]
      cases hpiece : (d.reader.feed piece).fault with
      | none =>
        simp only [List.append_nil]
        refine .working (by rw [hfed]; exact hpiece) ?_
        rw [hfed]
        exact C'
      | some f =>
        obtain ⟨S, B⟩ := C'.booked.close (x := afterRows piece ⟨d, s⟩) C'.tidy rfl rfl
          rfl (.ofFault f)
        exact .shut S B

/-- **Any number of calls.** -/
theorem after (C : Between bytes h d) (calls : List (Store × Call)) :
    Between (bytes ++ calls.flatMap (·.2.bytes)) (h ++ d.history calls) (d.after calls) := by
  induction calls generalizing bytes h d with
  | nil =>
    rw [List.flatMap_nil, List.append_nil, Decoder.history, List.append_nil]
    exact C
  | cons p rest ih =>
    obtain ⟨s, call⟩ := p
    have hrest := ih (C.perform s call)
    rw [List.append_assoc, List.append_assoc] at hrest
    exact hrest

end Between

theorem rests_create (options : DecoderOptions) :
    Rests (.fed [] .start) [] (Decoder.create options) := by
  refine ⟨tidy_create options ⟨rfl, rfl⟩ ?_ rfl,
    ⟨fun i w => ?_, fun _ _ _ h => absurd h List.not_mem_nil⟩, rfl⟩
  · rintro id ⟨r, hr, -⟩
    cases hr
  · rw [entry_of_size_le _ (Nat.zero_le i)]
    rfl

theorem between_create (options : DecoderOptions) : Between [] [] (.create options) :=
  .working rfl (rests_create options)

/-! ### The books -/

/-- How many watchers on open entries stand for holes of `t` that count. -/
def Decoder.awaited (d : Decoder) (t : Nat) : Nat :=
  ((List.range d.entries.size).map fun i =>
    if (d.entry i).state.isTerminal then 0 else (d.entry i).watchers.countP (Watcher.counts t)).sum

/-- The books of a decoder that was given some rows, with the history of its watchers. -/
structure Books (rows : List RawRow) (h : List WatcherEvent) (d : Decoder) : Prop where
  /-- nobody is left to wake for -/
  wake : d.wake = []
  /-- no row is being read -/
  reviving : ∀ i, (d.entry i).state ≠ .reviving
  /-- nothing waits for what has settled -/
  settled : ∀ i, (d.entry i).state.isTerminal → (d.entry i).watchers = []
  /-- whatever was put on an entry has run once or stands there -/
  once : ∀ i w, h.countP (isPlaced i w) = h.countP (isRun i w) + (d.entry i).watchers.count w
  /-- and it ran when the entry had settled -/
  afterwards : ∀ i w state, .ran i w state ∈ h → state.isTerminal
  /-- a blocked entry has holes, as many as there are watchers for it on open entries -/
  blocked : ∀ t, (d.entry t).state.isBlocked → 1 ≤ (d.entry t).draft.holes ∧
    (d.entry t).draft.holes = d.awaited t
  /-- nobody waits in a circle -/
  acyclic : ∀ t, ¬ Relation.TransGen d.Awaits t t
  /-- whoever waits, waits for a row that has not come -/
  waiting : ∀ t, (d.entry t).state.isBlocked → ∃ i, Relation.TransGen d.Awaits t i ∧
    (d.entry i).state.isPending
  /-- and when all rows that are referred to have come, nobody waits -/
  complete : (∀ r ∈ rows, ∀ id ∈ r.referents, ∃ r' ∈ rows, r'.id = id ∧ r'.isValue) →
    ∀ t, (d.entry t).state.isBlocked = false

/-- Where nothing stands on a settled entry, only open entries count. -/
theorem awaited_eq_outstanding (h : ∀ i, (d.entry i).state.isTerminal → (d.entry i).watchers = [])
    (t : Nat) : d.awaited t = d.outstanding t := by
  refine congrArg List.sum (List.map_congr_left fun i _ => ?_)
  split
  · rename_i hi
    rw [h i hi]
    rfl
  · rfl

/-- The books of a decoder at work. -/
theorem Rests.books {rows : List RawRow} {reader : RowReader}
    (C : Rests (.fed rows reader) h d) : Books rows h d := by
  have W : Waits _ _ [] d := C.tidy.waits
  have hreviving : ∀ i, (d.entry i).state ≠ .reviving :=
    fun i hi => by cases C.tidy.orderly.reviving i hi
  have hsettled : ∀ i, (d.entry i).state.isTerminal → (d.entry i).watchers = [] :=
    fun i hi => W.settled i hi (by simp [C.wake])
  refine ⟨C.wake, hreviving, hsettled, fun i w => ?_, C.booked.settled, fun t ht => ?_,
    W.not_awaits_self C.wake,
    fun t => W.exists_pending C.wake hreviving, fun hrows t => Bool.eq_false_iff.mpr fun ht => ?_⟩
  · simpa using C.booked.counts i w
  · refine ⟨W.blocked t ht, ?_⟩
    rw [awaited_eq_outstanding hsettled, W.holes t (EntryState.not_isTerminal_of_isBlocked ht)]
    rfl
  · obtain ⟨i, hi, hpending⟩ := W.exists_pending C.wake hreviving ht
    obtain ⟨id, hid, r, hr, hmem⟩ := W.spoken_of_awaits hi
    obtain ⟨r', hr', hid', hvalue⟩ := hrows r hr id hmem
    obtain ⟨j, hj, hbusy⟩ := C.tidy.orderly.arrived id ⟨r', hr', hid'.symm, hvalue⟩
    obtain rfl := Option.some.inj (hid.symm.trans hj)
    cases hbusy hpending

/-- The books of a decoder that was closed. -/
theorem Decoder.Shut.books (S : d.Shut) (B : Booked h [] d) (rows : List RawRow) :
    Books rows h d := by
  have nobody : ∀ {t i}, ¬ d.Awaits t i := by
    rintro t i ⟨-, w, hw, -⟩
    rw [S.watchers] at hw
    cases hw
  have hstate : ∀ i, (d.entry i).state.isTerminal ∨ (d.entry i).state = .pending := by
    intro i
    rcases Nat.lt_or_ge i d.entries.size with hi | hi
    · exact .inl (S.settled i hi)
    · exact .inr (by rw [entry_of_size_le d hi])
  have hopen : ∀ i, (d.entry i).state.isBlocked = false := by
    intro i
    refine Bool.eq_false_iff.mpr fun hi => ?_
    rcases hstate i with h | h
    · rw [EntryState.not_isTerminal_of_isBlocked hi] at h
      cases h
    · rw [h] at hi
      cases hi
  refine ⟨S.wake, fun i hi => ?_, fun i _ => S.watchers i,
    fun i w => by simpa using B.counts i w, B.settled,
    fun t ht => ?_, fun t ht => ?_, fun t ht => ?_, fun _ => hopen⟩
  · rcases hstate i with h | h
    · rw [hi] at h
      cases h
    · rw [hi] at h
      cases h
  · rw [hopen] at ht
    cases ht
  · obtain ⟨i, hi, -⟩ := Relation.TransGen.head'_iff.mp ht
    exact nobody hi
  · rw [hopen] at ht
    cases ht

/-- **The books are in order between calls**, whatever is asked of a decoder and whatever bytes
come. -/
theorem books_between_calls (options : DecoderOptions) (calls : List (Store × Call)) :
    Books (RowReader.start.feed (calls.flatMap (·.2.bytes))).rows
      ((Decoder.create options).history calls)
      ((Decoder.create options).after calls) := by
  cases (between_create options).after calls with
  | working _ C => exact C.books
  | shut S B => exact S.books B _

end GraphRows
