import GraphRows.Proofs.Decoder.Bookkeeping
import GraphRows.Proofs.Decoder.Filling

/-!
# When a handle is fulfilled

A row may take the values of other rows. If its handle is fulfilled, one would expect that all these
rows have come and are fulfilled too, and so on with the rows they refer to. That is so as long as
no circle of references can be reached from the row. A circle may be fulfilled too early: a
reference that closes it does not count, although other rows may be missing in the circle.

## Main results

* `fulfilled_handle_complete`: without a circle, everything a fulfilled row refers to is there
* `circle_fulfils_early`: with a circle, it need not be
-/

namespace GraphRows

open Decoder DecodeM

/-! ### Rows and references -/

/-- The row that brings the value of an id: the first one that does. -/
def valueRow? (rows : List RawRow) (id : Nat) : Option RawRow :=
  rows.find? fun r => r.id == id && r.isValue

/-- The row of `a` takes the value of `b`. -/
def Refers (rows : List RawRow) (a b : Nat) : Prop :=
  ∃ r, valueRow? rows a = some r ∧ b ∈ r.referents

theorem refers_of_any {rows : List RawRow} {a b : Nat}
    (h : (valueRow? rows a).any (·.referents.contains b) = true) : Refers rows a b := by
  cases hr : valueRow? rows a with
  | none => simp [hr] at h
  | some r => exact ⟨r, hr, List.contains_iff_mem.mp (by simpa [hr] using h)⟩

/-- No circle of references can be reached from the row of an id. -/
def CircleFree (rows : List RawRow) (id : Nat) : Prop :=
  ∀ k, Relation.ReflTransGen (Refers rows) id k → ¬ Relation.TransGen (Refers rows) k k

theorem CircleFree.next {rows : List RawRow} {a b : Nat} (h : CircleFree rows a)
    (hab : Refers rows a b) : CircleFree rows b :=
  fun k hk => h k (.head hab hk)

/-- Rows that refer to smaller ids only do not refer in circles. -/
theorem circleFree_of_lt {rows : List RawRow} (h : ∀ r ∈ rows, ∀ b ∈ r.referents, b < r.id)
    (id : Nat) : CircleFree rows id := by
  have descends : ∀ {a b}, Relation.TransGen (Refers rows) a b → b < a := by
    intro a b hab
    refine Relation.TransGen.trans_induction_on (motive := fun {a b} _ => b < a) hab ?_
      fun _ _ h h' => Nat.lt_trans h' h
    rintro a b ⟨r, hr, hb⟩
    have hid := List.find?_some hr
    simp only [Bool.and_eq_true, beq_iff_eq] at hid
    exact hid.1 ▸ h r (List.mem_of_find?_eq_some hr) b hb
  exact fun k _ hk => Nat.lt_irrefl k (descends hk)

/-- What is known of rows that come to a decoder with a store of its host. -/
def scriptOf (rows : List RawRow) (host : CellId → Prop) : Script where
  calm := CircleFree rows
  model n := (valueRow? rows n).bind RawRow.model?
  came n := (valueRow? rows n).isSome
  host

theorem scriptOf_fits (rows : List RawRow) (host : CellId → Prop) :
    (scriptOf rows host).Fits (Refers rows) where
  closed _ _ h := h.next
  acyclic n h := h n .refl
  distinct n j hj := by
    obtain ⟨r, -, hj⟩ := Option.bind_eq_some_iff.mp hj
    rw [RawRow.model?] at hj
    split at hj
    · cases hread : Json.read (Utf8.decodeLossy r.payload) with
      | error e =>
        rw [hread] at hj
        cases hj
      | ok k =>
        rw [hread] at hj
        obtain rfl := Option.some.inj hj
        exact Json.distinct_of_read hread
    · cases hj

/-- The first row of an id that has not come before. -/
theorem valueRow?_of_new {done rest : List RawRow} {row : RawRow} (hvalue : row.isValue)
    (hnew : ¬ ∃ r ∈ done, row.id = r.id ∧ r.isValue) :
    valueRow? (done ++ row :: rest) row.id = some row := by
  rw [valueRow?, List.find?_append, List.find?_eq_none.mpr, Option.none_or]
  · exact List.find?_cons_of_pos (by simp [hvalue])
  · intro r hr h
    simp only [Bool.and_eq_true, beq_iff_eq] at h
    exact hnew ⟨r, hr, h.1.symm, h.2⟩

/-! ### Decoders at work -/

/-- A decoder that some rows have come to, out of all that will come. -/
structure Shown (rows : List RawRow) (host : CellId → Prop) (done : List RawRow)
    (reader : RowReader) (x : Decoding) : Prop where
  tidy : Tidy { Affairs.fed done reader with refers := Refers rows } x.decoder
  painted : Painted (scriptOf rows host) [] x

namespace Shown

variable {rows done : List RawRow} {host : CellId → Prop} {reader : RowReader} {x : Decoding}

/-- **One row.** -/
theorem takeRow (S : Shown rows host done reader x) {row : RawRow}
    (hrows : done ++ [row] <+: rows) :
    Shown rows host (done ++ [row]) reader (DecodeM.takeRow row x).2 := by
  obtain ⟨rest, rfl⟩ := hrows
  rw [List.append_assoc, List.singleton_append] at *
  have hfirst : row.isValue → ¬ (Affairs.fed done reader).arrived row.id →
      valueRow? (done ++ row :: rest) row.id = some row :=
        fun hvalue hnew => valueRow?_of_new hvalue hnew
  have hrefers : row.isValue → ¬ (Affairs.fed done reader).arrived row.id →
      ∀ j, row.model? = some j → ∀ n ∈ j.referents,
      Refers (done ++ row :: rest) row.id n := fun hvalue hnew j hj n hn =>
    ⟨row, hfirst hvalue hnew, by rw [RawRow.referents, hj]; exact hn⟩
  have T₁ := S.tidy.takeIn row hrefers
  have P₁ := takeIn_painted (scriptOf_fits _ host) row (fun _ => trivial) (fun _ _ _ _ => trivial)
    (fun _ hj _ hn => Affairs.spoken_fed hj hn) hrefers
    (fun hvalue hnew => by simp [scriptOf, hfirst hvalue hnew]) x ⟨S.tidy.address row, S.painted⟩
  rw [takeRow_eq]
  exact ⟨(runWatchers_ensures rfl rfl _ T₁).1, runWatchers_painted rfl rfl
    (scriptOf_fits _ host) _ ⟨T₁, P₁⟩⟩

/-- **Any number of rows.** -/
theorem takeRows (S : Shown rows host done reader x) {todo : List RawRow}
    (hrows : done ++ todo <+: rows) :
    Shown rows host (done ++ todo) reader (todo.forM DecodeM.takeRow x).2 := by
  induction todo generalizing done x with
  | nil =>
    rw [List.append_nil]
    exact S
  | cons row todo ih =>
    have hassoc : done ++ row :: todo = done ++ [row] ++ todo := by simp
    rw [hassoc] at hrows ⊢
    exact ih (S.takeRow ((List.prefix_append _ _).trans hrows)) hrows

theorem setReader (S : Shown rows host done reader x) (reader' : RowReader) :
    Shown rows host done reader' ⟨{ x.decoder with reader := reader' }, x.store⟩ := by
  have O := S.tidy.orderly
  refine ⟨⟨{ O with alive := ⟨O.alive.1, rfl⟩ }, S.tidy.waits.congr rfl rfl rfl⟩, S.painted.quiet
    ⟨rfl, rfl, rfl, rfl⟩ (.refl _) ?_⟩
  exact fun _ _ _ _ h => h

theorem entryOf (S : Shown rows host done reader x) (id : Nat) :
    Shown rows host done reader (DecodeM.entryOf id x).2 := by
  refine ⟨?_, ?_⟩
  · exact (entryOf_ensures (P := fun x => Tidy
      { Affairs.fed done reader with refers := Refers rows } x.decoder) rfl (fun _ T => T)
      trivial (fun _ _ _ _ _ _ _ T => T) x S.tidy).1
  · obtain ⟨C, D, P⟩ := S.painted
    obtain ⟨C', G, A, -⟩ := entryOf_aside P.ground S.tidy.orderly.alive.1 id x rfl
    exact ⟨C', D, P.aside A (fun _ _ => trivial) G⟩

end Shown

/-! ### Calls -/

/-- Nothing in the store leads out of it. -/
structure Store.Sound (s : Store) : Prop where
  cells : s.Region (· < s.cells.size)
  temporaries : ∀ set id v, s.temporary? set id = some v → v.Inside (· < s.cells.size)

/-- A decoder and its store after some calls, one after the other. -/
def Decoding.after (x : Decoding) (calls : List Call) : Decoding := calls.foldl Call.perform x

/-- The rows that come with some calls. -/
def Call.rows (calls : List Call) : List RawRow :=
  (RowReader.start.feed (calls.flatMap Call.bytes)).rows

/-- The handle of a row, when it is asked for, is fulfilled. -/
def Decoding.FulfilledWith (x : Decoding) (id : Nat) (v : Value) : Prop :=
  (DecodeM.handle id x).2.store.outcome? (DecodeM.handle id x).1 = some (.ok v)

theorem shown_create {options : DecoderOptions} {s : Store} (hs : s.Sound)
    (hl : options.loader.Tame (· < s.cells.size)) (rows : List RawRow) :
    Shown rows (· < s.cells.size) [] .start ⟨.create options, s⟩ := by
  refine ⟨tidy_create options ⟨rfl, rfl⟩ ?_ rfl, (· < s.cells.size), fun _ _ => False,
    ?_, fun t => ?_⟩
  · rintro id ⟨r, hr, -⟩
    cases hr
  · exact ⟨by rintro _ _ ⟨⟩, by rintro _ _ _ ⟨⟩, hl, fun _ h => h, hs.cells, ⟨by
      rintro _ ⟨⟩, by
        rintro _ ⟨⟩⟩, by rintro _ ⟨⟩, hs.temporaries, by rintro _ _ _ _ ⟨⟩, by rintro _ _ _ ⟨⟩⟩
  · have nobody : ∀ k w, ¬ (Decoder.create options).Stands [] k w := by
      rintro k w (hw | hw)
      · rw [entry_of_size_le _ (Nat.zero_le k)] at hw
        cases hw
      · cases hw
    exact ⟨fun k h path shape cyclic hs => absurd hs
      (nobody k _), by rintro _ ⟨⟩, by rintro _ ⟨⟩, by rintro _ _ ⟨⟩⟩

theorem isSome_closed_perform {x : Decoding} (h : x.decoder.closed.isSome) (call : Call) :
    (call.perform x).decoder.closed.isSome := by
  cases call with
  | handle id =>
    change (entryOf id x).2.decoder.closed.isSome
    obtain ⟨r, hr⟩ := Option.isSome_iff_exists.mp h
    cases hid : x.decoder.ids.lookup id with
    | some i => rwa [entryOf_of_some hid]
    | none => rwa [entryOf_of_closed hid hr]
  | feed piece => rwa [Call.perform, feed_of_closed h]
  | close => rwa [Call.perform, DecodeM.close, closeWith_of_closed h]

/-- A decoder at work between calls, when some bytes have come. -/
structure Exhibit (rows : List RawRow) (host : CellId → Prop) (bytes : Bytes)
    (x : Decoding) : Prop where
  between : ∃ h, Between bytes h x.decoder
  shown : x.decoder.closed = none →
    Shown rows host (RowReader.start.feed bytes).rows (RowReader.start.feed bytes).reader x

theorem Exhibit.perform {rows : List RawRow} {host : CellId → Prop} {bytes : Bytes} {x : Decoding}
    (X : Exhibit rows host bytes x) {call : Call}
    (hrows : (RowReader.start.feed (bytes ++ call.bytes)).rows <+: rows) :
    Exhibit rows host (bytes ++ call.bytes) (call.perform x) := by
  obtain ⟨⟨h, B⟩, hshown⟩ := X
  refine ⟨⟨_, B.perform x.store call⟩, fun hopen => ?_⟩
  have hclosed : x.decoder.closed = none := by
    refine Option.not_isSome_iff_eq_none.mp fun h => ?_
    simpa [hopen] using isSome_closed_perform h call
  have S := hshown hclosed
  cases B with
  | shut S' _ => simpa [hclosed] using S'.closed
  | working hfault C =>
    cases call with
    | handle id =>
      rw [Call.bytes, List.append_nil]
      exact S.entryOf id
    | close =>
      have hshut := (C.booked.close (x := x) C.tidy rfl rfl rfl
        (.ofFault .connectionClosed)).1.closed
      rw [show (closeWith (.ofFault .connectionClosed) x).2.decoder.closed =
        none from hopen] at hshut
      cases hshut
    | feed piece =>
      have hreader : x.decoder.reader = (RowReader.start.feed bytes).reader :=
        C.tidy.orderly.alive.2
      have hfed := feed_append_of_fault_eq_none hfault piece
      rw [← hreader] at hfed
      rw [Call.bytes, hfed] at hrows
      rw [Call.perform, feed_of_open hclosed] at hopen ⊢
      rw [Call.bytes, hfed]
      have S' := (S.setReader (x.decoder.reader.feed piece).reader).takeRows hrows
      cases hpiece : (x.decoder.reader.feed piece).fault with
      | none => exact S'
      | some f =>
        have C' := Rests.takeRows
          (x := ⟨{ x.decoder with reader := (x.decoder.reader.feed piece).reader }, x.store⟩)
          (C.setReader (x := x) (x.decoder.reader.feed piece).reader)
            (x.decoder.reader.feed piece).rows
        have hshut := (C'.booked.close (x := afterRows piece x) C'.tidy rfl rfl rfl
          (.ofFault f)).1.closed
        rw [hpiece] at hopen
        rw [show (closeWith (.ofFault f) (afterRows piece x)).2.decoder.closed =
          none from hopen] at hshut
        cases hshut

/-- **Any number of calls.** -/
theorem Exhibit.after {rows : List RawRow} {host : CellId → Prop} {bytes : Bytes} {x : Decoding}
    (X : Exhibit rows host bytes x) {calls : List Call}
    (hrows : (RowReader.start.feed (bytes ++ calls.flatMap Call.bytes)).rows <+: rows) :
    Exhibit rows host (bytes ++ calls.flatMap Call.bytes) (x.after calls) := by
  induction calls generalizing bytes x with
  | nil =>
    rw [List.flatMap_nil, List.append_nil]
    exact X
  | cons call calls ih =>
    rw [List.flatMap_cons, ← List.append_assoc] at hrows ⊢
    refine ih (X.perform ((?_ : _ <+: _).trans hrows)) hrows
    rw [RowReader.feed_append _ (bytes ++ call.bytes), RowReader.Fed.andThen]
    split
    · exact List.prefix_rfl
    · exact List.prefix_append _ _

/-! ### Fulfilled handles -/

namespace Shown

variable {rows done : List RawRow} {host : CellId → Prop} {reader : RowReader} {x : Decoding}

/-- The promise of an entry tells its outcome. -/
theorem outcome?_handle (S : Shown rows host done reader x) {i : Nat}
    (hi : i < x.decoder.entries.size) :
    x.store.outcome? (x.decoder.entry i).handle = (x.decoder.entry i).state.outcome? := by
  obtain ⟨C, D, P⟩ := S.painted
  rw [Store.outcome?, Store.promise?, P.ground.handled.promise i hi]
  rfl

/-- A handle is fulfilled exactly if its entry is. -/
theorem fulfilledWith_iff (S : Shown rows host done reader x) {id : Nat} {v : Value} :
    x.FulfilledWith id v ↔ x.decoder.status? id = some (.fulfilled v) := by
  have S' := S.entryOf id
  change (DecodeM.entryOf id x).2.store.outcome?
    ((DecodeM.entryOf id x).2.decoder.entry (DecodeM.entryOf id x).1).handle = _ ↔ _
  cases hid : x.decoder.ids.lookup id with
  | some i =>
    rw [entryOf_of_some hid, S.outcome?_handle (S.tidy.orderly.named id i hid), status?, hid]
    refine ⟨fun h => congrArg some (EntryState.outcome?_eq_ok h), fun h => ?_⟩
    rw [show (x.decoder.entry i).state = .fulfilled v from Option.some.inj h]
    rfl
  | none =>
    rw [entryOf_of_none hid S.tidy.orderly.alive.1] at S' ⊢
    rw [S'.outcome?_handle (by simp), status?, hid]
    simp [entry, EntryState.outcome?]

/-- A row without circles that is fulfilled has come, is as it says, and the rows it refers to are
fulfilled. -/
theorem fulfilled (S : Shown rows host done reader x) {id : Nat} {v : Value}
    (hcircle : CircleFree rows id) (hv : x.decoder.status? id = some (.fulfilled v)) :
    ∃ r, valueRow? rows id = some r ∧ (∀ j, r.model? = some j → Written x.decoder x.store j v) ∧
      ∀ n ∈ r.referents, ∃ w, x.decoder.status? n = some (.fulfilled w) := by
  obtain ⟨i, hi, hstate⟩ := Option.map_eq_some_iff.mp hv
  obtain ⟨C, D, P⟩ := S.painted
  obtain ⟨r, hr⟩ := Option.isSome_iff_exists.mp ((P.parts i).came id hi (by rw [hstate]; rfl))
  have hpicture : ∀ j, r.model? = some j → Pictured (fun _ => Settled (scriptOf rows host) C x)
      (fun _ => C) x.store .root j v :=
    fun j hj => ((P.parts i).calm id hcircle hi).fulfilled v hstate j (by simp [scriptOf, hr, hj])
  refine ⟨r, hr, fun j hj => ?_, fun n hn => ?_⟩
  · exact (hpicture j hj).mono (Q := fun _ => True) ⟨fun _ _ _ _ _ _ => trivial, fun _ _ _ _ h =>
      h.1, fun _ _ _ _ => trivial, fun _ _ _ _ _ h _ _ => h⟩ trivial
  · cases hj : r.model? with
    | none => simp [RawRow.referents, hj] at hn
    | some j =>
      rw [RawRow.referents, hj] at hn
      obtain ⟨k, w, hk, hw⟩ := (hpicture j hj).referents (fun _ _ _ h => h.1.fulfilled) n hn
      exact ⟨w, by rw [status?, hk, Option.map_some, hw]⟩

/-- **A row without circles that is fulfilled is complete**, and so is everything it refers to. -/
theorem complete (S : Shown rows host done reader x) {id : Nat} {v : Value}
    (hcircle : CircleFree rows id) (hv : x.decoder.status? id = some (.fulfilled v)) {k : Nat}
    (hk : Relation.ReflTransGen (Refers rows) id k) :
    ∃ r w, valueRow? rows k = some r ∧ x.decoder.status? k = some (.fulfilled w) ∧
      ∀ j, r.model? = some j → Written x.decoder x.store j w := by
  induction hk using Relation.ReflTransGen.head_induction_on generalizing v with
  | refl =>
    obtain ⟨r, hr, hwritten, -⟩ := S.fulfilled hcircle hv
    exact ⟨r, v, hr, hv, hwritten⟩
  | head hstep _ ih =>
    obtain ⟨r, hr, -, hreferents⟩ := S.fulfilled hcircle hv
    have hnext := hcircle.next hstep
    obtain ⟨r', hr', hmem⟩ := hstep
    obtain rfl := Option.some.inj (hr.symm.trans hr')
    obtain ⟨w, hw⟩ := hreferents _ hmem
    exact ih hnext hw

end Shown

/-- **A handle is not fulfilled early** as long as no circle of references can be reached from its
row: when it is fulfilled, every row that can be reached has come and is fulfilled, with a value
that is what the row says, every reference led to its end. -/
theorem fulfilled_handle_complete {options : DecoderOptions} {s : Store} (hs : s.Sound)
    (hl : options.loader.Tame (· < s.cells.size)) {calls : List Call}
    (hopen : (Decoding.after ⟨.create options, s⟩ calls).decoder.closed = none) {id : Nat}
    {v : Value} (hcircle : CircleFree (Call.rows calls) id)
    (hv : (Decoding.after ⟨.create options, s⟩ calls).FulfilledWith id v) :
    ∀ k, Relation.ReflTransGen (Refers (Call.rows calls)) id k →
      ∃ r w, valueRow? (Call.rows calls) k = some r ∧
      (Decoding.after ⟨.create options, s⟩ calls).FulfilledWith k w ∧
      ∀ j, r.model? = some j → Written (Decoding.after ⟨.create options, s⟩ calls).decoder
        (Decoding.after ⟨.create options, s⟩ calls).store j w := by
  have X : Exhibit (Call.rows calls) (· < s.cells.size) [] ⟨.create options, s⟩ :=
    ⟨⟨[], between_create options⟩, fun _ => shown_create hs hl _⟩
  have X' : Exhibit (Call.rows calls) (· < s.cells.size) (calls.flatMap Call.bytes)
      (Decoding.after ⟨.create options, s⟩ calls) :=
    X.after List.prefix_rfl
  have S := X'.shown hopen
  intro k hk
  obtain ⟨r, w, hr, hw, hwritten⟩ := S.complete hcircle (S.fulfilledWith_iff.mp hv) hk
  exact ⟨r, w, hr, S.fulfilledWith_iff.mpr hw, hwritten⟩

theorem standard_tame (host : CellId → Prop) : Loader.standard.Tame host := by
  have hsize : ∀ m (s : Store), (Loader.standard.load m s).2.cells.size = s.cells.size + 1 :=
      fun m s => by
    simp [Loader.standard, Store.make]
  refine ⟨fun m s => hsize m s ▸ Nat.le_succ _, fun m s c cell h => ?_, fun _ _ => rfl,
    fun m s c hc => ?_, fun m s v hv => ?_⟩
  · exact (Store.cell?_alloc_old s _ (Store.cell?_lt_size h)).trans h
  · rw [hsize] at hc
    obtain rfl : c = s.cells.size := Nat.le_antisymm (Nat.le_of_lt_succ hc.2) hc.1
    exact ⟨_, Store.cell?_alloc_new s _, by rintro _ ⟨⟩⟩
  · obtain rfl := Except.ok.inj hv
    exact .inr ⟨Nat.le_refl _, hsize m s ▸ Nat.lt_succ_self _⟩

theorem sound_empty : Store.Sound {} :=
  ⟨fun _ h => absurd h (Nat.not_lt_zero _), by simp [Store.temporary?, Store.temporarySet]⟩

/-- Three rows in the order they come: a map and a path wait for rows that follow. -/
def waitingCalls : List Call :=
  [.handle 2, .feed
    (utf8 "2:\x7b\"m\":\"$Q1\",\"p\":\"$0:x:0\"\x7d\n1:[[\"k\",\"$0\"]]\n0:\x7b\"x\""),
      .feed (utf8 ":[7]\x7d\n")]

theorem fulfilled_handle_complete_waiting :
    CircleFree (Call.rows waitingCalls) 2 ∧
    (Decoding.after ⟨.create default, {}⟩ waitingCalls).decoder.closed = none ∧
    ∃ v, (Decoding.after ⟨.create default, {}⟩ waitingCalls).FulfilledWith 2 v ∧
      ∀ k, Relation.ReflTransGen (Refers (Call.rows waitingCalls)) 2 k →
        ∃ r w, valueRow? (Call.rows waitingCalls) k = some r ∧
        (Decoding.after ⟨.create default, {}⟩ waitingCalls).FulfilledWith k w ∧
        ∀ j, r.model? = some j → Written (Decoding.after ⟨.create default, {}⟩ waitingCalls).decoder
          (Decoding.after ⟨.create default, {}⟩ waitingCalls).store j w := by
  have hcircle : CircleFree (Call.rows waitingCalls) 2 := circleFree_of_lt (by decide +kernel) 2
  have hclosed : (Decoding.after ⟨.create default, {}⟩ waitingCalls).decoder.closed = none :=
    Option.isNone_iff_eq_none.mp (by decide +kernel)
  have hfulfilled :
      (((DecodeM.handle 2 (Decoding.after ⟨.create default, {}⟩ waitingCalls)).2.store.outcome?
      (DecodeM.handle 2 (Decoding.after ⟨.create default, {}⟩ waitingCalls)).1).bind
        Except.toOption).isSome = true := by
    decide +kernel
  obtain ⟨v, hv⟩ := Option.isSome_iff_exists.mp hfulfilled
  obtain ⟨o, ho, hv⟩ := Option.bind_eq_some_iff.mp hv
  cases o with
  | error r => cases hv
  | ok w =>
    exact ⟨hcircle, hclosed, w, ho, fulfilled_handle_complete sound_empty (standard_tame _)
      hclosed hcircle ho⟩

/-- Two rows that refer to each other, and one of them to a row that does not come. -/
def circleCalls : List Call :=
  [.feed (utf8 "1:\x7b\"b\":\"$0\",\"c\":\"$2\"\x7d\n0:\x7b\"a\":\"$1\"\x7d\n")]

/-- **A circle may be fulfilled early**: row 0 is fulfilled and holds a placeholder, while row 1
waits for a row that has not come. -/
theorem circle_fulfils_early :
    (Decoding.after ⟨.create default, {}⟩ circleCalls).decoder.closed = none ∧
    (∃ c, (Decoding.after ⟨.create default, {}⟩ circleCalls).FulfilledWith 0 (.cell c) ∧
      (Decoding.after ⟨.create default, {}⟩ circleCalls).store.field? (.cell c) "a" =
        some .undefined) ∧
    Refers (Call.rows circleCalls) 0 1 ∧ Refers (Call.rows circleCalls) 1 2 ∧
    (∀ w, ¬ (Decoding.after ⟨.create default, {}⟩ circleCalls).FulfilledWith 1 w) ∧
      valueRow? (Call.rows circleCalls) 2 = none := by
  refine ⟨Option.isNone_iff_eq_none.mp (by decide +kernel), ?_, ?_, ?_, ?_,
    Option.isNone_iff_eq_none.mp (by decide +kernel)⟩
  · have hfulfilled :
        ((DecodeM.handle 0 (Decoding.after ⟨.create default, {}⟩ circleCalls)).2.store.outcome?
        (DecodeM.handle 0 (Decoding.after ⟨.create default, {}⟩ circleCalls)).1).bind
          Except.toOption = some (.cell 4) := by
      decide +kernel
    obtain ⟨o, ho, hv⟩ := Option.bind_eq_some_iff.mp hfulfilled
    cases o with
    | error r => cases hv
    | ok w =>
      obtain rfl := Option.some.inj hv
      exact ⟨4, ho, by decide +kernel⟩
  · exact refers_of_any (by decide +kernel)
  · exact refers_of_any (by decide +kernel)
  · intro w hw
    have hpending :
        ((DecodeM.handle 1 (Decoding.after ⟨.create default, {}⟩ circleCalls)).2.store.outcome?
        (DecodeM.handle 1 (Decoding.after ⟨.create default, {}⟩ circleCalls)).1).isNone = true := by
      decide +kernel
    cases (Option.isNone_iff_eq_none.mp hpending).symm.trans hw

end GraphRows
