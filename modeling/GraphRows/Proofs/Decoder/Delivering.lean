import GraphRows.Proofs.Decoder.Reading
import GraphRows.Proofs.Decoder.Walking

/-!
# Running watchers keeps a decoder in good order

When an entry settles, its watchers are taken off and run. A hole is filled, which may settle the
entry it belongs to; the queue of a stream is delivered as far as it goes. Afterwards no watcher is
left to run: every turn wakes for one entry, an entry settles only once, and none is created
meanwhile, so the number of entries bounds the turns.

## Main results

* `DecodeM.fillHole_ensures`, `DecodeM.deliver_ensures`: one watcher
* `DecodeM.runWatchers_ensures`: all of them, until nobody is left to wake for
-/

namespace GraphRows

open Decoder

variable {d : Decoder} {x : Decoding} {hole : Hole} {rest : List (Nat × Watcher)}
    {path : List String} {i id : Nat} {shape : Shape} {front : StreamEntry}

namespace DecodeM

variable {a : Affairs} {x : Decoding} {i index target : Nat}

/-! ### Holes -/

/-- A watcher of a hole has run and counted for no open draft any more. -/
theorem consume {cyclic : Bool}
    (ha : a.running = (index, .hole target hole path shape cyclic) :: rest) (T : Tidy a d)
    (h : cyclic = false → (d.entry target).state.isTerminal) :
    Tidy { a with running := rest } d := by
  refine ⟨T.orderly.rerun fun j id hmem => ?_, ?_⟩
  · rw [ha] at hmem
    exact (List.mem_cons.mp hmem).resolve_left nofun
  · refine GraphRows.Waits.consume (ha ▸ T.waits) fun t ht => ?_
    cases cyclic with
    | true => rfl
    | false =>
      refine beq_false_of_ne ?_
      rintro rfl
      rw [h rfl] at ht
      cases ht

/-- **A hole that counts is filled**: it is counted off, and the entry is fulfilled if it was the
last one. -/
theorem countOff_ensures
    (ha : a.running = (index, .hole target hole path shape false) :: rest) :
    Ensures (fun x => Tidy a x.decoder ∧ target < x.decoder.entries.size ∧
        (x.decoder.entry target).state.isTerminal = false)
      (do
        modifyDecoder (·.modifyDraft target fun t => { t with holes := t.holes - 1 })
        let e := (← decoder).entry target
        if e.draft.holes == 0 && e.state.isBlocked then settleEntry target (.ok e.draft.value))
      fun _ x => Tidy { a with running := rest } x.decoder := by
  let off : Entry → Entry :=
    fun e => { e with draft := { e.draft with holes := e.draft.holes - 1 } }
  refine .bind (Q := fun _ x => ∃ y : Decoding,
    (Tidy a y.decoder ∧ target < y.decoder.entries.size ∧
    (y.decoder.entry target).state.isTerminal = false) ∧ x = ⟨y.decoder.modifyEntry target
      off, y.store⟩)
    (.modifyDecoder fun x hx => ⟨x, hx, rfl⟩) fun _ => .bind .decoder fun d => ?_
  dsimp only
  split
  · rintro _ ⟨⟨y, ⟨T, hi, hopen⟩, rfl⟩, rfl⟩
    have h := settleEntry_after (f := off)
      (o := .ok ((y.decoder.modifyEntry target off).entry target).draft.value)
      T hi (T.orderly.heard target ((T.waits.taken _ (ha ▸ List.mem_cons_self)).2 target rfl)) hopen
      rfl rfl rfl
    exact consume ha h.1 fun _ => h.2
  · rename_i hlast
    refine .pure ?_
    rintro _ ⟨⟨y, ⟨T, hi, hopen⟩, rfl⟩, rfl⟩
    have hmark := changed_modifyEntry hi off
    refine ⟨?_, ?_⟩
    · refine T.orderly.touched hmark rfl rfl (fun _ h => h) fun j id hmem => ?_
      rw [ha] at hmem
      exact (List.mem_cons.mp hmem).resolve_left nofun
    · refine GraphRows.Waits.fill (ha ▸ T.waits) (fun _ => rfl) hmark rfl fun hblocked => ?_
      have hpos := T.waits.blocked target hblocked
      rw [hmark.self] at hlast
      simp only [off, Bool.and_eq_true, beq_iff_eq, hblocked, and_true] at hlast
      omega

/-- **A hole is filled, or its entry fails with it**, when the entry it waited for has settled. -/
theorem fillHole_ensures {cyclic : Bool}
    (ha : a.running = (index, .hole target hole path shape cyclic) :: rest) :
    Ensures (fun x => Tidy a x.decoder) (fillHole index target hole path shape cyclic)
      fun _ x => Tidy { a with running := rest } x.decoder := by
  have taken : ∀ {d : Decoder}, Tidy a d → (d.entry index).state.isTerminal ∧
      target < d.entries.size ∧ a.Heard d target := by
    intro d T
    have := T.waits.taken (index, .hole target hole path shape cyclic) (ha ▸ List.mem_cons_self)
    have hpending := this.2 target rfl
    exact ⟨this.1, lt_size_of_not_isPending d hpending, T.orderly.heard target hpending⟩
  have failing : ∀ r, Ensures (fun x => Tidy a x.decoder)
      (do
        modifyDecoder (·.modifyDraft target ({ · with failed := true }))
        settleEntry target (.error r))
      fun _ x => Tidy { a with running := rest } x.decoder := fun r =>
    ((fail_ensures target r).pre fun x T => ⟨T, (taken T).2⟩).post fun _ x h =>
      consume ha h.1 fun _ => h.2
  unfold fillHole
  refine .bind .decoder fun d => .bind .decoder fun d' => ?_
  dsimp only
  split
  · exact (failing _).pre fun x hx => hx.1.1
  · rename_i v hready _
    -- a hole that counts belongs to an open draft
    have hopen : Ensures
        (fun x => (Tidy a x.decoder ∧ x.decoder = d) ∧ x.decoder = d') (resolve index v path shape)
        fun _ x => Tidy a x.decoder ∧ (cyclic = false →
          (x.decoder.entry target).state.isTerminal = false) := by
      refine (resolve_ensures (P := fun d => Tidy a d ∧
        (cyclic = false → (d.entry target).state.isTerminal = false))
        (fun d derived h => ⟨⟨h.1.orderly.congr rfl rfl rfl rfl rfl, h.1.waits.congr rfl rfl rfl⟩,
          h.2⟩) index v path shape).pre ?_
      rintro x ⟨⟨T, rfl⟩, -⟩
      refine ⟨T, fun h => ?_⟩
      simpa [h] using (Bool.and_eq_true_iff.mp hready).2
    refine .bind hopen fun r => ?_
    cases r with
    | error r => exact (failing r).pre fun x hx => hx.1
    | ok v' =>
      have filled : Ensures (fun x => Tidy a x.decoder ∧
          (cyclic = false → (x.decoder.entry target).state.isTerminal = false))
          (do
            modifyStore (·.fill hole v')
            if (!cyclic) = true then do
              modifyDecoder (·.modifyDraft target fun t => { t with holes := t.holes - 1 })
              let e := (← decoder).entry target
              if e.draft.holes == 0 && e.state.isBlocked then
                settleEntry target (.ok e.draft.value))
          fun _ x => Tidy { a with running := rest } x.decoder := by
        refine .bind (Q := fun _ x => Tidy a x.decoder ∧
          (cyclic = false → (x.decoder.entry target).state.isTerminal = false)) (.modifyStore
            fun x hx => hx) fun _ => ?_
        cases cyclic with
        | true => exact .pure fun x hx => consume ha hx.1 nofun
        | false => exact (countOff_ensures ha).pre fun x hx => ⟨hx.1, (taken hx.1).2.1, hx.2 rfl⟩
      dsimp only
      split
      · refine .bind (.modifyDecoder fun x hx => ?_) fun _ => filled
        have hchanged := changed_modifyEntry (taken hx.1).2.1 fun e =>
          { e with draft := { e.draft with value := v' } }
        refine ⟨⟨?_, ?_⟩, fun h => (hchanged.field (·.state.isTerminal) rfl target).trans (hx.2 h)⟩
        · exact hx.1.orderly.touched hchanged rfl rfl (fun _ h => h) fun _ _ h => h
        · exact hx.1.waits.restate hchanged rfl rfl ⟨rfl, rfl⟩ .inl rfl (fun h => h)
            (hx.1.waits.blocked target)
      · exact filled
  · rename_i hrejected hfulfilled
    refine .pure ?_
    rintro x ⟨⟨T, rfl⟩, rfl⟩
    -- a hole that counts is passed over only when its entry is settled already
    refine consume ha T fun hcyclic => ?_
    have passed : ¬ (!(x.decoder.entry target).draft.failed &&
        (cyclic || !(x.decoder.entry target).state.isTerminal)) = true →
        (x.decoder.entry target).state.isTerminal := by
      intro h
      cases hfailed : (x.decoder.entry target).draft.failed with
      | true => exact T.waits.failed target hfailed
      | false => simpa [hcyclic, hfailed] using h
    have hterminal := (taken T).1
    cases hstate : (x.decoder.entry index).state with
    | fulfilled v => exact passed fun h => hfulfilled v h hstate
    | rejected r => exact passed fun h => hrejected r h hstate
    | _ => simp [hstate, EntryState.isTerminal] at hterminal

/-! ### Streams -/

/-- What cannot be delivered waits for an open entry. -/
theorem waitsFor?_of_eventOf_error {j : Nat} (h : eventOf d front = .error j) :
    front.waitsFor? = some j ∧ (d.entry j).state.isTerminal = false := by
  unfold eventOf at h
  split at h
  · cases h
  · cases h
  · cases h
  all_goals
    split at h
    · cases h
    · cases h
    · rename_i i _ hfulfilled hrejected
      obtain rfl := Except.error.inj h
      refine ⟨rfl, ?_⟩
      cases hstate : (d.entry i).state with
      | fulfilled v => exact absurd hstate (hfulfilled v)
      | rejected r => exact absurd hstate (hrejected r)
      | _ => rfl

/-- What ends a stream is delivered as an event that ends it. -/
theorem isTerminal_of_isEnding {event : StreamEvent} (h : eventOf d front = .ok event)
    (hfront : front.isEnding) : event.isTerminal := by
  unfold eventOf at h
  split at h
  · cases hfront
  · cases h; rfl
  · cases h; rfl
  · cases hfront
  · split at h
    · cases h; rfl
    · cases h; rfl
    · cases h

/-- The front of a queue is not settled: the stream has to wait. -/
theorem waitFor {j : Nat} {st : OpenStream} {rest : List StreamEntry} (ha : a.loose = some id)
    (T : Tidy a d) (hst : d.stream? id = some st) (hqueue : st.queue = front :: rest)
    (hfront : front.waitsFor? = some j) (hopen : (d.entry j).state.isTerminal = false) :
    Tidy { a with loose := none }
      ((d.setStream id { st with waiting := true }).modifyEntry j
        fun e => { e with watchers := e.watchers ++ [.stream id] }) := by
  have hmem := Orderly.mem_of_stream? hst
  have hj : j < d.entries.size := T.orderly.known _ hmem front
    (hqueue ▸ List.mem_cons_self) j hfront
  have hchanged := changed_modifyEntry hj fun e => { e with watchers := e.watchers ++ [.stream id] }
  have watched : Orderly a (d.modifyEntry j fun e =>
      { e with watchers := e.watchers ++ [.stream id] }) :=
    T.orderly.touched hchanged rfl rfl (fun _ h => List.mem_append_left _ h) fun _ _ h => h
  refine ⟨watched.setStream (.inr ha) (fun _ => .inr rfl)
    (fun _ => ⟨front, rest, j, hqueue, hfront, .inl ?_⟩)
    (fun old hold => ?_) fun x hx k hk => ?_, ?_⟩
  · rw [hchanged.self]
    exact List.mem_append_right _ List.mem_cons_self
  · exact T.orderly.ending _ hmem
  · exact hchanged.size ▸ T.orderly.known _ hmem x hx k hk
  · exact (T.waits.watch hj hopen (fun _ => rfl) (fun _ h => by cases h) hchanged rfl).congr rfl
      rfl rfl

/-- The front of a queue is delivered, and the stream does not end with it. -/
theorem popFront {st : OpenStream} {rest : List StreamEntry} (ha : a.loose = some id) (T : Tidy a d)
    (hst : d.stream? id = some st) (hqueue : st.queue = front :: rest)
    (hfront : front.isEnding = false) :
    Tidy a (d.setStream id { st with queue := rest, waiting := false }) := by
  have hmem := Orderly.mem_of_stream? hst
  refine ⟨?_, T.waits.congr rfl rfl rfl⟩
  have O : Orderly { a with loose := some id }
      (d.setStream id { st with queue := rest, waiting := false }) := by
    refine T.orderly.setStream (.inr ha) (fun _ => .inl rfl) nofun (fun old hold => ?_)
      fun x hx j hj => T.orderly.known _ hmem x (hqueue ▸ List.mem_cons_of_mem _ hx) j hj
    refine (T.orderly.ending _ hmem).imp_left fun ⟨x, hx, hending⟩ => ⟨x, ?_, hending⟩
    rw [hqueue] at hx
    refine (List.mem_cons.mp hx).resolve_left ?_
    rintro rfl
    rw [hfront] at hending
    cases hending
  have hself : { a with loose := some id } = a := by rw [← ha]
  exact hself ▸ O

theorem dropStream_setStream (d : Decoder) (id : Nat) (st : OpenStream) :
    (d.setStream id st).dropStream id = d.dropStream id := by
  simp only [Decoder.dropStream, Decoder.setStream, List.filter_map, Decoder.mk.injEq,
    true_and, and_true]
  refine (List.map_congr_left fun p hp => ?_).trans (List.map_id _)
  have : p.1 ≠ id := by simpa using (List.mem_filter.mp hp).2
  simp [this]

/-- **A queue is delivered as far as it goes**; if something is left, the stream waits for the
front. -/
theorem deliverWith_ensures (id : Nat) (fuel : Nat) (ha : a.loose = some id) :
    Ensures (fun x => Tidy a x.decoder ∧ ∀ st, x.decoder.stream? id =
      some st → st.queue.length < fuel)
      (deliverWith fuel id) fun _ x => Tidy { a with loose := none } x.decoder := by
  induction fuel with
  | zero =>
    refine .pure fun x ⟨T, hfuel⟩ => ⟨T.orderly.tighten ha fun st hst => ?_, T.waits⟩
    cases hst' : x.decoder.stream? id with
    | none => exact absurd (List.lookup_eq_none_iff.mp hst' _ hst) (by simp)
    | some st' => exact absurd (hfuel st' hst') (Nat.not_lt_zero _)
  | succ fuel ih =>
    unfold deliverWith
    refine .bind .decoder fun d => ?_
    split
    · rename_i hnone
      refine .pure ?_
      rintro x ⟨⟨T, -⟩, rfl⟩
      exact ⟨T.orderly.tighten ha fun st hst => absurd (List.lookup_eq_none_iff.mp hnone _ hst)
        (by simp), T.waits⟩
    · rename_i st hst
      split
      · rename_i hqueue
        refine .pure ?_
        rintro x ⟨⟨T, -⟩, rfl⟩
        refine ⟨T.orderly.tighten ha fun st' hst' => ?_, T.waits⟩
        obtain rfl := T.orderly.eq_of_stream? hst hst'
        refine ⟨fun h => absurd hqueue h, fun hw => ?_⟩
        obtain ⟨front, rest, j, hfront, -⟩ := T.orderly.waiting _ hst' hw
        simp [hqueue] at hfront
      · rename_i front rest hqueue
        split
        · rename_i j hevent
          obtain ⟨hfront, hopen⟩ := waitsFor?_of_eventOf_error hevent
          cases hwaiting : st.waiting with
          | false =>
            refine .bind (Q := fun _ x => Tidy { a with loose := none }
              (x.decoder.modifyEntry j fun e => { e with watchers := e.watchers ++ [.stream id] }))
              (.modifyDecoder ?_) fun _ => .modifyDecoder fun x hx => hx
            rintro x ⟨⟨T, -⟩, rfl⟩
            exact waitFor ha T hst hqueue hfront hopen
          | true =>
            refine .pure ?_
            rintro x ⟨⟨T, -⟩, rfl⟩
            refine ⟨T.orderly.tighten ha fun st' hst' => ?_, T.waits⟩
            obtain rfl := T.orderly.eq_of_stream? hst hst'
            refine ⟨fun _ => hwaiting, fun _ => ?_⟩
            obtain ⟨front', rest', j', hqueue', hfront', hwatch⟩ :=
              T.orderly.waiting _ hst' hwaiting
            obtain ⟨rfl, rfl⟩ := List.cons.inj (hqueue.symm.trans hqueue')
            obtain rfl := Option.some.inj (hfront.symm.trans hfront')
            refine ⟨front, rest, j, hqueue, hfront, hwatch.imp_right (Or.imp_right fun h => ?_)⟩
            rw [hopen] at h
            cases h.2
        · rename_i event hevent
          cases hterminal : event.isTerminal with
          | true =>
            refine .bind (Q := fun _ x => Tidy { a with loose := none } (x.decoder.dropStream id))
              (.modifyDecoder ?_) fun _ => .bind (.modifyStore fun x hx => hx) fun _ =>
                .modifyDecoder (f := (·.dropStream id)) fun x hx => hx
            rintro x ⟨⟨T, -⟩, rfl⟩
            rw [dropStream_setStream]
            exact ⟨T.orderly.dropStream ha, T.waits.congr rfl rfl rfl⟩
          | false =>
            refine .bind (.modifyDecoder ?_) fun _ =>
              .bind (.modifyStore fun x hx => hx) fun _ => ih
            rintro x ⟨⟨T, hfuel⟩, rfl⟩
            have hfront : front.isEnding = false := by
              cases h : front.isEnding with
              | true => simp [isTerminal_of_isEnding hevent h] at hterminal
              | false => rfl
            refine ⟨popFront ha T hst hqueue hfront, fun st' hst' => ?_⟩
            rcases Orderly.mem_setStream (Orderly.mem_of_stream? hst') with ⟨heq, -⟩ | ⟨hne, -⟩
            · have := hfuel st hst
              cases heq
              rw [hqueue, List.length_cons] at this
              exact Nat.lt_of_succ_lt_succ this
            · exact absurd rfl hne

theorem deliver_ensures (ha : a.loose = some id) :
    Ensures (fun x => Tidy a x.decoder) (deliver id) fun _ x =>
      Tidy { a with loose := none } x.decoder := by
  unfold deliver
  refine .bind .decoder fun d => (deliverWith_ensures id _ ha).pre ?_
  rintro x ⟨T, rfl⟩
  refine ⟨T, fun st hst => ?_⟩
  rw [hst]
  exact Nat.lt_succ_self _

/-- **Something comes for a stream.** If it ends the stream, the end is in the queue from then
on. -/
theorem enqueue_ensures {entry : StreamEntry} {unended : Nat → Prop} (ha : a.loose = none)
    (hunended : ∀ k, a.unended k → k = id ∧ entry.isEnding ∨ unended k) :
    Ensures (fun x => Tidy a x.decoder ∧ ∀ j, entry.waitsFor? = some j → j < x.decoder.entries.size)
      (enqueue id entry) fun _ x => Tidy { a with unended } x.decoder := by
  unfold enqueue
  refine .bind .decoder fun d => ?_
  split
  · rename_i hnone
    refine .pure ?_
    rintro x ⟨⟨T, -⟩, rfl⟩
    refine ⟨T.orderly.regard (fun _ h => h) fun p hp h => .inr ((hunended p.1 h).resolve_left ?_),
      T.waits⟩
    rintro ⟨rfl, -⟩
    exact absurd (List.lookup_eq_none_iff.mp hnone p hp) (by simp)
  · rename_i st hst
    have hmem := Orderly.mem_of_stream? hst
    refine .bind (.modifyDecoder ?_) fun _ =>
      (deliver_ensures (a := { a with unended, loose := some id }) rfl).post fun _ x T => ?_
    · rintro x ⟨⟨T, hentry⟩, rfl⟩
      have O : Orderly { a with loose := some id }
          (x.decoder.setStream id { st with queue := st.queue ++ [entry] }) := by
        refine T.orderly.setStream (.inl ha) (fun _ => .inl rfl) (fun hw => ?_) (fun old hold => ?_)
          fun x hx j hj => ?_
        · obtain ⟨front, rest, j, hqueue, hfront, hwatch⟩ := T.orderly.waiting _ hmem hw
          refine ⟨front, rest ++ [entry], j, congrArg (· ++ [entry]) hqueue, hfront, ?_⟩
          exact hwatch.imp_right (Or.imp_right fun h => absurd h.1 (by simp [ha]))
        · exact (T.orderly.ending _ hmem).imp_left fun ⟨x, hx, h⟩ =>
            ⟨x, List.mem_append_left _ hx, h⟩
        · rcases List.mem_append.mp hx with hx | hx
          · exact T.orderly.known _ hmem x hx j hj
          · exact hentry j (List.mem_singleton.mp hx ▸ hj)
      refine ⟨O.regard (fun _ h => h) fun p hp h => ?_, T.waits.congr rfl rfl rfl⟩
      rcases hunended p.1 h with ⟨hid, hending⟩ | h
      · obtain ⟨rfl, -⟩ | ⟨hne, -⟩ := Orderly.mem_setStream hp
        · exact .inl ⟨entry, by simp, hending⟩
        · exact absurd hid hne
      · exact .inr h
    · have hself : { a with unended, loose := none } = { a with unended } := by rw [← ha]
      exact hself ▸ T

/-- One watcher runs. -/
theorem runWatcher_ensures {w : Watcher} (hloose : a.loose = none)
    (ha : a.running = (index, w) :: rest) :
    Ensures (fun x => Tidy a x.decoder) (runWatcher index w) fun _ x =>
      Tidy { a with running := rest } x.decoder := by
  cases w with
  | hole target hole path shape cyclic => exact fillHole_ensures ha
  | stream id =>
    refine ((deliver_ensures (a := { a with running := rest, loose := some id }) rfl).pre
      fun x T => ?_).post fun _ x T => ?_
    · have hterminal := (T.waits.taken _ (ha ▸ List.mem_cons_self)).1
      have O := T.orderly.loosen hloose id
      refine ⟨{ O with waiting := fun p hp hw => ?_ }, GraphRows.Waits.consume (ha ▸ T.waits)
        fun _ _ => rfl⟩
      obtain ⟨front, rest', j, hqueue, hfront, hwatch⟩ := O.waiting p hp hw
      refine ⟨front, rest', j, hqueue, hfront, hwatch.imp_right fun hwatch => ?_⟩
      rcases hwatch with hwatch | hwatch
      · rcases List.mem_cons.mp
          (ha ▸ hwatch : (j, Watcher.stream p.1) ∈ (index, .stream id) :: rest) with h | h
        · cases h
          exact .inr ⟨rfl, hterminal⟩
        · exact .inl h
      · exact .inr hwatch
    · have hself : { a with running := rest, loose := none } =
        { a with running := rest } := by rw [← hloose]
      exact hself ▸ T

end DecodeM

/-! ### How much there is to do -/

/-- The entries to wake for, now or later. -/
def Decoder.load (d : Decoder) : Nat :=
  d.wake.length + ((List.range d.entries.size).map fun i =>
    if (d.entry i).state.isTerminal then 0 else 1).sum

theorem load_le (d : Decoder) : d.load ≤ d.wake.length + d.entries.size := by
  unfold Decoder.load
  generalize d.entries.size = n
  induction n with
  | zero => simp
  | succ n ih =>
    simp only [List.range_succ, List.map_append, List.sum_append, List.map_cons, List.map_nil,
      List.sum_cons, List.sum_nil]
    split <;> omega

/-- A property of decoders that looks at which entries are settled and are to be woken for, and that
survives the settling of entries with `ok`. -/
structure Lasting (ok : Nat → Prop) (P : Decoder → Prop) : Prop where
  restate : ∀ {d d' : Decoder}, d'.entries.size = d.entries.size →
    (∀ i, (d'.entry i).state.isTerminal = (d.entry i).state.isTerminal) → d'.wake =
      d.wake → P d → P d'
  settle : ∀ {d : Decoder} {i : Nat} {state : EntryState}, ok i →
    (d.entry i).state.isTerminal = false → state.isTerminal →
    P d → P { d.modifyEntry i ({ · with state }) with wake := d.wake ++ [i] }

/-- An entry that settles is to be woken for instead. -/
theorem load_settle {state : EntryState} (hi : i < d.entries.size)
    (hopen : (d.entry i).state.isTerminal = false) (hstate : state.isTerminal) :
    ({ d.modifyEntry i ({ · with state }) with wake := d.wake ++ [i] } : Decoder).load =
      d.load := by
  have hchanged := changed_modifyEntry hi ({ · with state })
  have hsum := sum_range_changed (f := fun j => if (d.entry j).state.isTerminal then 0 else 1)
    (g := fun j => if ((d.modifyEntry i ({ · with state })).entry j).state.isTerminal then 0 else 1)
      hi
    fun j hj => by rw [hchanged.other hj]
  simp only [hchanged.self, hopen, hstate, if_true, Bool.false_eq_true, if_false] at hsum
  change (d.wake ++ [i]).length +
    ((List.range (d.modifyEntry i ({ · with state })).entries.size).map fun j =>
    if ((d.modifyEntry i ({ · with state })).entry j).state.isTerminal then 0 else 1).sum = _
  rw [size_modifyEntry, List.length_append, List.length_singleton, Decoder.load]
  omega

theorem lasting_load (n m : Nat) : Lasting (· < n) fun d => d.entries.size = n ∧ d.load < m where
  restate := by
    rintro d d' hsize hterminal hwake ⟨hn, hm⟩
    simpa only [Decoder.load, hsize, hterminal, hwake] using And.intro hn hm
  settle := by
    rintro d i state hi hopen hstate ⟨rfl, hm⟩
    exact ⟨size_modifyEntry .., (load_settle hi hopen hstate).symm ▸ hm⟩

/-- Every entry is settled. -/
def Decoder.AllSettled (d : Decoder) : Prop := ∀ i < d.entries.size, (d.entry i).state.isTerminal

theorem lasting_allSettled : Lasting (fun _ => True) Decoder.AllSettled where
  restate := by
    intro d d' hsize hterminal _ h i hi
    rw [hterminal]
    exact h i (hsize ▸ hi)
  settle := by
    intro d i state _ _ hstate h j hj
    rw [size_modifyEntry] at hj
    change ((d.modifyEntry i ({ · with state })).entry j).state.isTerminal
    rw [entry_modifyEntry]
    split
    · exact hstate
    · exact h j hj

namespace DecodeM

variable {a : Affairs} {ok : Nat → Prop} {P : Decoder → Prop}

theorem settleEntry_lasts (L : Lasting ok P) (hi : ok i) (o : Outcome) :
    Ensures (fun x => P x.decoder) (settleEntry i o) fun _ x => P x.decoder := by
  rintro x hx
  cases hterminal : (x.decoder.entry i).state.isTerminal with
  | true => rwa [settleEntry_of_terminal hterminal]
  | false =>
    obtain ⟨state, s, hstate, heq⟩ := settleEntry_of_open (o := o) hterminal
    rw [heq]
    exact L.settle hi hterminal hstate hx

theorem modifyEntry_lasts (L : Lasting ok P) (i : Nat) {f : Entry → Entry}
    (hf : ∀ e, (f e).state = e.state) :
    Ensures (fun x => P x.decoder) (modifyDecoder (·.modifyEntry i f)) fun _ x => P x.decoder := by
  refine .modifyDecoder fun x hx => L.restate (size_modifyEntry ..) (fun j => ?_) rfl hx
  rw [entry_modifyEntry]
  split
  · rw [hf]
  · rfl

theorem fillHole_lasts (L : Lasting ok P) {index target : Nat} (ht : ok target) (hole : Hole)
    (path : List String) (shape : Shape) (cyclic : Bool) :
    Ensures (fun x => P x.decoder) (fillHole index target hole path shape cyclic)
      fun _ x => P x.decoder :=
  (habit_ensures _).fillHole (resolve_ensures fun d _ h => L.restate (d := d) rfl
    (fun _ => rfl) rfl h) (fun _ => modifyEntry_lasts L target fun _ => rfl)
      (settleEntry_lasts L ht) (fun _ _ => .modifyStore fun _ hx => hx) index hole
    path shape cyclic

theorem deliverWith_lasts (L : Lasting ok P) (id fuel : Nat) :
    Ensures (fun x => P x.decoder) (deliverWith fuel id) fun _ x => P x.decoder := by
  refine (habit_ensures _).deliverWith (fun _ => ?_) ?_ (fun _ _ => .modifyStore fun _ hx => hx)
    (fun i => modifyEntry_lasts L i fun _ => rfl) fuel
  all_goals exact .modifyDecoder fun x hx => L.restate (d := x.decoder) rfl (fun _ => rfl) rfl hx

theorem runWatcher_lasts (L : Lasting ok P) (index : Nat) (w : Watcher)
    (hw : ∀ t, w.target? = some t → ok t) :
    Ensures (fun x => P x.decoder) (runWatcher index w) fun _ x => P x.decoder := by
  cases w with
  | hole target hole path shape cyclic =>
    exact fillHole_lasts L (hw target rfl) hole path shape cyclic
  | stream id => exact .read fun d => deliverWith_lasts L id _

/-! ### All watchers -/

/-- The watchers of the next entry to wake for are taken off. -/
def takeOff (d : Decoder) (i : Nat) (rest : List Nat) : Decoder :=
  { d with wake := rest }.modifyEntry i ({ · with watchers := [] })

theorem changed_takeOff (hi : i < d.entries.size) (rest : List Nat) :
    Changed d (takeOff d i rest) i ({ · with watchers := [] }) :=
  have h := changed_modifyEntry (d := { d with wake := rest }) hi ({ · with watchers := [] })
  ⟨h.size, h.ids, h.closed, h.reader, h.entry⟩

/-- The watchers that were taken off are about to run. -/
theorem takeOff_tidy {rest : List Nat} (hrunning : a.running = []) (T : Tidy a d)
    (hwake : d.wake = i :: rest) :
    Tidy { a with running := (d.entry i).watchers.map (i, ·) } (takeOff d i rest) := by
  have hi := lt_size_of_isTerminal d (T.waits.wake i (hwake ▸ List.mem_cons_self))
  have hchanged := changed_takeOff hi rest
  refine ⟨T.orderly.moved hchanged rfl (fun h => h) (T.orderly.reviving i) (fun h => h)
    (fun id hid => .inr ?_) ?_ (T.orderly.heard i),
    GraphRows.Waits.wakeUp (hrunning ▸ T.waits) hwake hchanged rfl⟩
  · exact List.mem_map_of_mem hid
  · simp [hrunning]

/-- The load is lighter by the entry that was woken for. -/
theorem load_takeOff {rest : List Nat} (hi : i < d.entries.size) (hwake : d.wake = i :: rest) :
    (takeOff d i rest).load + 1 = d.load := by
  have hchanged := changed_takeOff hi rest
  simp only [Decoder.load, hchanged.size, hchanged.field (·.state) rfl, hwake, List.length_cons]
  change rest.length + _ + 1 = _
  omega

/-- One turn: the watchers of the next entry to wake for are taken off and run. -/
def turn (i : Nat) (rest : List Nat) : DecodeM Unit := do
  let watchers := ((← decoder).entry i).watchers
  modifyDecoder (takeOff · i rest)
  watchers.forM (runWatcher i)

theorem runWatchersWith_nil (h : x.decoder.wake = []) (fuel : Nat) :
    runWatchersWith fuel x = ((), x) := by
  cases fuel with
  | zero => rfl
  | succ fuel =>
    rw [runWatchersWith, decoder_bind, h]
    rfl

theorem runWatchersWith_cons {rest : List Nat} (h : x.decoder.wake = i :: rest) (fuel : Nat) :
    runWatchersWith (fuel + 1) x = runWatchersWith fuel (turn i rest x).2 := by
  rw [runWatchersWith, decoder_bind, h]
  rfl

/-- **One turn** keeps the order and lightens the load by the entry it wakes for. -/
theorem turn_ensures (hloose : a.loose = none) (hrunning : a.running = []) {rest : List Nat}
    (T : Tidy a x.decoder) (hwake : x.decoder.wake = i :: rest) :
    Tidy a (turn i rest x).2.decoder ∧ (turn i rest x).2.decoder.load < x.decoder.load := by
  have hi := lt_size_of_isTerminal _ (T.waits.wake i (hwake ▸ List.mem_cons_self))
  -- the loop runs what was taken off, and settles only entries that are there
  let I : List Watcher → Decoding → Prop := fun ws y =>
    Tidy { a with running := ws.map (i, ·) } y.decoder ∧
      y.decoder.entries.size = x.decoder.entries.size ∧ y.decoder.load < x.decoder.load
  have loop : Ensures (I (x.decoder.entry i).watchers)
      ((x.decoder.entry i).watchers.forM (runWatcher i)) fun _ => I [] := by
    refine Ensures.forM (I := I) (fun w rest' => .of_exists ?_) _
    rintro ⟨y, T, hsize, -⟩
    have htarget : ∀ t, w.target? = some t → t < x.decoder.entries.size := fun t ht =>
      hsize ▸ T.waits.taken_lt (p := (i, w)) List.mem_cons_self ht
    exact (runWatcher_ensures (a := { a with running := (i, w) :: rest'.map (i, ·) })
      hloose rfl).and (runWatcher_lasts (lasting_load _ _) i w htarget)
  have hdone := loop ⟨takeOff x.decoder i rest, x.store⟩
    ⟨takeOff_tidy hrunning T hwake, (changed_takeOff hi rest).size, Nat.le_of_eq
      (load_takeOff hi hwake)⟩
  have hself : { a with running := ([] : List Watcher).map (i, ·) } =
    a := by rw [List.map_nil, ← hrunning]
  exact ⟨hself ▸ hdone.1, hdone.2.2⟩

/-- **Every watcher runs.** -/
theorem runWatchersWith_ensures (hloose : a.loose = none) (hrunning : a.running = []) (fuel : Nat) :
    Ensures (fun x => Tidy a x.decoder ∧ x.decoder.load < fuel) (runWatchersWith fuel)
      fun _ x => Tidy a x.decoder ∧ x.decoder.wake = [] := by
  induction fuel with
  | zero => exact fun x hx => absurd hx.2 (Nat.not_lt_zero _)
  | succ fuel ih =>
    rintro x ⟨T, hload⟩
    cases hwake : x.decoder.wake with
    | nil =>
      rw [runWatchersWith_nil hwake]
      exact ⟨T, hwake⟩
    | cons i rest =>
      rw [runWatchersWith_cons hwake]
      obtain ⟨T', hless⟩ := turn_ensures hloose hrunning T hwake
      exact ih _ ⟨T', by omega⟩

/-- **Watchers run until nobody is left to wake for**, and the decoder stays in good order. -/
theorem runWatchers_ensures (hloose : a.loose = none) (hrunning : a.running = []) :
    Ensures (fun x => Tidy a x.decoder) runWatchers fun _ x => Tidy a x.decoder ∧
      x.decoder.wake = [] := by
  unfold runWatchers
  refine .bind .decoder fun d => (runWatchersWith_ensures hloose hrunning _).pre ?_
  rintro x ⟨T, rfl⟩
  have := load_le x.decoder
  exact ⟨T, by omega⟩

/-- Where every entry is settled, watchers have nothing more to settle. -/
theorem runWatchersWith_settled (fuel : Nat) :
    Ensures (fun x => x.decoder.AllSettled) (runWatchersWith fuel) fun _ x =>
      x.decoder.AllSettled := by
  induction fuel with
  | zero => exact .pure fun x hx => hx
  | succ fuel ih =>
    unfold runWatchersWith
    refine .bind .decoder fun d => ?_
    split
    · exact .pure fun x hx => hx.1
    · refine .bind .decoder fun d' => .bind (Q := fun _ x => x.decoder.AllSettled)
        (.modifyDecoder fun x hx => hx.1.1) fun _ =>
        .bind (modifyEntry_lasts lasting_allSettled _ fun _ => rfl) fun _ => .bind ?_ fun _ => ih
      exact Ensures.forM (I := fun _ x => x.decoder.AllSettled)
        (fun w _ => runWatcher_lasts lasting_allSettled _ w fun _ _ => trivial) _

theorem runWatchers_settled :
    Ensures (fun x => x.decoder.AllSettled) runWatchers fun _ x => x.decoder.AllSettled :=
  .bind .decoder fun _ => (runWatchersWith_settled _).pre fun _ hx => hx.1

end DecodeM

end GraphRows
