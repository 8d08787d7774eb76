import GraphRows.Proofs.Decoder.Bookkeeping
import GraphRows.Proofs.Store.Outcomes

/-!
# Closing ends everything with one reason

A decoder that closes rejects what no row has come for. The rejections spread to the drafts that
wait, and what is left after that waits for itself only and is rejected too. On the way nothing else
can happen: the entries that are woken for were all rejected by the closing, so no hole is filled
any more, and a stream can only be stuck behind an entry that was open when the closing began, so
what it delivers next is the reason.

`Ending r x y` is the state of affairs on the way from `x` to `y`. It says of every entry that it is
as it was or was rejected with the reason, and of every stream that it is as it was or was told the
reason, once.

## Main results

* `Ending.watchers`, `Ending.rejectEntries`, `Ending.endStreams`: what each step of closing keeps
* `closing_settles_everything`
-/

namespace GraphRows

variable {a : Affairs} {d : Decoder} {x : Decoding} {r : Rejection}

/-! ### The store -/

namespace Store

variable {s s' : Store} {o : Outcome} {c : CellId} {r : Rejection}

/-- Promises that were pending may have been rejected with the reason, and streams that took events
may have been told. -/
structure Quits (r : Rejection) (s s' : Store) : Prop where
  promises : ∀ c p, s.promise? c = some p →
    ∃ p', s'.promise? c = some p' ∧ (p'.outcome = p.outcome ∨ p.outcome = none ∧ p'.outcome =
      some (.error r))
  streams : ∀ c st, s.stream? c = some st → s'.stream? c = some st ∨ st.isOpen ∧
    s'.stream? c = some (st.failed r)

namespace Quits

theorem refl (r : Rejection) (s : Store) : Quits r s s :=
  ⟨(Settles.refl (.error r) s).promises, fun _ _ h => .inl h⟩

theorem settle (h : Quits r s s') (id : CellId) : Quits r s (s'.settle id (.error r)).2 := by
  have hsettle := settles_settle s' id (.error r)
  refine ⟨fun c p hp => ?_, fun c st hst => by
    simpa only [hsettle.streams] using h.streams c st hst⟩
  obtain ⟨p', hp', houtcome⟩ := h.promises c p hp
  obtain ⟨p'', hp'', houtcome'⟩ := hsettle.promises c p' hp'
  refine ⟨p'', hp'', ?_⟩
  rcases houtcome with houtcome | ⟨hpending, houtcome⟩
  · exact houtcome ▸ houtcome'
  · rcases houtcome' with houtcome' | ⟨hpending', -⟩
    · exact .inr ⟨hpending, houtcome'.trans houtcome⟩
    · rw [houtcome] at hpending'
      cases hpending'

/-- A promise that was rejected stays so. -/
theorem outcome?_settle (h : s'.outcome? c = some o) (id : CellId) (o' : Outcome) :
    (s'.settle id o').2.outcome? c = some o := by
  obtain ⟨p, hp, ho⟩ := Option.bind_eq_some_iff.mp h
  obtain ⟨p', hp', houtcome | ⟨hpending, -⟩⟩ := (settles_settle s' id o').promises c p hp
  · rw [outcome?, hp', Option.bind_some, houtcome, ho]
  · rw [hpending] at ho
    cases ho

/-- A stream is told. -/
theorem push (h : Quits r s s') (id : CellId) : Quits r s (s'.push id (.error r)).2 := by
  refine ⟨fun c p hp => by simpa only [promise?_push] using h.promises c p hp, fun c st hst => ?_⟩
  by_cases hid : id = c
  · subst hid
    rcases h.streams id st hst with hst' | ⟨hopen, hst'⟩
    · rw [stream?_push_error hst']
      cases hopen : st.isOpen with
      | true => exact .inr ⟨rfl, rfl⟩
      | false => exact .inl rfl
    · rw [stream?_push_error hst', st.not_isOpen_failed]
      exact .inr ⟨hopen, rfl⟩
  · simpa only [stream?_push_ne s' hid] using h.streams c st hst

/-- A stream that was told stays so. -/
theorem told_push {c : CellId} {st : Stream} (h : s'.stream? c = some (st.failed r)) (id : CellId) :
    (s'.push id (.error r)).2.stream? c = some (st.failed r) := by
  by_cases hid : id = c
  · subst hid
    rw [stream?_push_error h, st.not_isOpen_failed]
    rfl
  · rw [stream?_push_ne s' hid, h]

/-- The stream that is told has been told. -/
theorem push_self (h : Quits r s s') {id : CellId} {st : Stream} (hst : s.stream? id = some st)
    (hopen : st.isOpen) : (s'.push id (.error r)).2.stream? id = some (st.failed r) := by
  rcases h.streams id st hst with hst' | ⟨-, hst'⟩
  · rw [stream?_push_error hst', if_pos hopen]
  · exact told_push hst' id

end Quits

end Store

/-! ### On the way -/

open Decoder DecodeM

/-- What becomes of an entry whose decoder closes with a reason. -/
structure Entry.Ends (r : Rejection) (e e' : Entry) : Prop where
  handle : e'.handle = e.handle
  state : e'.state = e.state ∨ e.state.isTerminal = false ∧ e'.state = .rejected r

/-- The stream with the id is told, unless it took no events any more. -/
def OpenStream.Told (r : Rejection) (s s' : Store) (st : OpenStream) : Prop :=
  ∀ source, s.stream? st.stream = some source → source.isOpen → s'.stream? st.stream =
    some (source.failed r)

/-- A decoder is closing: it was at `x` when it began and has come to `y`. -/
structure Ending (r : Rejection) (x y : Decoding) : Prop where
  closed : y.decoder.closed = some r
  size : y.decoder.entries.size = x.decoder.entries.size
  ids : y.decoder.ids = x.decoder.ids
  entry : ∀ i, (x.decoder.entry i).Ends r (y.decoder.entry i)
  woken : ∀ i ∈ y.decoder.wake, (y.decoder.entry i).state = .rejected r
  handles : ∀ i, (x.decoder.entry i).state.isTerminal = false →
    (y.decoder.entry i).state.isTerminal →
    ∀ p, x.store.promise? (x.decoder.entry i).handle = some p → p.outcome = none →
      y.store.outcome? (x.decoder.entry i).handle = some (.error r)
  streams : ∀ p ∈ y.decoder.streams, p ∈ x.decoder.streams
  told : ∀ p ∈ x.decoder.streams, p ∈ y.decoder.streams ∨ p.2.Told r x.store y.store
  store : Store.Quits r x.store y.store

/-- Every stream with something in its queue is stuck behind an open entry. -/
structure Stuck (d : Decoder) : Prop where
  single : ∀ p ∈ d.streams, ∀ q ∈ d.streams, p.1 = q.1 → p = q
  front : ∀ p ∈ d.streams, p.2.queue ≠ [] → p.2.waiting = true ∧ ∃ front rest j, p.2.queue =
    front :: rest ∧ front.waitsFor? = some j ∧ (d.entry j).state.isTerminal = false

/-- Between calls it is so. -/
theorem Tidy.stuck (T : Tidy a d) (hloose : a.loose = none) (hrunning : a.running = [])
    (hwake : d.wake = []) : Stuck d := by
  refine ⟨T.orderly.single, fun p hp hqueue => ?_⟩
  have hwaiting := (T.orderly.queued p hp hqueue).resolve_left (by simp [hloose])
  obtain ⟨front, rest, j, hfront, hwaits, hwatch⟩ := T.orderly.waiting p hp hwaiting
  simp only [hloose, hrunning, List.not_mem_nil, reduceCtorEq, false_and, or_false] at hwatch
  refine ⟨hwaiting, front, rest, j, hfront, hwaits, Bool.eq_false_iff.mpr fun hterminal => ?_⟩
  rw [T.waits.settled j hterminal (by simp [hwake])] at hwatch
  cases hwatch

namespace Ending

variable {r : Rejection} {x y : Decoding} {i : Nat}

theorem rejected (E : Ending r x y) (hopen : (x.decoder.entry i).state.isTerminal = false)
    (hterminal : (y.decoder.entry i).state.isTerminal) :
    (y.decoder.entry i).state = .rejected r := by
  rcases (E.entry i).state with h | h
  · rw [h, hopen] at hterminal
    cases hterminal
  · exact h.2

/-- Changes that concern neither the states nor the streams. -/
theorem congr (E : Ending r x y) (hclosed : d.closed = y.decoder.closed)
    (hsize : d.entries.size = y.decoder.entries.size) (hids : d.ids = y.decoder.ids)
    (hentry : ∀ i, (d.entry i).handle = (y.decoder.entry i).handle ∧ (d.entry i).state =
      (y.decoder.entry i).state)
    (hwake : ∀ i ∈ d.wake, i ∈ y.decoder.wake) (hstreams : d.streams = y.decoder.streams) :
    Ending r x ⟨d, y.store⟩ where
  closed := hclosed.trans E.closed
  size := hsize.trans E.size
  ids := hids.trans E.ids
  entry i := ⟨(hentry i).1.trans (E.entry i).handle, (hentry i).2 ▸ (E.entry i).state⟩
  woken i hi := (hentry i).2.trans (E.woken i (hwake i hi))
  handles i := (hentry i).2 ▸ E.handles i
  streams := hstreams ▸ E.streams
  told := hstreams ▸ E.told
  store := E.store

theorem modifyEntry (E : Ending r x y) (i : Nat) {f : Entry → Entry}
    (hf : ∀ e, (f e).handle = e.handle ∧ (f e).state = e.state) :
    Ending r x ⟨y.decoder.modifyEntry i f, y.store⟩ := by
  refine E.congr rfl (size_modifyEntry ..) rfl (fun j => ?_) (fun _ h => h) rfl
  rw [entry_modifyEntry]
  split
  · exact hf _
  · exact ⟨rfl, rfl⟩

/-- **An entry is rejected with the reason**, unless it has settled. -/
theorem settleEntry (E : Ending r x y) (hi : i < y.decoder.entries.size) :
    Ending r x (DecodeM.settleEntry i (.error r) y).2 := by
  cases hterminal : (y.decoder.entry i).state.isTerminal with
  | true =>
    rw [settleEntry_of_terminal hterminal]
    exact E
  | false =>
    have hchanged := changed_settle hi (settledAs (.error r))
    have hself := congrArg (·.state) hchanged.self
    have hopen : (x.decoder.entry i).state.isTerminal = false := by
      rcases (E.entry i).state with h | h
      · rw [← h]
        exact hterminal
      · exact h.1
    rw [settleEntry_eq_of_open hterminal]
    refine ⟨hchanged.closed.trans E.closed, hchanged.size.trans E.size, hchanged.ids.trans E.ids,
      fun j => ?_, fun j hj => ?_,
      fun j hj hj' p hp hpending => ?_, E.streams, fun p hp => ?_, E.store.settle _⟩
    · by_cases hij : j = i
      · subst hij
        exact ⟨hchanged.self ▸ (E.entry j).handle, .inr ⟨hopen, hself⟩⟩
      · exact hchanged.other hij ▸ E.entry j
    · by_cases hij : j = i
      · subst hij
        exact hself
      · rw [hchanged.other hij]
        exact E.woken j ((List.mem_append.mp hj).resolve_right fun h =>
          hij (List.mem_singleton.mp h))
    · by_cases hij : j = i
      · subst hij
        rw [(E.entry j).handle]
        obtain ⟨p', hp', houtcome⟩ := E.store.promises _ p hp
        cases hp'' : p'.outcome with
        | none => exact Store.outcome?_settle hp' hp''
        | some o =>
          have : o = .error r := by
            rcases houtcome with h | h
            · rw [hp'', hpending] at h
              cases h
            · exact Option.some.inj (hp''.symm.trans h.2)
          refine Store.Quits.outcome?_settle ?_ _ _
          rw [Store.outcome?, hp', Option.bind_some, hp'', this]
      · rw [hchanged.other hij] at hj'
        exact Store.Quits.outcome?_settle (E.handles j hj hj' p hp hpending) _ _
    · refine (E.told p hp).imp_right fun htold source hsource hopen => ?_
      exact ((Store.settles_settle _ _ _).streams _).trans (htold source hsource hopen)

/-- **A hole is not filled any more**: its draft fails with the reason. -/
theorem fillHole (E : Ending r x y) {target : Nat}
    (hindex : (y.decoder.entry i).state = .rejected r) (htarget : target < y.decoder.entries.size)
    (hole : Hole) (path : List String) (shape : Shape) (cyclic : Bool) :
    Ending r x (DecodeM.fillHole i target hole path shape cyclic y).2 := by
  unfold DecodeM.fillHole
  rw [decoder_bind, decoder_bind, hindex]
  dsimp only
  cases !(y.decoder.entry target).draft.failed &&
    (cyclic || !(y.decoder.entry target).state.isTerminal) with
  | true =>
    exact (E.modifyEntry target (f := fun e => { e with draft := { e.draft with failed := true } })
      fun _ => ⟨rfl, rfl⟩).settleEntry ((size_modifyEntry ..).symm ▸ htarget)
  | false => exact E

/-! ### Streams -/

/-- What a stream is stuck behind decides what it delivers next. -/
theorem eventOf_of_waitsFor {front : StreamEntry} {j : Nat} (hfront : front.waitsFor? = some j) :
    ((d.entry j).state.isTerminal = false → eventOf d front = .error j) ∧
      ((d.entry j).state = .rejected r → eventOf d front = .ok (.error r)) := by
  have here : front = .entry j ∨ front = .close (some j) := by
    cases front with
    | entry i => exact .inl (congrArg StreamEntry.entry (Option.some.inj hfront))
    | close returned =>
      cases returned with
      | none => cases hfront
      | some i => exact .inr (congrArg (StreamEntry.close ∘ some) (Option.some.inj hfront))
    | _ => cases hfront
  rcases here with rfl | rfl <;> constructor <;> intro hstate
  · cases hj : (d.entry j).state <;> simp [eventOf, hj, EntryState.isTerminal] at hstate ⊢
  · simp [eventOf, hstate]
  · cases hj : (d.entry j).state <;> simp [eventOf, hj, EntryState.isTerminal] at hstate ⊢
  · simp [eventOf, hstate]

/-- A stream is told and forgotten. -/
theorem dropStream (E : Ending r x y) (S : Stuck x.decoder) {id : Nat} {st : OpenStream}
    (hst : y.decoder.stream? id = some st) :
    Ending r x ⟨y.decoder.dropStream id, (y.store.push st.stream (.error r)).2⟩ := by
  have hmem := E.streams _ (Orderly.mem_of_stream? hst)
  refine ⟨E.closed, E.size, E.ids, E.entry, E.woken, fun j hj hj' p hp hpending => ?_, fun p hp =>
    E.streams p ?_, fun p hp => ?_, E.store.push _⟩
  · rw [Store.outcome?, Store.promise?_push]
    exact E.handles j hj hj' p hp hpending
  · exact (List.mem_filter.mp hp).1
  · rcases E.told p hp with hp' | htold
    · by_cases hid : p.1 = id
      · obtain rfl : p = (id, st) := S.single p hp _ hmem hid
        exact .inr fun source hsource hopen => E.store.push_self hsource hopen
      · exact .inl (List.mem_filter.mpr ⟨hp', by simpa using hid⟩)
    · exact .inr fun source hsource hopen => Store.Quits.told_push (htold source hsource hopen) _

/-- **A stream stuck behind a rejected entry delivers the reason**, and all others stay stuck. -/
theorem deliver (E : Ending r x y) (S : Stuck x.decoder) (id : Nat) :
    Ending r x (DecodeM.deliver id y).2 := by
  unfold DecodeM.deliver
  rw [decoder_bind]
  unfold deliverWith
  rw [decoder_bind]
  cases hst : y.decoder.stream? id with
  | none => exact E
  | some st =>
    have hmem := E.streams _ (Orderly.mem_of_stream? hst)
    dsimp only
    cases hqueue : st.queue with
    | nil => exact E
    | cons front rest =>
      dsimp only
      obtain ⟨hwaiting, front', rest', j, hqueue', hfront, hopen⟩ :=
        S.front _ hmem (by rw [hqueue]; exact List.cons_ne_nil _ _)
      obtain ⟨rfl, rfl⟩ := List.cons.inj (hqueue.symm.trans hqueue')
      have hevent := eventOf_of_waitsFor (r := r) (d := y.decoder) hfront
      rcases (E.entry j).state with hstate | hstate
      · rw [hevent.1 (hstate ▸ hopen)]
        dsimp only at hwaiting ⊢
        rw [hwaiting]
        exact E
      · rw [hevent.2 hstate.2]
        have hdrop := E.dropStream S hst
        rw [← dropStream_setStream y.decoder id
          { st with queue := rest, waiting := false }] at hdrop
        exact hdrop

/-! ### All watchers -/

theorem runWatcher (E : Ending r x y) (S : Stuck x.decoder) {w : Watcher}
    (hindex : (y.decoder.entry i).state = .rejected r)
    (hw : ∀ t, w.target? = some t → t < y.decoder.entries.size) :
    Ending r x (DecodeM.runWatcher i w y).2 := by
  cases w with
  | hole target hole path shape cyclic =>
    exact E.fillHole hindex (hw target rfl) hole path shape cyclic
  | stream id => exact E.deliver S id

variable {a : Affairs}

/-- One turn. -/
theorem turn (E : Ending r x y) (S : Stuck x.decoder) (T : Tidy a y.decoder)
    (hloose : a.loose = none) (hrunning : a.running = []) {rest : List Nat}
    (hwake : y.decoder.wake = i :: rest) : Ending r x (DecodeM.turn i rest y).2 := by
  have hrejected := E.woken i (hwake ▸ List.mem_cons_self)
  have hi : i < y.decoder.entries.size := lt_size_of_isTerminal _ (by rw [hrejected]; rfl)
  -- while the watchers run, the entry they were taken off stays rejected
  let I : List Watcher → Decoding → Prop := fun ws z =>
    Tidy { a with running := ws.map (i, ·) } z.decoder ∧ Ending r x z ∧
      (z.decoder.entry i).state = .rejected r
  have loop : Ensures (I (y.decoder.entry i).watchers)
      ((y.decoder.entry i).watchers.forM (DecodeM.runWatcher i)) fun _ => I [] := by
    refine Ensures.forM (I := I) (fun w rest' => ?_) _
    rintro z ⟨T, E, hz⟩
    refine ⟨runWatcher_ensures (a := { a with running := (i, w) :: rest'.map (i, ·) })
      hloose rfl z T, E.runWatcher S hz fun _ => T.waits.taken_lt (p := (i, w))
        List.mem_cons_self, ?_⟩
    have hgrown := (runWatcher_onward i w z).entry i (lt_size_of_isTerminal _ (by rw [hz]; rfl))
    rw [hgrown.settled (by rw [hz]; rfl), hz]
  have hoff := changed_takeOff hi rest
  refine (loop ⟨takeOff y.decoder i rest, y.store⟩ ⟨takeOff_tidy hrunning T hwake, ?_, ?_⟩).2.1
  · refine E.congr hoff.closed hoff.size hoff.ids
      (fun j => ⟨hoff.field (·.handle) rfl j, hoff.field (·.state) rfl j⟩)
      (fun j hj => ?_) rfl
    rw [hwake]
    exact List.mem_cons_of_mem _ hj
  · rw [hoff.self]
    exact hrejected

theorem turns (E : Ending r x y) (S : Stuck x.decoder) (T : Tidy a y.decoder)
    (hloose : a.loose = none) (hrunning : a.running = []) (fuel : Nat) :
    Ending r x (runWatchersWith fuel y).2 := by
  induction fuel generalizing y with
  | zero => exact E
  | succ fuel ih =>
    cases hwake : y.decoder.wake with
    | nil =>
      rw [runWatchersWith_nil hwake]
      exact E
    | cons i rest =>
      rw [runWatchersWith_cons hwake]
      exact ih (E.turn S T hloose hrunning hwake) (turn_ensures hloose hrunning T hwake).1

/-- **All watchers run.** -/
theorem watchers (E : Ending r x y) (S : Stuck x.decoder) (T : Tidy a y.decoder)
    (hloose : a.loose = none) (hrunning : a.running = []) : Ending r x (runWatchers y).2 :=
  E.turns S T hloose hrunning _

/-- **Entries are rejected.** -/
theorem rejectEntries (E : Ending r x y) (test : EntryState → Bool) :
    Ending r x (DecodeM.rejectEntries test r y).2 := by
  let I : List Nat → Decoding → Prop := fun rest z => Ending r x z ∧ ∀ i ∈ rest,
    i < z.decoder.entries.size
  have loop : Ensures (I (List.range y.decoder.entries.size))
    ((List.range y.decoder.entries.size).forM fun i => do
      if test ((← decoder).entry i).state then DecodeM.settleEntry i (.error r)) fun _ => I [] := by
    refine Ensures.forM (I := I) (fun i rest => .bind .decoder fun d => ?_) _
    split
    · rintro z ⟨⟨E, hz⟩, -⟩
      refine ⟨E.settleEntry (hz i List.mem_cons_self), fun j hj => ?_⟩
      rw [(settleEntry_settles i (.error r) z).1]
      exact hz j (List.mem_cons_of_mem _ hj)
    · exact .pure fun z hz => ⟨hz.1.1, fun j hj => hz.1.2 j (List.mem_cons_of_mem _ hj)⟩
  exact (loop y ⟨E, fun i hi => List.mem_range.mp hi⟩).1

/-- **The streams that are left are told.** -/
theorem endStreams (E : Ending r x y) : Ending r x (DecodeM.endStreams r y).2 := by
  let I : List (Nat × OpenStream) → Decoding → Prop := fun rest z =>
    z.decoder = { y.decoder with streams := [] } ∧ (∀ c, z.store.promise? c = y.store.promise? c) ∧
      Store.Quits r x.store z.store ∧ ∀ p ∈ x.decoder.streams, p ∈ rest ∨ p.2.Told r x.store z.store
  have loop : Ensures (I y.decoder.streams) (y.decoder.streams.forM fun p =>
      modifyStore fun s => (s.push p.2.stream (.error r)).2) fun _ => I [] := by
    refine Ensures.forM (I := I) (fun p rest => .modifyStore ?_) _
    rintro z ⟨hz, hpromises, hstore, htold⟩
    refine ⟨hz, fun c => (Store.promise?_push ..).trans (hpromises c), hstore.push _,
      fun q hq => ?_⟩
    rcases htold q hq with hq' | htold
    · rcases List.mem_cons.mp hq' with rfl | hq'
      · exact .inr fun source hsource hopen => hstore.push_self hsource hopen
      · exact .inl hq'
    · exact .inr fun source hsource hopen => Store.Quits.told_push (htold source hsource hopen) _
  obtain ⟨hdecoder, hpromises, hstore, htold⟩ := loop ⟨{ y.decoder with streams := [] }, y.store⟩
    ⟨rfl, fun _ => rfl, E.store, E.told⟩
  change Ending r x (y.decoder.streams.forM (fun p => modifyStore fun s =>
    (s.push p.2.stream (.error r)).2) ⟨{ y.decoder with streams := [] }, y.store⟩).2
  generalize (y.decoder.streams.forM (fun p => modifyStore fun s =>
    (s.push p.2.stream (.error r)).2)
    ⟨{ y.decoder with streams := [] }, y.store⟩).2 = z at hdecoder hpromises hstore htold ⊢
  obtain ⟨d, s⟩ := z
  subst hdecoder
  refine ⟨E.closed, E.size, E.ids, E.entry, E.woken, fun i hi hi' p hp hpending => ?_, fun p hp =>
    absurd hp List.not_mem_nil, htold, hstore⟩
  rw [Store.outcome?, hpromises]
  exact E.handles i hi hi' p hp hpending

end Ending

/-! ### Closing -/

/-- What closing with a reason makes of a decoder. -/
structure Closes (r : Rejection) (x y : Decoding) : Prop where
  closed : y.decoder.closed = some r
  /-- nobody is left to wake for, and nobody watches -/
  idle : y.decoder.wake = [] ∧ ∀ i, (y.decoder.entry i).watchers = []
  /-- no entry is added, and each keeps its name and its handle -/
  entries : y.decoder.entries.size = x.decoder.entries.size ∧ y.decoder.ids = x.decoder.ids ∧
    ∀ i, (y.decoder.entry i).handle = (x.decoder.entry i).handle
  /-- what had settled stays as it was -/
  kept : ∀ i, (x.decoder.entry i).state.isTerminal → (y.decoder.entry i).state =
    (x.decoder.entry i).state
  /-- what had not is rejected with the reason, and so is its handle -/
  rejected : ∀ i < x.decoder.entries.size, (x.decoder.entry i).state.isTerminal = false →
    (y.decoder.entry i).state = .rejected r ∧
      ∀ p, x.store.promise? (x.decoder.entry i).handle = some p → p.outcome = none →
        y.store.outcome? (x.decoder.entry i).handle = some (.error r)
  /-- no stream is open any more -/
  streams : y.decoder.streams = []
  /-- each stream that was, and took events, has got one more, the reason, and takes no more -/
  told : ∀ p ∈ x.decoder.streams, ∀ source, x.store.stream? p.2.stream = some source →
    source.isOpen → y.store.stream? p.2.stream = some (source.failed r)

/-- A decoder at rest closes. -/
theorem Rests.ending {h : List WatcherEvent} (C : Rests a h x.decoder) (hloose : a.loose = none)
    (hrunning : a.running = []) (hopen : a.closed = none) (r : Rejection) :
    Ending r x (closeWith r x).2 ∧ (closeWith r x).2.decoder.streams = [] := by
  have S := C.tidy.stuck hloose hrunning C.wake
  have E₀ : Ending r x ⟨{ x.decoder with closed := some r }, x.store⟩ := by
    refine ⟨rfl, rfl, rfl, fun i => ⟨rfl, .inl rfl⟩, fun i hi => ?_, fun i hi hi' => ?_, fun p hp =>
      hp, fun p hp => .inl hp, .refl r _⟩
    · rw [show x.decoder.wake = [] from C.wake] at hi
      cases hi
    · exact absurd (hi.symm.trans hi') Bool.false_ne_true
  have T₁ := shut_ensures C.tidy r
  have E₁ : Ending r x (runWatchers (DecodeM.shut r x).2).2 :=
    (E₀.rejectEntries EntryState.isPending).watchers S T₁ hloose hrunning
  have T₂ := (runWatchers_ensures (a := { a with closed := some r }) hloose hrunning
    (DecodeM.shut r x).2 T₁).1
  have T₃ := rejectEntries_ensures rfl (fun st => !st.isTerminal) r _ T₂
  have E₂ := ((E₁.rejectEntries fun st => !st.isTerminal).watchers S T₃ hloose hrunning).endStreams
  have hrun : (closeWith r x).2 =
      (endStreams r (runWatchers (rejectRest r (runWatchers (DecodeM.shut r x).2).2).2).2).2 := by
    rw [closeWith_of_open (C.tidy.orderly.alive.1.trans hopen)]
    rfl
  exact ⟨hrun ▸ E₂, by rw [hrun, endStreams_decoder]⟩

/-- **Closing a decoder at rest.** -/
theorem Rests.closes {h : List WatcherEvent} (C : Rests a h x.decoder) (hloose : a.loose = none)
    (hrunning : a.running = []) (hopen : a.closed = none) (r : Rejection) :
    Closes r x (closeWith r x).2 := by
  have shut := (C.booked.close C.tidy hloose hrunning hopen r).1
  obtain ⟨E, hstreams⟩ := C.ending hloose hrunning hopen r
  have hsettled : ∀ i < x.decoder.entries.size,
      ((closeWith r x).2.decoder.entry i).state.isTerminal :=
    fun i hi => shut.settled i (E.size.symm ▸ hi)
  refine ⟨E.closed, ⟨shut.wake, shut.watchers⟩, ⟨E.size, E.ids, fun i => (E.entry i).handle⟩,
    fun i hi => ?_, fun i hi hi' => ?_, hstreams, fun p hp => (E.told p hp).resolve_left ?_⟩
  · refine (E.entry i).state.resolve_right fun h => ?_
    rw [h.1] at hi
    cases hi
  · exact ⟨E.rejected hi' (hsettled i hi), E.handles i hi' (hsettled i hi)⟩
  · rw [hstreams]
    exact List.not_mem_nil

/-- A decoder that is closed with a reason takes no notice of anything, and rejects what it is asked
for. -/
structure Deaf (r : Rejection) (x : Decoding) : Prop where
  feed : ∀ piece, DecodeM.feed piece x = (.ok (), x)
  close : ∀ r', DecodeM.closeWith r' x = ((), x)
  fresh : ∀ id, x.decoder.ids.lookup id = none →
    (DecodeM.handle id x).2.store.outcome? (DecodeM.handle id x).1 = some (.error r) ∧
      (DecodeM.handle id x).2.decoder.status? id = some (.rejected r)

/-- A closed decoder rejects a handle it has not given out before. -/
theorem handle_of_closed {id : Nat} (hid : x.decoder.ids.lookup id = none)
    (h : x.decoder.closed = some r) :
    (DecodeM.handle id x).1 = x.store.newPromise.1 ∧
      (DecodeM.handle id x).2.store =
        (x.store.newPromise.2.settle x.store.newPromise.1 (.error r)).2 ∧
      (DecodeM.handle id x).2.decoder.status? id = some (.rejected r) := by
  have hentry := entry_push x.decoder { state := .rejected r, handle := x.store.newPromise.1 }
    x.decoder.entries.size
  rw [if_pos rfl] at hentry
  change ((entryOf id x).2.decoder.entry (entryOf id x).1).handle = _ ∧ (entryOf id x).2.store = _ ∧
    (entryOf id x).2.decoder.status? id = _
  rw [entryOf_of_closed hid h]
  refine ⟨congrArg Entry.handle hentry, rfl, ?_⟩
  rw [Decoder.status?, List.lookup_cons_self]
  exact congrArg (fun e : Entry => some e.state) hentry

theorem deaf_of_closed (h : x.decoder.closed = some r) : Deaf r x := by
  refine ⟨fun piece => ?_, closeWith_of_closed (by rw [h]; rfl), fun id hid => ?_⟩
  · unfold DecodeM.feed
    rw [decoder_bind, if_pos (by rw [h]; rfl)]
    rfl
  · obtain ⟨hhandle, hstore, hstatus⟩ := handle_of_closed hid h
    rw [hhandle, hstore]
    exact ⟨Store.outcome?_settle (p := {}) (Store.promise?_of_cell?
      (x.store.cell?_alloc_new (.promise {}))) rfl, hstatus⟩

/-- A closed decoder stays closed, whatever is asked of it. -/
theorem closed_after (calls : List (Store × Call)) (h : d.closed = some r) :
    (d.after calls).closed = some r := by
  induction calls generalizing d with
  | nil => exact h
  | cons p rest ih =>
    obtain ⟨s, call⟩ := p
    refine ih ?_
    have hsome : (⟨d, s⟩ : Decoding).decoder.closed.isSome := by
      change d.closed.isSome
      rw [h]
      rfl
    cases call with
    | handle id =>
      change (entryOf id ⟨d, s⟩).2.decoder.closed = some r
      cases hid : d.ids.lookup id with
      | some i =>
        rw [entryOf_of_some (x := ⟨d, s⟩) hid]
        exact h
      | none =>
        rw [entryOf_of_closed (x := ⟨d, s⟩) hid h]
        exact h
    | feed piece =>
      rw [Call.perform, feed_of_closed hsome]
      exact h
    | close =>
      rw [Call.perform, DecodeM.close, closeWith_of_closed hsome]
      exact h

/-- A piece that cannot be framed closes the decoder when its rows have been acted on. -/
theorem feed_of_fault (h : x.decoder.closed = none) {piece : Bytes} {f : Fault}
    (hf : (x.decoder.reader.feed piece).fault = some f) :
    feed piece x = (.error f, (closeWith (.ofFault f) (afterRows piece x)).2) := by
  unfold DecodeM.feed
  rw [decoder_bind, if_neg (by simp [h])]
  cases hfault : (x.decoder.reader.feed piece).fault with
  | none =>
    rw [hf] at hfault
    cases hfault
  | some g =>
    obtain rfl := Option.some.inj (hf.symm.trans hfault)
    rfl

/-- **Closing settles everything, once.** Whatever was asked of a decoder before, and whatever has
become of the store: if it is open, closing it with a reason settles every entry and ends every
stream with that reason, and so does a piece that cannot be framed, when its rows have been acted
on. From then on nothing the decoder is told changes anything, and what it is asked for is rejected
with the same reason. -/
theorem closing_settles_everything {options : DecoderOptions} {calls : List (Store × Call)}
    {x : Decoding} (hx : x.decoder = (Decoder.create options).after calls)
    (hopen : x.decoder.closed = none) :
    (∀ r, Closes r x (closeWith r x).2 ∧ ∀ later s,
      Deaf r ⟨(closeWith r x).2.decoder.after later, s⟩) ∧
    Closes (.ofFault .connectionClosed) x (close x).2 ∧
    ∀ piece f, (x.decoder.reader.feed piece).fault = some f →
      (feed piece x).1 = .error f ∧ Closes (.ofFault f) (afterRows piece x) (feed piece x).2 ∧
        ∀ later s, Deaf (.ofFault f) ⟨(feed piece x).2.decoder.after later, s⟩ := by
  have deaf : ∀ {r y z}, Closes r y z → ∀ later s, Deaf r ⟨z.decoder.after later, s⟩ :=
    fun h later s => deaf_of_closed (closed_after later h.closed)
  have B := (between_create options).after calls
  rw [← hx] at B
  cases B with
  | shut S =>
    have hclosed := S.closed
    rw [hopen] at hclosed
    cases hclosed
  | working _ C =>
    have closes : ∀ r, Closes r x (closeWith r x).2 := fun r => C.closes rfl rfl rfl r
    refine ⟨fun r => ⟨closes r, deaf (closes r)⟩, closes _, fun piece f hf => ?_⟩
    have C' := Rests.takeRows
      (x := ⟨{ x.decoder with reader := (x.decoder.reader.feed piece).reader }, x.store⟩)
      (C.setReader (x := x) (x.decoder.reader.feed piece).reader) (x.decoder.reader.feed piece).rows
    have hfed := feed_of_fault hopen hf
    have hcloses : Closes (.ofFault f) (afterRows piece x) (feed piece x).2 := by
      rw [hfed]
      exact Rests.closes (x := afterRows piece x) C' rfl rfl rfl (.ofFault f)
    exact ⟨by rw [hfed], hcloses, deaf hcloses⟩

/-- A stream whose first item waits for a row that has not come, and a row that waits for another
one. -/
def stuckCall : Call := .feed (utf8 "0:R\n0:\"$1\"\n0:T1,a2:[\"$3\"]\n")

theorem after_singleton (d : Decoder) (s : Store) (call : Call) :
    d.after [(s, call)] = (call.perform ⟨d, s⟩).decoder :=
  rfl

theorem closing_settles_everything_stuck :
    (stuckCall.perform ⟨.create default, {}⟩).decoder.closed = none ∧
    (stuckCall.perform ⟨.create default, {}⟩).decoder.streams.map
      (fun p => (p.1, p.2.queue.length)) = [(0, 2)] ∧
    Closes (.ofText "gone") (stuckCall.perform ⟨.create default, {}⟩)
      (closeWith (.ofText "gone") (stuckCall.perform ⟨.create default, {}⟩)).2 := by
  have hopen : (stuckCall.perform ⟨.create default, {}⟩).decoder.closed = none :=
    Option.isNone_iff_eq_none.mp (by decide +kernel)
  exact ⟨hopen, by decide +kernel,
    ((closing_settles_everything (after_singleton (.create default) {} stuckCall).symm hopen).1
      (.ofText "gone")).1⟩

end GraphRows
