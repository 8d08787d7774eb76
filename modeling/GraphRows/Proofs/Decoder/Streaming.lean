import GraphRows.Proofs.Decoder.Ending
import GraphRows.Proofs.Decoder.Mirroring

/-!
# Streams keep the order of arrival

What comes for an open stream is queued, and the queue is delivered from the front as far as it
goes. So what has been pushed to a stream is a matter of two things only: what has come for its id,
in order, and which of the entries that came have settled. `delivered` says which events these are.

`Course` follows a decoder from its creation and keeps a record of one id: the stream its opening
row has made, what has come for it since, and what a reader has taken off the stream. Readers may
take events at any time, and whoever else is at work may do anything that leaves streams streams.

## Main results

* `Abreast`, `Marshalled`: what has come, what was pushed and what is queued fit together, at every
  moment
* `Marshalled.deliverWith`, `Marshalled.enqueue`, `Marshalled.takeRow`: delivering, queueing and
  taking a row keep them so
* `streams_keep_arrival_order`
-/

namespace GraphRows

open Decoder DecodeM

variable {d : Decoder} {i : Nat}

/-! ### What leaves streams alone -/

/-- Streams are as they were. -/
def Store.Undisturbed (s s' : Store) : Prop :=
  ∀ c st, s.stream? c = some st → s'.stream? c = some st

namespace Store.Undisturbed

variable {s s' s'' : Store}

theorem of_cells_eq (h : s'.cells = s.cells) : s.Undisturbed s' :=
  fun c _ hst => (stream?_congr h c).trans hst

theorem trans (h : s.Undisturbed s') (h' : s'.Undisturbed s'') : s.Undisturbed s'' :=
  fun c st hst => h' c st (h c st hst)

theorem alloc (s : Store) (c : Cell) : s.Undisturbed (s.alloc c).2 := fun id st hst => by
  have hold := stream?_eq_some hst
  exact stream?_of_cell? ((cell?_alloc_old s c (cell?_lt_size hold)).trans hold)

theorem settle (s : Store) (id : CellId) (o : Outcome) : s.Undisturbed (s.settle id o).2 :=
  fun c _ hst =>
  ((settles_settle s id o).streams c).trans hst

/-- A cell that was no stream is written. -/
theorem write (h : s.Undisturbed s') {id : CellId} (hid : s.stream? id = none) (cell : Cell) :
    s.Undisturbed (s'.write id cell) :=
  fun c st hst => by
    rw [stream?_write_ne (by rintro rfl; rw [hid] at hst; cases hst)]
    exact h c st hst

theorem fill (s : Store) (hole : Hole) (v : Value) : s.Undisturbed (s.fill hole v) := by
  unfold Store.fill
  split
  · exact .of_cells_eq rfl
  · split
    · rename_i hcell
      exact (of_cells_eq rfl).write (by rw [stream?, hcell]) _
    · exact .of_cells_eq rfl
  · split
    · rename_i hcell
      exact (of_cells_eq rfl).write (by rw [stream?, hcell]) _
    · exact .of_cells_eq rfl

theorem resolveTemporary (s : Store) (set : Nat) (id : String) :
    s.Undisturbed (s.resolveTemporary set id).2 := by
  unfold Store.resolveTemporary
  split
  · exact .of_cells_eq rfl
  · exact (alloc s (.temporary id)).trans (.of_cells_eq rfl)

end Store.Undisturbed

namespace DecodeM

variable {α β : Type}

/-- Streams, open or not, are as they were. -/
structure Apart (x y : Decoding) : Prop where
  options : y.decoder.options = x.decoder.options
  streams : y.decoder.streams = x.decoder.streams
  sources : x.store.Undisturbed y.store

theorem Apart.refl (x : Decoding) : Apart x x := ⟨rfl, rfl, .of_cells_eq rfl⟩

theorem Apart.trans {x y z : Decoding} (h : Apart x y) (h' : Apart y z) : Apart x z :=
  ⟨h'.options.trans h.options, h'.streams.trans h.streams, h.sources.trans h'.sources⟩

/-- Work that leaves streams alone. -/
def Aloof (m : DecodeM α) : Prop := ∀ x, Apart x (m x).2

namespace Aloof

theorem pure (a : α) : Aloof (Pure.pure a) := .refl

theorem bind {m : DecodeM α} {f : α → DecodeM β} (hm : Aloof m) (hf : ∀ a, Aloof (f a)) :
    Aloof (m >>= f) :=
  fun x =>
  (hm x).trans (hf _ _)

theorem decoder : Aloof DecodeM.decoder := .refl

theorem store : Aloof DecodeM.store := .refl

theorem modifyDecoder {f : Decoder → Decoder}
    (hf : ∀ d, (f d).options = d.options ∧ (f d).streams = d.streams) :
    Aloof (DecodeM.modifyDecoder f) :=
  fun x => ⟨(hf x.decoder).1, (hf x.decoder).2, .of_cells_eq rfl⟩

theorem modifyStore {f : Store → Store} (hf : ∀ s : Store, s.Undisturbed (f s)) :
    Aloof (DecodeM.modifyStore f) :=
  fun x => ⟨rfl, rfl, hf x.store⟩

theorem onStore {f : Store → α × Store} (hf : ∀ s : Store, s.Undisturbed (f s).2) :
    Aloof (DecodeM.onStore f) :=
  fun x => ⟨rfl, rfl, hf x.store⟩

/-- A cell is made, and written when its parts are there. -/
theorem container {cell : Cell} {m : CellId → DecodeM α} {f : CellId → α → DecodeM β}
    (hm : ∀ c, Aloof (m c))
    (hf : ∀ x y c a, x.store.stream? c = none → Apart x y → Apart x (f c a y).2) :
    Aloof (DecodeM.onStore (·.alloc cell) >>= fun c => m c >>= f c) :=
  fun x =>
  have h₀ : Apart x ⟨x.decoder, (x.store.alloc cell).2⟩ := ⟨rfl, rfl, .alloc x.store cell⟩
  hf x _ _ _ (by simp [Store.stream?, Store.cell?]) (h₀.trans (hm x.store.cells.size _))

end Aloof

/-- Leaving streams alone is a habit, as long as nothing is delivered. -/
theorem habit_aloof : Habit fun _ => Aloof where
  pure := .pure
  bind := .bind
  decoder hf _ := .bind .decoder hf
  store := .store

theorem settleEntry_aloof (i : Nat) (o : Outcome) : Aloof (settleEntry i o) :=
  habit_aloof.settleEntry (fun _ _ => .modifyDecoder fun _ => ⟨rfl, rfl⟩)
    (fun _ _ => .modifyStore fun s => .settle s _ _)
    (fun _ => .modifyDecoder fun _ => ⟨rfl, rfl⟩) i o

theorem newEntry_aloof (state : EntryState) : Aloof (newEntry state) :=
  habit_aloof.newEntry (.onStore fun s => .alloc s _) (fun _ _ => .modifyStore fun s =>
    .settle s _ _) (fun _ => .modifyDecoder fun _ => ⟨rfl, rfl⟩) state

theorem entryOf_aloof (id : Nat) : Aloof (entryOf id) :=
  habit_aloof.entryOf newEntry_aloof (fun _ _ => .modifyDecoder fun _ => ⟨rfl, rfl⟩) id

theorem openRow?_aloof (id : Nat) : Aloof (openRow? id) := habit_aloof.openRow? entryOf_aloof id

theorem resolve_aloof (index : Nat) (v : Value) (path : List String) (shape : Shape) :
    Aloof (resolve index v path shape) :=
  habit_aloof.resolve (fun _ _ _ _ _ => .onStore fun s => .alloc s _)
    (fun _ _ => .modifyDecoder fun _ => ⟨rfl, rfl⟩) index v path
    shape

theorem reads_aloof (target : Nat) : Reads (fun _ => Aloof) target where
  toHabit := habit_aloof
  entryOf := entryOf_aloof
  resolve := resolve_aloof
  leaveHole := habit_aloof.leaveHole (fun _ => .modifyDecoder fun _ => ⟨rfl, rfl⟩) fun _ _ _ _ _ =>
    .modifyDecoder fun _ => ⟨rfl, rfl⟩
  temporary _ _ := .onStore fun s => .resolveTemporary s _ _
  container _ hm hf := .container hm fun x y c a hnew h => by
    rcases hf c a with ⟨o, hdone⟩ | ⟨cell, o, -, hdone⟩ <;> rw [hdone]
    · exact h
    · exact ⟨h.options, h.streams, h.sources.write hnew _⟩

theorem reviveRow_aloof (i : Nat) (text : String) : Aloof (reviveRow i text) :=
  habit_aloof.reviveRow ((reads_aloof i).revive .root) (fun _ => .modifyDecoder fun _ => ⟨rfl, rfl⟩)
    (fun _ => .modifyDecoder fun _ => ⟨rfl, rfl⟩) (settleEntry_aloof i) text

theorem fillHole_aloof (index target : Nat) (hole : Hole) (path : List String) (shape : Shape)
    (cyclic : Bool) : Aloof (fillHole index target hole path shape cyclic) :=
  habit_aloof.fillHole resolve_aloof (fun _ => .modifyDecoder fun _ => ⟨rfl, rfl⟩)
    (settleEntry_aloof target)
    (fun _ _ => .modifyStore fun s => .fill s _ _) index hole path shape cyclic

end DecodeM

/-! ### What has come, and what is delivered of it -/

/-- What a stream entry turns into, once what it waits for has settled. -/
def StreamEntry.event? (d : Decoder) : StreamEntry → Option StreamEvent
  | .ready v => some (.item v)
  | .error r => some (.error r)
  | .close none => some (.close none)
  | .entry i => (d.entry i).state.outcome?.map fun
    | .ok v => .item v
    | .error r => .error r
  | .close (some i) => (d.entry i).state.outcome?.map fun
    | .ok v => .close (some v)
    | .error r => .error r

/-- Events up to the first that ends a stream. -/
def upToEnd : List StreamEvent → List StreamEvent
  | [] => []
  | e :: rest => if e.isTerminal then [e] else e :: upToEnd rest

/-- The events of what has come: those of the longest beginning in which everything has settled, up
to the first that ends the stream. -/
def delivered (d : Decoder) (came : List StreamEntry) : List StreamEvent :=
  upToEnd ((came.takeWhile fun e => (e.event? d).isSome).filterMap (·.event? d))

/-- A stream that has not ended when its decoder is closed ends with the reason. -/
def concluded (closed : Option Rejection) (events : List StreamEvent) : List StreamEvent :=
  match closed with
  | some r => if events.any (·.isTerminal) then events else events ++ [.error r]
  | none => events

/-- What a row brings for the stream of its id: a model and the value of a closing row are read into
an entry of their own, which is the next one. -/
def RawRow.brings? (row : RawRow) (x : Decoding) : Option StreamEntry :=
  match row.sort? with
  | some .model => some (.entry x.decoder.entries.size)
  | some (.binary kind) =>
    match Binary.make kind row.payload with
    | .ok data => some (.ready (x.store.make (.binary data)).1)
    | .error f => some (.error (.ofFault f))
  | some (.tagged .text) => some (.ready (.string (Utf8.decodeLossy row.payload)))
  | some (.tagged .error) => some (.error (errorReason row.payload))
  | some (.tagged .postpone) => some (.error (postponeReason row.payload))
  | some (.tagged .close) =>
    some (.close
      (if (Utf8.decodeLossy row.payload).isEmpty then none else some x.decoder.entries.size))
  | _ => none

/-- The record of one id since its stream was opened. -/
structure Hearing where
  /-- the stream -/
  stream : CellId
  /-- what has come for it -/
  came : List StreamEntry := []
  /-- what readers have taken off it -/
  taken : List StreamEvent := []

/-- Something comes for the id `k`. -/
def Hearing.add (h : Hearing) (id k : Nat) (e : StreamEntry) : Hearing :=
  if k = id then { h with came := h.came ++ [e] } else h

/-- A row comes to a decoder at `x`. -/
def Hearing.after (h : Hearing) (id : Nat) (x : Decoding) (row : RawRow) : Hearing :=
  ((row.brings? x).map (h.add id row.id)).getD h

theorem Hearing.stream_add (h : Hearing) (id k : Nat) (e : StreamEntry) :
    (h.add id k e).stream = h.stream := by
  rw [add]
  split <;> rfl

section

variable {d d' : Decoder} {e : StreamEntry} {event : StreamEvent} {done rest : List StreamEntry}
  {events : List StreamEvent}

theorem StreamEntry.event?_of_eventOf (h : eventOf d e = .ok event) : e.event? d = some event := by
  unfold eventOf at h
  split at h
  · exact congrArg some (Except.ok.inj h)
  · exact congrArg some (Except.ok.inj h)
  · exact congrArg some (Except.ok.inj h)
  all_goals
    rename_i i
    rw [event?]
    cases hstate : (d.entry i).state <;> simp only [hstate, reduceCtorEq] at h
    · exact congrArg some (Except.ok.inj h)
    · exact congrArg some (Except.ok.inj h)

theorem StreamEntry.event?_of_waitsFor? (h : e.waitsFor? = some i)
    (hi : (d.entry i).state.isTerminal = false) : e.event? d = none := by
  have hnone := EntryState.outcome?_of_not_isTerminal hi
  rcases e with _ | j | (_ | j) | _ <;> cases h <;> rw [event?, hnone] <;> rfl

theorem StreamEntry.event?_of_rejected {r : Rejection} (h : e.waitsFor? = some i)
    (hi : (d.entry i).state = .rejected r) : e.event? d = some (.error r) := by
  rcases e with _ | j | (_ | j) | _ <;> cases h <;> rw [event?, hi] <;> rfl

/-- What has settled stays. -/
theorem StreamEntry.event?_kept (hon : Onward Entry.Kept d d') (h : e.event? d = some event) :
    e.event? d' = some event := by
  have kept : ∀ i, (d.entry i).state.outcome?.isSome → (d'.entry i).state = (d.entry i).state :=
      fun i hi => by
    have hterminal : (d.entry i).state.isTerminal := by
      cases hstate : (d.entry i).state <;> simp [hstate, EntryState.outcome?,
        EntryState.isTerminal] at hi ⊢
    exact (hon.entry i (lt_size_of_isTerminal d hterminal)).settled hterminal
  rcases e with _ | i | (_ | i) | _
  · exact h
  · obtain ⟨o, ho, -⟩ := Option.map_eq_some_iff.mp h
    rwa [event?, kept i (by rw [ho]; rfl)]
  · exact h
  · obtain ⟨o, ho, -⟩ := Option.map_eq_some_iff.mp h
    rwa [event?, kept i (by rw [ho]; rfl)]
  · exact h

theorem upToEnd_append (h : ∀ e ∈ events, e.isTerminal = false) (events' : List StreamEvent) :
    upToEnd (events ++ events') = events ++ upToEnd events' := by
  induction events with
  | nil => rfl
  | cons e events ih =>
    rw [List.cons_append, upToEnd, h e List.mem_cons_self, if_neg Bool.false_ne_true,
      ih fun e he => h e (List.mem_cons_of_mem _ he)]
    rfl

theorem concluded_of_terminal {closed : Option Rejection} (hevent : event ∈ events)
    (hterminal : event.isTerminal) : concluded closed events = events := by
  cases closed with
  | none => rfl
  | some r => exact if_pos (List.any_eq_true.mpr ⟨event, hevent, hterminal⟩)

theorem concluded_of_going {r : Rejection} (h : ∀ e ∈ events, e.isTerminal = false) :
    concluded (some r) events = events ++ [.error r] := if_neg (by simpa using h)

/-- These have settled, to these events. -/
abbrev Ripe (d : Decoder) : List StreamEntry → List StreamEvent → Prop :=
  List.Forall₂ fun e event => e.event? d = some event

theorem Ripe.kept (h : Ripe d done events) (hon : Onward Entry.Kept d d') : Ripe d' done events :=
  h.imp fun _ _ => StreamEntry.event?_kept hon

/-- What has settled is delivered as it came. -/
theorem Ripe.delivered_append (h : Ripe d done events) :
    delivered d (done ++ rest) = upToEnd (events ++
      (rest.takeWhile fun e => (e.event? d).isSome).filterMap (·.event? d)) := by
  rw [delivered]
  congr 1
  induction h with
  | nil => rfl
  | cons he _ ih =>
    rw [List.cons_append, List.takeWhile_cons_of_pos (by rw [he]; rfl), List.filterMap_cons_some he,
      ih, List.cons_append]

end

/-! ### The lines of a decoder -/

/-- The stream an id is open for, and what is queued for it. -/
def Decoder.line? (d : Decoder) (id : Nat) : Option (CellId × List StreamEntry) :=
  (d.stream? id).map fun st => (st.stream, st.queue)

theorem Decoder.line?_setStream (d : Decoder) (k : Nat) (st : OpenStream) (j : Nat) :
    (d.setStream k st).line? j = if j = k then (d.line? k).map fun _ =>
      (st.stream, st.queue) else d.line? j := by
  have hlookup : ∀ l : List (Nat × OpenStream),
      (l.map fun p => (p.1, if p.1 == k then st else p.2)).lookup j =
      if j = k then (l.lookup k).map fun _ => st else l.lookup j := by
    intro l
    induction l with
    | nil => simp
    | cons p l ih =>
      rw [List.map_cons, List.lookup_cons, List.lookup_cons, List.lookup_cons, ih]
      by_cases hj : j = k
      · subst hj
        cases hp : j == p.1 with
        | true =>
          obtain rfl := beq_iff_eq.mp hp
          simp
        | false => simp
      · cases hp : j == p.1 with
        | true =>
          obtain rfl := beq_iff_eq.mp hp
          simp [hj]
        | false => simp [hj]
  change (((d.streams.map fun p => (p.1, if p.1 == k then st else p.2)).lookup j).map _) = _
  rw [hlookup, line?, line?, stream?, stream?]
  split
  · simp [Option.map_map, Function.comp_def]
  · rfl

theorem Decoder.line?_dropStream (d : Decoder) (k j : Nat) :
    (d.dropStream k).line? j = if j = k then none else d.line? j := by
  have hlookup : ∀ l : List (Nat × OpenStream), (l.filter (·.1 != k)).lookup j = if j =
      k then none else l.lookup j := by
    intro l
    induction l with
    | nil => simp
    | cons p l ih =>
      by_cases hp : p.1 = k
      · subst hp
        by_cases hj : j = p.1
        · simpa [hj] using ih
        · rw [List.filter_cons_of_neg (by simp), List.lookup_cons, beq_false_of_ne hj, ih]
      · rw [List.filter_cons_of_pos (by simpa using hp), List.lookup_cons, List.lookup_cons, ih]
        cases hj : j == p.1 with
        | true => simp [beq_iff_eq.mp hj, hp]
        | false => rfl
  rw [line?, line?, stream?, stream?, dropStream, hlookup]
  split <;> rfl

theorem Decoder.line?_append (d : Decoder) (k j : Nat) (st : OpenStream) :
    ({ d with streams := d.streams ++ [(k, st)] } : Decoder).line? j =
      (d.line? j).or (if j = k then some (st.stream, st.queue) else none) := by
  have hlookup : ∀ l : List (Nat × OpenStream), (l ++ [(k, st)]).lookup j =
      (l.lookup j).or (if j = k then some st else none) := by
    intro l
    induction l with
    | nil => by_cases hj : j = k <;> simp [hj, List.lookup_cons, beq_false_of_ne]
    | cons p l ih =>
      rw [List.cons_append, List.lookup_cons, List.lookup_cons, ih]
      cases j == p.1 <;> simp
  rw [line?, line?, stream?, stream?, hlookup]
  cases d.streams.lookup j <;> by_cases hj : j = k <;> simp [hj]

theorem Decoder.line?_of_streams {d' : Decoder} (h : d'.streams = d.streams) (k : Nat) :
    d'.line? k = d.line? k := by
  rw [line?, line?, stream?, stream?, h]

/-- An event is pushed to a stream: if it takes events, it takes this one. -/
theorem Store.stream?_push_self {s : Store} {c : CellId} {st : Stream} (hst : s.stream? c = some st)
    (e : StreamEvent) :
    ∃ st', (s.push c e).2.stream? c = some st' ∧
      (st.isOpen → st'.buffer = st.buffer ++ [e] ∧ st'.isOpen = !e.isTerminal) := by
  have hcells := push_cells s c e
  simp only [hst] at hcells
  split at hcells
  · rename_i hopen
    have hcancelled : st.cancelled = none := by
      rw [Stream.isOpen, Bool.and_eq_true] at hopen
      exact Option.isNone_iff_eq_none.mp hopen.2
    exact ⟨_, (stream?_congr hcells c).trans (stream?_of_cell?
      (cell?_write_self s _ (cell?_lt_size (stream?_eq_some hst)))),
      fun _ => ⟨rfl, by simp [Stream.isOpen, hcancelled]⟩⟩
  · rename_i hopen
    exact ⟨st, (stream?_congr hcells c).trans hst, fun h => absurd h hopen⟩

/-! ### In order -/

/-- What has come for an id, what was pushed to its stream and what is queued for it fit together.
The `cause` is the reason the decoder was closed with. -/
inductive Queueing (cause : Option Rejection) (d : Decoder) (id : Nat) (h : Hearing)
    (source : Stream) : Prop
  /-- the first that came were pushed, the rest is queued -/
  | running (done rest : List StreamEntry) (came : h.came = done ++ rest)
    (pushed : Ripe d done (h.taken ++ source.buffer))
    (going : ∀ e ∈ h.taken ++ source.buffer, e.isTerminal = false) (isOpen : source.isOpen)
    (line : d.line? id = some (h.stream, rest)) (unclosed : cause = none)
  /-- the first that came were pushed, and the last of these has ended the stream -/
  | ended (done rest : List StreamEntry) (events : List StreamEvent) (last : StreamEvent)
    (came : h.came = done ++ rest)
    (pushed : Ripe d done (events ++ [last])) (going : ∀ e ∈ events, e.isTerminal = false)
    (terminal : last.isTerminal)
    (all : h.taken ++ source.buffer = events ++ [last]) (shut : source.isOpen = false)
    (line : d.line? id = none)
  /-- all that came was pushed, and then the decoder was closed -/
  | cut (events : List StreamEvent) (r : Rejection) (because : cause = some r)
    (pushed : Ripe d h.came events)
    (going : ∀ e ∈ events, e.isTerminal = false)
    (all : h.taken ++ source.buffer = events ++ [.error r]) (line : d.line? id = none)

/-- The stream of an id stands as it should. -/
structure Abreast (cause : Option Rejection) (id : Nat) (h : Hearing) (x : Decoding) : Prop where
  value : x.decoder.status? id = some (.fulfilled (.cell h.stream))
  owner : ∀ k queue, x.decoder.line? k = some (h.stream, queue) → k = id
  standing : ∃ source, x.store.stream? h.stream = some source ∧ Queueing cause x.decoder id h source

/-- Loading a module leaves streams alone. -/
def Loader.Discreet (loader : Loader) : Prop := ∀ m (s : Store), s.Undisturbed (loader.load m s).2

/-- The streams of a decoder are there, and the one that is followed stands as it should. -/
structure Marshalled (cause : Option Rejection) (id : Nat) (h? : Option Hearing)
    (x : Decoding) : Prop where
  loader : cause = none → x.decoder.options.loader.Discreet
  sourced : ∀ k c queue, x.decoder.line? k = some (c, queue) → (x.store.stream? c).isSome
  abreast : ∀ h, h? = some h → Abreast cause id h x

section

variable {cause : Option Rejection} {id k : Nat} {h : Hearing} {h? : Option Hearing}
  {x y : Decoding} {d d' : Decoder}
  {source : Stream} {c : CellId} {front : StreamEntry} {rest : List StreamEntry}
    {event : StreamEvent}

theorem Queueing.kept (S : Queueing cause d id h source) (hon : Onward Entry.Kept d d')
    (hline : d'.line? id = d.line? id) : Queueing cause d' id h source := by
  cases S with
  | running done rest came pushed going isOpen line unclosed =>
    exact .running done rest came (pushed.kept hon) going isOpen (hline.trans line) unclosed
  | ended done rest events last came pushed going terminal all shut line =>
    exact .ended done rest events last came (pushed.kept hon) going terminal all shut
      (hline.trans line)
  | cut events r because pushed going all line =>
    exact .cut events r because (pushed.kept hon) going all (hline.trans line)

/-- **The front of the queue is pushed**, and the line goes on unless the event ends the stream. -/
theorem Queueing.advance (S : Queueing cause d id h source) (hon : Onward Entry.Kept d d')
    (hline : d.line? id = some (c, front :: rest)) (hevent : front.event? d = some event)
    (hline' : d'.line? id = if event.isTerminal then none else some (c, rest)) {source' : Stream}
    (hbuffer : source'.buffer = source.buffer ++ [event])
    (hopen : source'.isOpen = !event.isTerminal) : Queueing cause d' id h source' := by
  cases S with
  | running done rest' came pushed going isOpen line unclosed =>
    obtain ⟨rfl, rfl⟩ : h.stream = c ∧ rest' = front :: rest := by simpa using line.symm.trans hline
    have hpushed : Ripe d' (done ++ [front]) (h.taken ++ source.buffer ++ [event]) :=
      List.rel_append (pushed.kept hon) (.cons (StreamEntry.event?_kept hon hevent) .nil)
    have hall : h.taken ++ source'.buffer = h.taken ++ source.buffer ++
      [event] := by rw [hbuffer, List.append_assoc]
    have hcame : h.came = done ++ [front] ++ rest := by rw [came, List.append_assoc]; rfl
    cases hterminal : event.isTerminal with
    | true =>
      rw [hterminal, if_pos rfl] at hline'
      exact .ended _ rest _ event hcame hpushed going hterminal hall
        (by rw [hopen, hterminal]; rfl) hline'
    | false =>
      rw [hterminal, if_neg Bool.false_ne_true] at hline'
      refine .running _ rest hcame (hall ▸ hpushed) (fun e he => ?_) (by rw [hopen, hterminal]; rfl)
        hline' unclosed
      rw [hall] at he
      rcases List.mem_append.mp he with he | he
      · exact going e he
      · rw [List.mem_singleton.mp he, hterminal]
  | ended _ _ _ _ _ _ _ _ _ _ line => cases line.symm.trans hline
  | cut _ _ _ _ _ _ line => cases line.symm.trans hline

/-- The line of the id is that of its stream, and the stream takes events. -/
theorem Queueing.of_line (Q : Queueing cause d id h source) {queue : List StreamEntry}
    (hline : d.line? id = some (c, queue)) : c = h.stream ∧ source.isOpen := by
  cases Q with
  | running _ _ _ _ _ isOpen line _ =>
    exact ⟨(Prod.mk.inj (Option.some.inj (hline.symm.trans line))).1, isOpen⟩
  | ended _ _ _ _ _ _ _ _ _ _ line => cases line.symm.trans hline
  | cut _ _ _ _ _ _ line => cases line.symm.trans hline

theorem Decoder.status?_kept (hon : Onward Entry.Kept d d') {state : EntryState}
    (hstate : d.status? id = some state) (hterminal : state.isTerminal) :
    d'.status? id = some state := by
  obtain ⟨i, hi, rfl⟩ := Option.map_eq_some_iff.mp hstate
  rw [status?, hon.ids id i hi, Option.map_some,
    (hon.entry i (lt_size_of_isTerminal d hterminal)).settled hterminal]

namespace DecodeM

/-- An id whose row has come is not open. -/
theorem openRow?_of_status {state : EntryState} (h : x.decoder.status? k = some state)
    (hstate : state.isPending = false) : openRow? k x = (none, x) := by
  obtain ⟨i, hi, rfl⟩ := Option.map_eq_some_iff.mp h
  change ((if ((entryOf k x).2.decoder.entry (entryOf k x).1).state.isPending then some
    (entryOf k x).1 else none), (entryOf k x).2) = _
  rw [entryOf_of_some hi, if_neg (by simp [hstate])]

theorem openStream_of_none (kind : StreamKind) (h : (openRow? k x).1 = none) :
    openStream k kind x = ((), (openRow? k x).2) := by
  simp only [openStream, bind, StateT.bind]
  generalize openRow? k x = p at h ⊢
  obtain ⟨a, y⟩ := p
  cases h
  rfl

theorem openStream_of_some (kind : StreamKind) (h : (openRow? k x).1 = some i) :
    openStream k kind x = settleEntry i (.ok (.cell (openRow? k x).2.store.cells.size))
      ⟨{ (openRow? k x).2.decoder with
          streams := (openRow? k x).2.decoder.streams ++
            [(k, { stream := (openRow? k x).2.store.cells.size })] },
        ((openRow? k x).2.store.newStream kind).2⟩ := by
  simp only [openStream, bind, StateT.bind]
  generalize openRow? k x = p at h ⊢
  obtain ⟨a, y⟩ := p
  cases h
  rfl

theorem fulfilled_settleEntry {v : Value} (hk : x.decoder.ids.lookup k = some i)
    (hi : i < x.decoder.entries.size) (hopen : (x.decoder.entry i).state.isTerminal = false) :
    (settleEntry i (.ok v) x).2.decoder.status? k = some (.fulfilled v) := by
  have heq : (settleEntry i (.ok v) x).2.decoder =
    { x.decoder.modifyEntry i ({ · with state := .fulfilled v }) with
      wake := x.decoder.wake ++ [i] } := by
    change ((if (x.decoder.entry i).state.isTerminal then Pure.pure ()
      else _ : DecodeM Unit) x).2.decoder = _
    rw [if_neg (by simp [hopen])]
    rfl
  have hchanged := changed_settle hi (.fulfilled v)
  rw [heq, status?, hchanged.ids, hk, Option.map_some, hchanged.self]

theorem openRow?_lookup (hclosed : x.decoder.closed = none) (h : (openRow? k x).1 = some i) :
    (openRow? k x).2.decoder.ids.lookup k = some i := by
  change (if ((entryOf k x).2.decoder.entry (entryOf k x).1).state.isPending then some
    (entryOf k x).1 else none) = some i at h
  change (entryOf k x).2.decoder.ids.lookup k = some i
  split at h
  · cases h
    cases hk : x.decoder.ids.lookup k with
    | some i => rw [entryOf_of_some hk, hk]
    | none =>
      rw [entryOf_of_none hk hclosed]
      exact List.lookup_cons_self
  · cases h

theorem takeHint_aloof (payload : Bytes) : Aloof (takeHint payload) :=
  habit_aloof.takeHint (fun _ => .modifyStore fun _ => .of_cells_eq rfl) payload

end DecodeM

namespace Marshalled

/-- Streams stay streams, lines may move on or end, and the stream that is followed stands as it
should. -/
theorem step (O : Marshalled cause id h? x) {cause' : Option Rejection} {f : Hearing → Hearing}
    (hf : ∀ h, (f h).stream = h.stream)
    (hoptions : cause' = none → cause = none ∧ y.decoder.options = x.decoder.options)
    (hon : Onward Entry.Kept x.decoder y.decoder)
    (hstreams : ∀ c, (x.store.stream? c).isSome → (y.store.stream? c).isSome)
    (hlines : ∀ j c queue, y.decoder.line? j = some (c, queue) → ∃ queue', x.decoder.line? j =
      some (c, queue'))
    (hstep : ∀ h source, h? = some h →
      (∀ k queue, x.decoder.line? k = some (h.stream, queue) → k = id) →
      x.store.stream? h.stream = some source → Queueing cause x.decoder id h source →
      ∃ source', y.store.stream? h.stream = some source' ∧
      Queueing cause' y.decoder id (f h) source') : Marshalled cause' id (h?.map f) y := by
  refine ⟨fun hcause => (hoptions hcause).2 ▸ O.loader (hoptions hcause).1, fun j c queue hj => ?_,
    fun h' hh' => ?_⟩
  · obtain ⟨queue', hj'⟩ := hlines j c queue hj
    exact hstreams c (O.sourced j c queue' hj')
  · obtain ⟨h, hh, rfl⟩ := Option.map_eq_some_iff.mp hh'
    have A := O.abreast h hh
    obtain ⟨source, hsource, Q⟩ := A.standing
    refine ⟨hf h ▸ status?_kept hon A.value rfl, fun j queue hj => ?_, hf h ▸ hstep h source hh
      A.owner hsource Q⟩
    obtain ⟨queue', hj'⟩ := hlines j _ queue (hf h ▸ hj)
    exact A.owner j queue' hj'

/-- Nothing happens to streams. -/
theorem quiet (O : Marshalled cause id h? x) (hoptions : y.decoder.options = x.decoder.options)
    (hline : ∀ k, y.decoder.line? k = x.decoder.line? k) (hsources : x.store.Undisturbed y.store)
    (hon : Onward Entry.Kept x.decoder y.decoder) : Marshalled cause id h? y := by
  rw [← Option.map_id' (x := h?)]
  refine O.step (fun _ => rfl) (fun hcause => ⟨hcause, hoptions⟩) hon (fun c hc => ?_)
    (fun j c queue hj => ⟨queue, hline j ▸ hj⟩)
    fun h source _ _ hsource Q => ⟨source, hsources _ _ hsource, Q.kept hon (hline id)⟩
  obtain ⟨st, hst⟩ := Option.isSome_iff_exists.mp hc
  rw [hsources c st hst]
  rfl

theorem apart (O : Marshalled cause id h? x) (hapart : DecodeM.Apart x y)
    (hon : Onward Entry.Kept x.decoder y.decoder) : Marshalled cause id h? y :=
  O.quiet hapart.options (line?_of_streams hapart.streams) hapart.sources hon

/-- **The front of a queue is pushed.** -/
theorem advance (O : Marshalled cause id h? x) (hline : x.decoder.line? k = some (c, front :: rest))
    (hevent : front.event? x.decoder = some event)
    (hoptions : y.decoder.options = x.decoder.options)
    (hlines : ∀ j, y.decoder.line? j = if j =
      k then (if event.isTerminal then none else some (c, rest)) else x.decoder.line? j)
    (hstore : y.store = (x.store.push c event).2) (hon : Onward Entry.Kept x.decoder y.decoder) :
    Marshalled cause id h? y := by
  rw [← Option.map_id' (x := h?)]
  refine O.step (fun _ => rfl) (fun hcause => ⟨hcause, hoptions⟩) hon (fun c' hc' => ?_)
    (fun j c' queue hj => ?_) fun h source _ howner hsource Q => ?_
  · rw [hstore]
    by_cases hcc : c = c'
    · subst hcc
      obtain ⟨st, hst⟩ := Option.isSome_iff_exists.mp hc'
      obtain ⟨st', hst', -⟩ := Store.stream?_push_self hst event
      rw [hst']
      rfl
    · rwa [Store.stream?_push_ne x.store hcc]
  · rw [hlines] at hj
    split at hj
    · rename_i hjk
      split at hj <;> cases hj
      exact ⟨_, hjk ▸ hline⟩
    · exact ⟨queue, hj⟩
  · by_cases hk : id = k
    · subst hk
      obtain ⟨rfl, hopen⟩ := Q.of_line hline
      obtain ⟨source', hsource', htaken⟩ := Store.stream?_push_self hsource event
      exact ⟨source', hstore ▸ hsource',
        Q.advance hon hline hevent (by rw [hlines, if_pos rfl]) (htaken hopen).1 (htaken hopen).2⟩
    · refine ⟨source, ?_, Q.kept hon (by rw [hlines, if_neg hk])⟩
      have hc : c ≠ h.stream := by
        rintro rfl
        exact hk (howner k _ hline).symm
      rw [hstore, Store.stream?_push_ne x.store hc, hsource]

/-- **Delivering keeps the order.** -/
theorem deliverWith (O : Marshalled cause id h? x) (k fuel : Nat) :
    Marshalled cause id h? (DecodeM.deliverWith fuel k x).2 := by
  induction fuel generalizing x with
  | zero => exact O
  | succ fuel ih =>
    unfold DecodeM.deliverWith
    rw [decoder_bind]
    cases hst : x.decoder.stream? k with
    | none => exact O
    | some st =>
      dsimp only
      cases hqueue : st.queue with
      | nil => exact O
      | cons front rest =>
        dsimp only
        have hline : x.decoder.line? k = some (st.stream, front :: rest) := by
          rw [line?, hst, Option.map_some, hqueue]
        cases hevent : eventOf x.decoder front with
        | error i =>
          cases hwaiting : st.waiting with
          | true => exact O
          | false =>
            let d := x.decoder.setStream k { st with queue := front :: rest, waiting := true }
            have hset : Onward Entry.Kept x.decoder d := .congr rfl rfl
            have hwatch : Onward Entry.Kept d _ :=
              .modifyEntry (i := i) (f := fun e => { e with watchers := e.watchers ++ [.stream k] })
                ⟨rfl, fun _ => rfl⟩
            refine O.quiet rfl (fun j => ?_) (.of_cells_eq rfl) (hset.trans hwatch)
            change d.line? j = _
            rw [line?_setStream]
            split
            · rename_i hj
              subst hj
              rw [hline, Option.map_some]
            · rfl
        | ok event =>
          have hlines : ∀ j,
              (x.decoder.setStream k { st with queue := rest, waiting := false }).line? j =
              if j = k then some (st.stream, rest) else x.decoder.line? j := fun j => by
            rw [line?_setStream, hline, Option.map_some]
          cases hterminal : event.isTerminal with
          | true =>
            have := O.advance hline (StreamEntry.event?_of_eventOf hevent)
              (y := ⟨(x.decoder.setStream k { st with queue := rest, waiting := false }).dropStream
                  k, _⟩) rfl (fun j => by
                rw [line?_dropStream, hlines, hterminal, if_pos rfl]
                split <;> rfl) rfl (.congr rfl rfl)
            simp only [hterminal, if_true]
            exact this
          | false =>
            have := O.advance hline (StreamEntry.event?_of_eventOf hevent)
              (y := ⟨x.decoder.setStream k { st with queue := rest, waiting := false }, _⟩)
                  rfl (fun j => by
                rw [hlines, hterminal, if_neg Bool.false_ne_true]) rfl (.congr rfl rfl)
            simp only [hterminal, Bool.false_eq_true, if_false]
            exact ih this

theorem deliver (O : Marshalled cause id h? x) (k : Nat) :
    Marshalled cause id h? (DecodeM.deliver k x).2 :=
  O.deliverWith k _

/-! ### What comes -/

/-- What comes for an id that no stream is open for is passed over. -/
theorem pass (O : Marshalled none id h? x) (hline : x.decoder.line? k = none) (e : StreamEntry) :
    Marshalled none id (h?.map (·.add id k e)) x := by
  refine O.step (fun h => h.stream_add id k e) (fun hcause => ⟨hcause, rfl⟩) (.refl _)
    (fun _ hc => hc) (fun j c queue hj => ⟨queue, hj⟩)
    fun h source _ _ hsource Q => ⟨source, hsource, ?_⟩
  rw [Hearing.add]
  split
  · rename_i hk
    subst hk
    cases Q with
    | running _ _ _ _ _ _ line _ => cases line.symm.trans hline
    | ended done rest events last came pushed going terminal all shut line =>
      exact .ended done (rest ++ [e]) events last (by rw [came, List.append_assoc]) pushed going
        terminal all shut line
    | cut _ _ because => cases because
  · exact Q

/-- What comes for an open stream is queued. -/
theorem queue (O : Marshalled none id h? x) {queue : List StreamEntry}
    (hline : x.decoder.line? k = some (c, queue)) (e : StreamEntry)
    (hoptions : y.decoder.options = x.decoder.options)
    (hlines : ∀ j, y.decoder.line? j = if j = k then some (c, queue ++ [e]) else x.decoder.line? j)
    (hstore : y.store = x.store) (hon : Onward Entry.Kept x.decoder y.decoder) :
    Marshalled none id (h?.map (·.add id k e)) y := by
  refine O.step (fun h => h.stream_add id k e) (fun hcause => ⟨hcause, hoptions⟩) hon
    (fun c hc => hstore ▸ hc) (fun j c' q hj => ?_)
    fun h source _ _ hsource Q => ⟨source, hstore ▸ hsource, ?_⟩
  · rw [hlines] at hj
    split at hj
    · rename_i hjk
      cases hj
      exact ⟨queue, hjk ▸ hline⟩
    · exact ⟨q, hj⟩
  · rw [Hearing.add]
    split
    · rename_i hk
      subst hk
      cases Q with
      | running done rest came pushed going isOpen line unclosed =>
        obtain ⟨rfl, rfl⟩ : h.stream = c ∧ rest = queue := by simpa using line.symm.trans hline
        exact .running done (rest ++ [e]) (by rw [came, List.append_assoc])
          (pushed.kept hon) going isOpen (by rw [hlines, if_pos rfl]) unclosed
      | ended _ _ _ _ _ _ _ _ _ _ line => cases line.symm.trans hline
      | cut _ _ because => cases because
    · rename_i hk
      exact Q.kept hon (by rw [hlines, if_neg fun h => hk h.symm])

/-- **What comes for a stream is queued and delivered.** -/
theorem enqueue (O : Marshalled none id h? x) (k : Nat) (e : StreamEntry) :
    Marshalled none id (h?.map (·.add id k e)) (DecodeM.enqueue k e x).2 := by
  unfold DecodeM.enqueue
  rw [decoder_bind]
  cases hst : x.decoder.stream? k with
  | none => exact O.pass (by rw [line?, hst]; rfl) e
  | some st =>
    have hline : x.decoder.line? k = some (st.stream, st.queue) := by rw [line?, hst]; rfl
    refine (O.queue (y := ⟨x.decoder.setStream k { st with queue := st.queue ++ [e] }, x.store⟩)
      hline e rfl (fun j => ?_) rfl (.congr rfl rfl)).deliver k
    rw [line?_setStream, hline, Option.map_some]

/-! ### Watchers -/

theorem runWatcher (O : Marshalled cause id h? x) (i : Nat) (w : Watcher) :
    Marshalled cause id h? (DecodeM.runWatcher i w x).2 := by
  cases w with
  | hole target hole path shape cyclic =>
    exact O.apart (fillHole_aloof i target hole path shape cyclic x)
      ((fillHole_onward i hole path shape cyclic x).mono fun _ _ => Entry.Grown.kept)
  | stream k => exact O.deliver k

theorem turn (O : Marshalled cause id h? x) (i : Nat) (rest : List Nat) :
    Marshalled cause id h? (DecodeM.turn i rest x).2 := by
  have loop : Ensures (Marshalled cause id h?)
      ((x.decoder.entry i).watchers.forM (DecodeM.runWatcher i)) fun _ =>
      Marshalled cause id h? :=
    Ensures.forM (I := fun _ => Marshalled cause id h?) (fun w _ y O => O.runWatcher i w) _
  have hoff : Onward Entry.Kept { x.decoder with wake := rest } (takeOff x.decoder i rest) :=
    .modifyEntry ⟨rfl, fun _ => rfl⟩
  exact loop ⟨takeOff x.decoder i rest, x.store⟩ (O.quiet rfl (fun _ => rfl) (.of_cells_eq rfl)
    ⟨hoff.size, hoff.ids, hoff.entry⟩)

/-- **Watchers keep the order.** -/
theorem runWatchersWith (O : Marshalled cause id h? x) (fuel : Nat) :
    Marshalled cause id h? (DecodeM.runWatchersWith fuel x).2 := by
  induction fuel generalizing x with
  | zero => exact O
  | succ fuel ih =>
    cases hwake : x.decoder.wake with
    | nil =>
      rw [runWatchersWith_nil hwake]
      exact O
    | cons i rest =>
      rw [runWatchersWith_cons hwake]
      exact ih (O.turn i rest)

theorem runWatchers (O : Marshalled cause id h? x) :
    Marshalled cause id h? (DecodeM.runWatchers x).2 :=
  O.runWatchersWith _

/-! ### Rows -/

/-- What comes for an id that no stream is open for does nothing to streams. -/
theorem elsewhere (O : Marshalled none id h? x) (hst : ¬ (x.decoder.stream? k).isSome)
    (hapart : DecodeM.Apart x y) (hon : Onward Entry.Grown x.decoder y.decoder) (e : StreamEntry) :
    Marshalled none id (h?.map (·.add id k e)) y := by
  refine (O.apart hapart (hon.mono fun _ _ => Entry.Grown.kept)).pass ?_ e
  rw [line?_of_streams hapart.streams, line?, Option.not_isSome_iff_eq_none.mp hst]
  rfl

/-- What comes for a row that no stream is open for. -/
theorem filed (O : Marshalled none id h? x) (hx : Named x) (hst : ¬ (x.decoder.stream? k).isSome)
    {f : Option Nat → DecodeM Unit} (hnone : f none = Pure.pure ())
    (haloof : ∀ i, Aloof (f (some i)))
    (hf : ∀ i, Ensures (fun y => From x.decoder y ∧ i < y.decoder.entries.size ∧
      (y.decoder.entry i).state.isTerminal = false) (f (some i)) fun _ => From x.decoder)
    (e : StreamEntry) : Marshalled none id (h?.map (·.add id k e)) ((openRow? k >>= f) x).2 := by
  refine O.elsewhere hst (Aloof.bind (openRow?_aloof k) (fun i => ?_) x) ?_ e
  · cases i with
    | none =>
      rw [hnone]
      exact .pure _
    | some i => exact haloof i
  · have h := openRow?_onward (d := x.decoder) k x ⟨.refl _, hx⟩
    change From x.decoder (f (openRow? k x).1 (openRow? k x).2).2
    cases hi : (openRow? k x).1 with
    | none =>
      rw [hnone]
      exact h.1
    | some i => exact hf i _ ⟨h.1, h.2 i hi⟩

theorem takeValue (O : Marshalled none id h? x) (hx : Named x) (k : Nat) (o : Outcome)
    (e : StreamEntry) (he : (∃ v, o = .ok v ∧ e = .ready v) ∨ ∃ r, o = .error r ∧ e = .error r) :
    Marshalled none id (h?.map (·.add id k e)) (DecodeM.takeValue k o x).2 := by
  unfold DecodeM.takeValue
  rw [decoder_bind]
  split
  · rcases he with ⟨v, rfl, rfl⟩ | ⟨r, rfl, rfl⟩ <;> exact O.enqueue k _
  · rename_i hst
    exact O.filed hx hst rfl (settleEntry_aloof · o)
      (fun i => (settleEntry_onward i o).from_ensures.pre fun _ h => h.1) e

/-- A model that is read into an entry of its own. -/
theorem takeItem (O : Marshalled none id h? x) (k : Nat) (text : String) (f : Nat → StreamEntry) :
    Marshalled none id (h?.map (·.add id k (f x.decoder.entries.size))) ((do
      let i ← newEntry .pending
      reviveRow i text
      DecodeM.enqueue k (f i) : DecodeM Unit) x).2 := by
  have hon := reviveItem_onward text x
  have hapart := (newEntry_aloof .pending x).trans (reviveRow_aloof x.decoder.entries.size text _)
  exact (O.apart hapart (hon.mono fun _ _ => Entry.Grown.kept)).enqueue k _

theorem takeModel (O : Marshalled none id h? x) (hx : Named x) (k : Nat) (text : String) :
    Marshalled none id (h?.map (·.add id k (.entry x.decoder.entries.size)))
      (DecodeM.takeModel k text x).2 := by
  unfold DecodeM.takeModel
  rw [decoder_bind]
  split
  · exact O.takeItem k text .entry
  · rename_i hst
    exact O.filed hx hst rfl (reviveRow_aloof · text)
      (fun _ _ h => Onward.trans h.1 (reviveRow_onward h.2.1 h.2.2 text)) _

theorem closeStream (O : Marshalled none id h? x) (k : Nat) (text : String) :
    Marshalled none id
      (h?.map (·.add id k (.close (if text.isEmpty then none else some x.decoder.entries.size))))
      (DecodeM.closeStream k text x).2 := by
  unfold DecodeM.closeStream
  rw [decoder_bind]
  by_cases hst : (x.decoder.stream? k).isSome
  · rw [if_pos hst]
    split
    · exact O.enqueue k _
    · exact O.takeItem k text fun i => .close (some i)
  · rw [if_neg hst]
    exact O.elsewhere hst (.refl x) (.refl _) _

theorem takeImport (O : Marshalled none id h? x) (k : Nat) (payload : Bytes)
    (hon : Onward Entry.Kept x.decoder (DecodeM.takeImport k payload x).2.decoder) :
    Marshalled none id h? (DecodeM.takeImport k payload x).2 := by
  refine O.apart ?_ hon
  have hload : ∀ y : Decoding, y.decoder.options.loader.Discreet →
      DecodeM.Apart y (loadModule payload y).2 := by
    intro y hy
    unfold loadModule
    cases Json.readBytes payload with
    | error e => exact .refl y
    | ok j =>
      dsimp only
      cases Import.ofJson j with
      | error f => exact .refl y
      | ok m =>
        dsimp only
        rw [decoder_bind]
        cases y.decoder.options.loader.observed with
        | true =>
          exact .trans (y := ⟨y.decoder, y.store.note _⟩) ⟨rfl, rfl, .of_cells_eq rfl⟩
            ⟨rfl, rfl, hy _ _⟩
        | false => exact ⟨rfl, rfl, hy _ _⟩
  have hopened := openRow?_aloof k x
  unfold DecodeM.takeImport
  change DecodeM.Apart x ((fun i => match i with
    | some i => loadModule payload >>= fun o => settleEntry i o
    | none => Pure.pure ()) (openRow? k x).1 (openRow? k x).2).2
  cases (openRow? k x).1 with
  | none => exact hopened
  | some i =>
    exact (hopened.trans (hload _ (hopened.options ▸ O.loader rfl))).trans (settleEntry_aloof i _ _)

/-- A stream is opened for an id that nobody follows, or that no stream is open for yet. -/
theorem opened (O : Marshalled none id h? x) (kind : StreamKind) (hk : h?.isSome → k ≠ id) :
    Marshalled none id h?
    ⟨{ x.decoder with streams := x.decoder.streams ++ [(k, { stream := x.store.cells.size })] },
      (x.store.newStream kind).2⟩ := by
  have haside : x.store.Undisturbed (x.store.newStream kind).2 := .alloc x.store _
  refine ⟨O.loader, fun j c queue hj => ?_, fun h hh => ?_⟩
  · rw [line?_append] at hj
    rcases Option.or_eq_some_iff.mp hj with hj | ⟨-, hj⟩
    · obtain ⟨st, hst⟩ := Option.isSome_iff_exists.mp (O.sourced j c queue hj)
      rw [haside c st hst]
      rfl
    · split at hj <;> cases hj
      exact Option.isSome_iff_exists.mpr ⟨_, Store.stream?_of_cell?
        (Store.cell?_alloc_new x.store (.stream { kind }))⟩
  · have A := O.abreast h hh
    have hon : Onward Entry.Kept x.decoder
        { x.decoder with streams := x.decoder.streams ++ [(k,
          { stream := x.store.cells.size })] } := .congr rfl rfl
    obtain ⟨source, hsource, Q⟩ := A.standing
    refine ⟨status?_kept hon A.value rfl, fun j queue hj => ?_, source, haside _ _ hsource,
      Q.kept hon ?_⟩
    · rw [line?_append] at hj
      rcases Option.or_eq_some_iff.mp hj with hj | ⟨-, hj⟩
      · exact A.owner j queue hj
      · split at hj <;> simp only [Option.some.injEq, Prod.mk.injEq, reduceCtorEq] at hj
        exact absurd (Store.cell?_lt_size (Store.stream?_eq_some hsource))
          (by rw [← hj.1]; exact Nat.lt_irrefl _)
    · rw [line?_append, if_neg fun hid => hk (by rw [hh]; rfl) hid.symm, Option.or_none]

theorem openStream (O : Marshalled none id h? x) (hx : Named x) (k : Nat) (kind : StreamKind) :
    Marshalled none id h? (DecodeM.openStream k kind x).2 := by
  have hopened := openRow?_aloof k x
  have hon := (openRow?_onward (d := x.decoder) k x ⟨.refl _, hx⟩).1
  cases hi : (openRow? k x).1 with
  | none =>
    rw [openStream_of_none kind hi]
    exact O.apart hopened (hon.mono fun _ _ => Entry.Grown.kept)
  | some i =>
    rw [openStream_of_some kind hi]
    refine (((O.apart hopened (hon.mono fun _ _ => Entry.Grown.kept)).opened kind
      fun hsome hk => ?_).apart
      (settleEntry_aloof i _ _) ((settleEntry_onward i _ _).mono fun _ _ => Entry.Grown.kept))
    obtain ⟨h, hh⟩ := Option.isSome_iff_exists.mp hsome
    subst hk
    rw [openRow?_of_status (O.abreast h hh).value rfl] at hi
    cases hi

/-- **A row**, but for the watchers. -/
theorem takeIn (O : Marshalled none id h? x) (hx : Named x) (row : RawRow) :
    Marshalled none id (h?.map (·.after id x row)) (DecodeM.takeIn row x).2 := by
  have hon := (takeIn_onward hx row).mono fun _ _ => Entry.Grown.kept
  have brings : ∀ {e y}, row.brings? x = some e →
      Marshalled none id (h?.map (·.add id row.id e)) y →
      Marshalled none id (h?.map (·.after id x row)) y := by
    intro e y he h
    simpa only [Hearing.after, he, Option.map_some, Option.getD_some] using h
  have passes : ∀ {y}, row.brings? x = none → Marshalled none id h? y →
      Marshalled none id (h?.map (·.after id x row)) y := by
    intro y he h
    simpa only [Hearing.after, he, Option.map_none, Option.getD_none, Option.map_id'] using h
  revert hon
  unfold DecodeM.takeIn
  cases hsort : row.sort? with
  | none => exact fun _ => passes (by rw [RawRow.brings?, hsort]) O
  | some sort =>
    intro hon
    cases sort with
    | model => exact brings (by rw [RawRow.brings?, hsort]) (O.takeModel hx row.id _)
    | binary kind =>
      change Marshalled _ _ _ (takeBinary row.id kind row.payload x).2
      unfold takeBinary
      cases hmake : Binary.make kind row.payload with
      | error f =>
        exact brings (by simp only [RawRow.brings?, hsort, hmake])
          (O.takeValue hx row.id (.error (.ofFault f)) _ (.inr ⟨_, rfl, rfl⟩))
      | ok data =>
        have hmade : DecodeM.Apart x ⟨x.decoder, (x.store.make (.binary data)).2⟩ :=
          ⟨rfl, rfl, .alloc x.store (.binary data)⟩
        exact brings (by simp only [RawRow.brings?, hsort, hmake])
          ((O.apart hmade (.refl _)).takeValue hx row.id (.ok (x.store.make (.binary data)).1) _
            (.inl ⟨_, rfl, rfl⟩))
    | tagged tag =>
      cases tag with
      | text =>
        exact brings (by rw [RawRow.brings?, hsort])
          (O.takeValue hx row.id (.ok (.string (Utf8.decodeLossy row.payload))) _
            (.inl ⟨_, rfl, rfl⟩))
      | error =>
        exact brings (by rw [RawRow.brings?, hsort])
          (O.takeValue hx row.id (.error (errorReason row.payload)) _ (.inr ⟨_, rfl, rfl⟩))
      | postpone =>
        exact brings (by rw [RawRow.brings?, hsort])
          (O.takeValue hx row.id (.error (postponeReason row.payload)) _ (.inr ⟨_, rfl, rfl⟩))
      | importing =>
        exact passes (by rw [RawRow.brings?, hsort]) (O.takeImport row.id row.payload hon)
      | hint =>
        exact passes (by rw [RawRow.brings?, hsort]) (O.apart (takeHint_aloof row.payload x) hon)
      | stream kind => exact passes (by rw [RawRow.brings?, hsort]) (O.openStream hx row.id kind)
      | close => exact brings (by rw [RawRow.brings?, hsort]) (O.closeStream row.id _)
      | debug | console | timing => exact passes (by rw [RawRow.brings?, hsort]) O

theorem takeRow (O : Marshalled none id h? x) (hx : Named x) (row : RawRow) :
    Marshalled none id (h?.map (·.after id x row)) (DecodeM.takeRow row x).2 := by
  rw [takeRow_eq]
  exact (O.takeIn hx row).runWatchers

/-- **The row that opens the stream.** Nothing has come for it yet. -/
theorem opens (O : Marshalled none id none x) {a : Affairs} (T : Tidy a x.decoder)
    (hclosed : a.closed = none) (hbusy : a.busy = none) (hwanted : a.wanted id) (kind : StreamKind)
    (hi : (openRow? id x).1 = some i) :
    Marshalled none id (some { stream := (openRow? id x).2.store.cells.size })
      (DecodeM.openStream id kind x).2 := by
  have hnamed : Named x := T.orderly.named
  have O' := O.openStream hnamed id kind
  have hid := openRow?_lookup (T.orderly.alive.1.trans hclosed) hi
  have hopened := openRow?_ensures hclosed hbusy hwanted x T
  have hsourced := (O.apart (openRow?_aloof id x)
    ((openRow?_onward (d := x.decoder) id x ⟨.refl _, hnamed⟩).1.mono
    fun _ _ => Entry.Grown.kept)).sourced
  rw [openStream_of_some kind hi] at O' ⊢
  rw [hi] at hopened
  generalize (openRow? id x).2 = y at *
  obtain ⟨-, hlt, hpending, hfree, -, -⟩ := hopened
  have hnone : y.decoder.line? id = none := by
    rw [line?, Option.map_eq_none_iff]
    refine Option.eq_none_iff_forall_ne_some.mpr fun st hst => ?_
    exact hfree _ (Orderly.mem_of_stream? hst) rfl
  have hsettle := settleEntry_aloof i (.ok (.cell y.store.cells.size))
    ⟨{ y.decoder with streams := y.decoder.streams ++ [(id, { stream := y.store.cells.size })] },
      (y.store.newStream kind).2⟩
  have hlines := fun j => (line?_of_streams hsettle.streams j).trans
    (line?_append y.decoder id j { stream := y.store.cells.size })
  have hnew : (y.store.newStream kind).2.stream? y.store.cells.size = some { kind } :=
    Store.stream?_of_cell? (Store.cell?_alloc_new y.store (.stream { kind }))
  refine ⟨O'.loader, O'.sourced, ?_⟩
  rintro h ⟨⟩
  refine ⟨?_, fun j queue hj => ?_, { kind }, hsettle.sources _ _ hnew, .running [] [] rfl .nil
    ?_ rfl ?_ rfl⟩
  · exact fulfilled_settleEntry hid hlt
      (by change (y.decoder.entry i).state.isTerminal = false; rw [hpending]; rfl)
  · rw [hlines] at hj
    rcases Option.or_eq_some_iff.mp hj with hj | ⟨-, hj⟩
    · obtain ⟨st, hst⟩ := Option.isSome_iff_exists.mp (hsourced j _ queue hj)
      exact absurd (Store.cell?_lt_size (Store.stream?_eq_some hst)) (Nat.lt_irrefl _)
    · split at hj
      · assumption
      · cases hj
  · simp
  · rw [hlines, hnone, Option.none_or, if_pos rfl]

/-- **The decoder is closed**: what stands at the front of a queue is rejected, and a stream with an
empty queue is told. -/
theorem close (O : Marshalled none id h? x) {a : Affairs} {hist : List WatcherEvent}
    (C : Rests a hist x.decoder) (hloose : a.loose = none) (hrunning : a.running = [])
    (hopen : a.closed = none) (r : Rejection) : Marshalled (some r) id h? (closeWith r x).2 := by
  have hon := closeWith_onward r x
  have S := C.tidy.stuck hloose hrunning C.wake
  obtain ⟨E, hstreams⟩ := C.ending hloose hrunning hopen r
  have hcloses := C.closes hloose hrunning hopen r
  have hline : ∀ k, (closeWith r x).2.decoder.line? k = none :=
    fun k => by rw [line?, stream?, hstreams]; rfl
  rw [← Option.map_id' (x := h?)]
  refine O.step (fun _ => rfl) (by rintro ⟨⟩) hon (fun c hc => ?_) (fun j c queue hj => ?_)
    fun h source _ _ hsource Q => ?_
  · obtain ⟨st, hst⟩ := Option.isSome_iff_exists.mp hc
    rcases E.store.streams c st hst with hst' | ⟨-, hst'⟩ <;> exact Option.isSome_iff_exists.mpr
      ⟨_, hst'⟩
  · cases (hline j).symm.trans hj
  · cases Q with
    | running done rest came pushed going isOpen line _ =>
      obtain ⟨st, hst, heq⟩ := Option.map_eq_some_iff.mp line
      obtain ⟨hstream, hqueue⟩ := Prod.mk.inj heq
      have hmem := Orderly.mem_of_stream? hst
      have htold := hcloses.told _ hmem source (hstream ▸ hsource) isOpen
      refine ⟨source.failed r, hstream ▸ htold, ?_⟩
      have hall : h.taken ++ (source.failed r).buffer = h.taken ++ source.buffer ++ [.error r] :=
        (List.append_assoc ..).symm
      cases rest with
      | nil =>
        rw [List.append_nil] at came
        exact .cut _ r rfl (came ▸ pushed.kept hon) going hall (hline id)
      | cons front rest =>
        obtain ⟨-, front', rest', j, hqueue', hfront, hwaits⟩ :=
          S.front _ hmem (by rw [hqueue]; exact List.cons_ne_nil _ _)
        obtain ⟨rfl, rfl⟩ := List.cons.inj (hqueue.symm.trans hqueue')
        have hj := C.tidy.orderly.known _ hmem front (by rw [hqueue]; exact List.mem_cons_self)
          j hfront
        have hevent := StreamEntry.event?_of_rejected hfront (hcloses.rejected j hj hwaits).1
        exact .ended (done ++ [front]) rest _ (.error r) (by rw [came, List.append_assoc]; rfl)
          (List.rel_append (pushed.kept hon) (.cons hevent .nil)) going rfl hall rfl (hline id)
    | ended done rest events last came pushed going terminal all shut line =>
      refine ⟨source, ?_, .ended done rest events last came (pushed.kept hon) going terminal all
        shut (hline id)⟩
      exact (E.store.streams _ source hsource).resolve_right fun h => absurd h.1 (by simp [shut])
    | cut _ _ because => cases because

end Marshalled

end

/-! ### The course of a decoder -/

theorem Decoder.Idle.rests (I : d.Idle) (hopen : d.closed = none) :
    ∃ rows reader h, Rests (.fed rows reader) h d := by
  rcases I with h | ⟨_, S, -⟩
  · exact h
  · exact absurd S.closed (by simp [hopen])

theorem RawRow.sort?_of_isOpening {row : RawRow} (h : row.isOpening) :
    ∃ kind, row.sort? = some (.tagged (.stream kind)) := by
  rw [isOpening] at h
  obtain ⟨sort, hsort, hopening⟩ := (Option.any_eq_true _ _).mp h
  cases sort with
  | tagged tag =>
    cases tag with
    | stream kind => exact ⟨kind, hsort⟩
    | _ => cases hopening
  | _ => cases hopening

/-- A row opens a stream, and is accepted. -/
def RawRow.Opens (row : RawRow) (x : Decoding) : Prop :=
  row.isOpening ∧ (openRow? row.id x).1.isSome

/-- Somebody else is at work on the store: streams stay streams, and what is taken off the stream
that is followed is its first events. -/
structure Aloud (h? : Option Hearing) (taken : List StreamEvent) (s s' : Store) : Prop where
  streams : ∀ c, (s.stream? c).isSome → (s'.stream? c).isSome
  taken : ∀ h source, h? = some h → s.stream? h.stream = some source →
    ∃ source', s'.stream? h.stream = some source' ∧ source.buffer = taken ++ source'.buffer ∧
      source'.isOpen = source.isOpen

/-- The course of a decoder since its creation, with the record of one id since a stream was opened
for it. -/
inductive Course (options : DecoderOptions) (id : Nat) : Decoding → Option Hearing → Prop
  | start (s : Store) : Course options id ⟨.create options, s⟩ none
  /-- somebody asks for the handle of a row -/
  | handle {x h?} (k : Nat) (C : Course options id x h?) :
    Course options id (DecodeM.handle k x).2 h?
  /-- bytes are framed -/
  | read {x h?} (reader : RowReader) (C : Course options id x h?) :
    Course options id (x.reading reader) h?
  /-- a row is acted on -/
  | row {x h?} (row : RawRow) (C : Course options id x h?) (hopen : x.decoder.closed = none)
    (hrow : h? = none → row.id = id → ¬ row.Opens x) :
      Course options id (takeRow row x).2 (h?.map (·.after id x row))
  /-- the row that opens the stream is acted on -/
  | opens {x} (row : RawRow) (C : Course options id x none) (hopen : x.decoder.closed = none)
    (hid : row.id = id) (hrow : row.Opens x) :
      Course options id (takeRow row x).2 (some { stream := (openRow? id x).2.store.cells.size })
  /-- nothing more will come -/
  | close {x h?} (r : Rejection) (C : Course options id x h?) :
    Course options id (closeWith r x).2 h?
  /-- somebody else is at work -/
  | outside {x h?} (s : Store) (taken : List StreamEvent) (C : Course options id x h?)
    (hs : Aloud h? taken x.store s) :
    Course options id ⟨x.decoder, s⟩ (h?.map fun h => { h with taken := h.taken ++ taken })

namespace Course

variable {options : DecoderOptions} {id : Nat} {x : Decoding} {h? : Option Hearing}

/-- The record is right, all along. -/
theorem marshalled (C : Course options id x h?) (hloader : options.loader.Discreet) :
    Marshalled x.decoder.closed id h? x ∧ x.decoder.Idle := by
  induction C with
  | start s =>
    have hline : ∀ k, (Decoder.create options).line? k = none := fun _ => rfl
    exact ⟨⟨fun _ => hloader, fun k c queue hk => (by cases (hline k).symm.trans hk),
      (by rintro _ ⟨⟩)⟩, idle_create options⟩
  | handle k C ih =>
    refine ⟨?_, (Decoding.Step.handle _ k).idle ih.2⟩
    change Marshalled (entryOf k _).2.decoder.closed id _ (entryOf k _).2
    rw [(acts_blind.entryOf k _).1]
    exact ih.1.apart (entryOf_aloof k _) (entryOf_onward k _)
  | read reader C ih =>
    exact ⟨ih.1.quiet rfl (fun _ => rfl) (.of_cells_eq rfl) (.congr rfl rfl),
      (Decoding.Step.read _ reader).idle ih.2⟩
  | row row C hopen hrow ih =>
    obtain ⟨O, I⟩ := ih
    refine ⟨?_, (Decoding.Step.row _ row hopen).idle I⟩
    obtain ⟨rows, reader, hist, R⟩ := I.rests hopen
    rw [hopen] at O
    rw [(takeRow_blind row _).1, hopen]
    exact O.takeRow R.tidy.orderly.named row
  | opens row C hopen hid hrow ih =>
    obtain ⟨O, I⟩ := ih
    refine ⟨?_, (Decoding.Step.row _ row hopen).idle I⟩
    obtain ⟨rows, reader, hist, R⟩ := I.rests hopen
    subst hid
    rw [hopen] at O
    rw [(takeRow_blind row _).1, hopen, takeRow_eq]
    obtain ⟨kind, hsort⟩ := row.sort?_of_isOpening hrow.1
    obtain ⟨i, hi⟩ := Option.isSome_iff_exists.mp hrow.2
    have hopened := O.opens R.tidy rfl rfl trivial kind hi
    have heq : DecodeM.takeIn row = DecodeM.openStream row.id kind := by
      rw [DecodeM.takeIn, hsort]; rfl
    rw [← heq] at hopened
    exact hopened.runWatchers
  | @close x h? r C ih =>
    obtain ⟨O, I⟩ := ih
    refine ⟨?_, (Decoding.Step.close _ r).idle I⟩
    cases hclosed : x.decoder.closed with
    | some r' =>
      rw [closeWith_of_closed (by rw [hclosed]; rfl)]
      exact O
    | none =>
      obtain ⟨rows, reader, hist, R⟩ := I.rests hclosed
      rw [hclosed] at O
      rw [(R.closes rfl rfl rfl r).closed]
      exact O.close R rfl rfl rfl r
  | outside s taken C hs ih =>
    refine ⟨ih.1.step (fun _ => rfl) (fun hcause => ⟨hcause, rfl⟩) (.refl _) hs.streams
      (fun j c queue hj => ⟨queue, hj⟩) fun h source hh _ hsource Q => ?_, ih.2⟩
    obtain ⟨source', hsource', hbuffer, hopen⟩ := hs.taken h source hh hsource
    have hall : h.taken ++ taken ++ source'.buffer = h.taken ++ source.buffer := by
      rw [hbuffer, List.append_assoc]
    refine ⟨source', hsource', ?_⟩
    cases Q with
    | running done rest came pushed going isOpen line unclosed =>
      exact .running done rest came (hall ▸ pushed) (hall ▸ going)
        (hopen.trans isOpen) line unclosed
    | ended done rest events last came pushed going terminal all shut line =>
      exact .ended done rest events last came pushed going terminal (hall.trans all)
        (hopen.trans shut) line
    | cut events r because pushed going all line =>
      exact .cut events r because pushed going (hall.trans all) line

/-- Whatever is asked of the decoder, the record goes on. -/
theorem rows {h : Hearing} (C : Course options id x (some h)) (hopen : x.decoder.closed = none)
    (rows : List RawRow) : ∃ h', Course options id (rows.forM takeRow x).2 (some h') := by
  induction rows generalizing x h with
  | nil => exact ⟨h, C⟩
  | cons row rows ih =>
    exact ih (C.row row hopen (by rintro ⟨⟩)) ((takeRow_blind row x).1.trans hopen)

theorem perform {h : Hearing} (C : Course options id x (some h)) (call : Call) :
    ∃ h', Course options id (call.perform x) (some h') := by
  cases call with
  | handle k => exact ⟨h, C.handle k⟩
  | close => exact ⟨h, C.close _⟩
  | feed piece =>
    cases hclosed : x.decoder.closed with
    | some r =>
      rw [Call.perform, feed_of_closed (by rw [hclosed]; rfl)]
      exact ⟨h, C⟩
    | none =>
      obtain ⟨h', C'⟩ := (C.read (x.decoder.reader.feed piece).reader).rows hclosed
        (x.decoder.reader.feed piece).rows
      rw [Call.perform, feed_of_open hclosed]
      cases (x.decoder.reader.feed piece).fault with
      | none => exact ⟨h', C'⟩
      | some f => exact ⟨h', C'.close _⟩

end Course

/-- What stands in a queue between calls has not settled at its front. -/
theorem Decoder.Idle.takeWhile_queue (I : d.Idle) (hopen : d.closed = none) {id : Nat} {c : CellId}
    {queue : List StreamEntry} (hline : d.line? id = some (c, queue)) :
    (queue.takeWhile fun e => (e.event? d).isSome) = [] := by
  obtain ⟨rows, reader, hist, R⟩ := I.rests hopen
  obtain ⟨st, hst, heq⟩ := Option.map_eq_some_iff.mp hline
  obtain ⟨-, rfl⟩ := Prod.mk.inj heq
  cases hqueue : st.queue with
  | nil => rfl
  | cons front rest =>
    obtain ⟨-, front', rest', j, hqueue', hfront, hwaits⟩ :=
      (R.tidy.stuck rfl rfl R.wake).front _ (Orderly.mem_of_stream? hst)
        (by rw [hqueue]; exact List.cons_ne_nil _ _)
    obtain ⟨rfl, rfl⟩ := List.cons.inj (hqueue.symm.trans hqueue')
    exact List.takeWhile_cons_of_neg
      (by rw [StreamEntry.event?_of_waitsFor? hfront hwaits]; exact Bool.false_ne_true)

/-- **Streams deliver in the order of arrival.** At every moment between calls, what was pushed to
the stream of an id are the events of what came for it, up to the first thing that has not settled
and up to the first event that ends the stream; if the decoder was closed before that, its reason
comes last. -/
theorem streams_keep_arrival_order {options : DecoderOptions} {id : Nat} {x : Decoding}
    {h : Hearing} (hloader : options.loader.Discreet) (C : Course options id x (some h)) :
    x.decoder.status? id = some (.fulfilled (.cell h.stream)) ∧
    (∃ source, x.store.stream? h.stream = some source ∧
      h.taken ++ source.buffer = concluded x.decoder.closed (delivered x.decoder h.came)) ∧
    ∀ call : Call, ∃ h', Course options id (call.perform x) (some h') := by
  obtain ⟨O, I⟩ := C.marshalled hloader
  have A := O.abreast h rfl
  obtain ⟨source, hsource, Q⟩ := A.standing
  refine ⟨A.value, ⟨source, hsource, ?_⟩, C.perform⟩
  cases Q with
  | running done rest came pushed going isOpen line unclosed =>
    rw [came, pushed.delivered_append, I.takeWhile_queue unclosed line, List.filterMap_nil,
      upToEnd_append going, unclosed]
    exact (List.append_nil _).symm
  | ended done rest events last came pushed going terminal all shut line =>
    rw [all, came, pushed.delivered_append, List.append_assoc, upToEnd_append going,
      List.cons_append, upToEnd, if_pos terminal, concluded_of_terminal (by simp) terminal]
  | cut events r because pushed going all line =>
    have hdelivered : delivered x.decoder h.came = events := by
      rw [← List.append_nil h.came, pushed.delivered_append, List.takeWhile_nil, List.filterMap_nil,
        upToEnd_append going]
      exact List.append_nil _
    rw [all, because, hdelivered, concluded_of_going going]

/-- A loader that only makes cells. -/
theorem discreet_standard : Loader.standard.Discreet := fun _ s => .alloc s _

/-- A stream has opened. -/
def openedStream : Decoding :=
  (takeRow ⟨1, RowTag.tag (.stream .asyncIterable), []⟩ ⟨.create {}, {}⟩).2

/-- An item refers to a row that has not come, and another item is there. -/
def blockedStream : Decoding :=
  (takeRow ⟨1, RowTag.text.tag, utf8 "b"⟩ (takeRow ⟨1, 0, utf8 "\"$2\""⟩ openedStream).2).2

/-- Nothing is delivered before the row of the first item comes, and then both items are. -/
theorem streams_keep_arrival_order_blocked :
    (blockedStream.store.stream? 1).map (·.buffer.length) = some 0 ∧
    ∃ h : Hearing, h.stream = 1 ∧ h.came.length = 2 ∧
      ((takeRow ⟨2, 0, utf8 "\"a\""⟩ blockedStream).2.store.stream? h.stream).map
        (·.buffer.length) = some 2 ∧
      ∃ source, (takeRow ⟨2, 0, utf8 "\"a\""⟩ blockedStream).2.store.stream? h.stream =
        some source ∧ h.taken ++ source.buffer =
        concluded (takeRow ⟨2, 0, utf8 "\"a\""⟩ blockedStream).2.decoder.closed
          (delivered (takeRow ⟨2, 0, utf8 "\"a\""⟩ blockedStream).2.decoder h.came) := by
  have C₀ : Course {} 1 openedStream _ := .opens _ (.start {}) rfl rfl ⟨rfl, by decide +kernel⟩
  have hopen : openedStream.decoder.closed = none := Option.isNone_iff_eq_none.mp
    (by decide +kernel)
  have C₁ := C₀.row ⟨1, 0, utf8 "\"$2\""⟩ hopen (by rintro ⟨⟩)
  have C₂ : Course {} 1 blockedStream _ := C₁.row ⟨1, RowTag.text.tag, utf8 "b"⟩
    ((takeRow_blind _ _).1.trans hopen) (by rintro ⟨⟩)
  have C₃ := C₂.row ⟨2, 0, utf8 "\"a\""⟩ (Option.isNone_iff_eq_none.mp (by decide +kernel))
    (by rintro ⟨⟩)
  exact ⟨by decide +kernel, _, by decide +kernel, by decide +kernel, by decide +kernel,
    (streams_keep_arrival_order discreet_standard C₃).2.1⟩

end GraphRows
