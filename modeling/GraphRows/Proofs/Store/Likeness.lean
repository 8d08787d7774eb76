import Mathlib
import GraphRows.Encoder.Render

/-!
# Stores that differ in what errors say

Two stores are akin if they are the same but for the errors in them: where one has an error, as the
outcome of a promise, in the buffer of a stream, in a message to an encoder or as the reason of a
cancellation, the other has a corresponding one. Which errors correspond is a parameter, `D`. A wish
to postpone is no error, and the same in both. What was noted may be anything, since nothing in this
library reads it.

Every operation on stores that an encoder uses does the same to akin stores. None of them looks into
an error, so nothing has to be known of `D`.

## Main results

* `Store.Akin.settle`, `Store.Akin.andThen`: promises
* `Store.Akin.push`, `Store.Akin.next`, `Store.Akin.cancel`, `Store.Akin.subscribe`: streams
-/

namespace GraphRows

/-! ### Data -/

section Data

variable (D : Cause → Cause → Prop)

/-- Reasons that correspond. -/
inductive Rejection.Akin : Rejection → Rejection → Prop
  | error {c c' : Cause} (h : D c c') : Akin (.error c) (.error c')
  | postpone (reason : String) : Akin (.postpone reason) (.postpone reason)

/-- Outcomes that correspond. -/
inductive Outcome.Akin : Outcome → Outcome → Prop
  | ok (v : Value) : Akin (.ok v) (.ok v)
  | error {r r' : Rejection} (h : r.Akin D r') : Akin (.error r) (.error r')

/-- Results of a thunk that correspond. -/
inductive Forced.Akin : Except Interrupt Value → Except Interrupt Value → Prop
  | ok (v : Value) : Akin (.ok v) (.ok v)
  | suspend (promise : CellId) : Akin (.error (.suspend promise)) (.error (.suspend promise))
  | throw {r r' : Rejection} (h : r.Akin D r') : Akin (.error (.throw r)) (.error (.throw r'))

/-- Events of a stream that correspond. -/
inductive StreamEvent.Akin : StreamEvent → StreamEvent → Prop
  | item (v : Value) : Akin (.item v) (.item v)
  | close (returned : Option Value) : Akin (.close returned) (.close returned)
  | error {r r' : Rejection} (h : r.Akin D r') : Akin (.error r) (.error r')

/-- Messages that correspond. -/
inductive Ping.Akin : Ping → Ping → Prop
  | retry (task : Nat) : Akin (.retry task) (.retry task)
  | fulfilled (task : Nat) (v : Value) : Akin (.fulfilled task v) (.fulfilled task v)
  | rejected (task : Nat) {r r' : Rejection} (h : r.Akin D r') :
    Akin (.rejected task r) (.rejected task r')
  | stream (task : Nat) : Akin (.stream task) (.stream task)

/-- Promises that correspond. -/
inductive Promise.Akin : Promise → Promise → Prop
  | mk {o o' : Option Outcome} (h : Option.Rel (Outcome.Akin D) o o') (callbacks : List Callback)
      (bells : List Nat) : Akin ⟨o, callbacks, bells⟩ ⟨o', callbacks, bells⟩

/-- Streams that correspond. -/
inductive Stream.Akin : Stream → Stream → Prop
  | mk (kind : StreamKind) {buffer buffer' : List StreamEvent}
      (hbuffer : List.Forall₂ (StreamEvent.Akin D) buffer buffer')
      (finished terminated : Bool) (returned : Option Value)
        {cancelled cancelled' : Option Rejection}
      (hcancelled : Option.Rel (Rejection.Akin D) cancelled cancelled') (locked : Bool)
        (subscriber : Option (Nat × Nat))
      (bell : Option Nat) :
      Akin ⟨kind, buffer, finished, terminated, returned, cancelled, locked, subscriber, bell⟩
        ⟨kind, buffer', finished, terminated, returned, cancelled', locked, subscriber, bell⟩

/-- Whether a cell can hold no error. -/
def Cell.isPlain : Cell → Bool
  | .promise _ | .stream _ => false
  | _ => true

/-- Cells that correspond. -/
inductive Cell.Akin : Cell → Cell → Prop
  | promise {p p' : Promise} (h : p.Akin D p') : Akin (.promise p) (.promise p')
  | stream {st st' : Stream} (h : st.Akin D st') : Akin (.stream st) (.stream st')
  | plain {c : Cell} (h : c.isPlain = true) : Akin c c

/-- Mailboxes that correspond. -/
structure Mailbox.Akin (m m' : Mailbox) : Prop where
  pings : List.Forall₂ (Ping.Akin D) m.pings m'.pings
  bell : m.bell = m'.bell

end Data

/-- Arrays whose entries are related one by one. -/
structure Pointwise {α β : Type} (R : α → β → Prop) (xs : Array α) (ys : Array β) : Prop where
  size : xs.size = ys.size
  get? (i : Nat) : Option.Rel R xs[i]? ys[i]?

namespace Pointwise

variable {α β : Type} {R : α → β → Prop} {xs : Array α} {ys : Array β}

theorem push (h : Pointwise R xs ys) {a : α} {b : β} (hab : R a b) :
    Pointwise R (xs.push a) (ys.push b) := by
  refine ⟨by rw [Array.size_push, Array.size_push, h.size], fun i => ?_⟩
  rw [Array.getElem?_push, Array.getElem?_push, h.size]
  split
  · exact .some hab
  · exact h.get? i

theorem set (h : Pointwise R xs ys) (i : Nat) {a : α} {b : β} (hab : R a b) :
    Pointwise R (xs.setIfInBounds i a) (ys.setIfInBounds i b) := by
  refine ⟨by rw [Array.size_setIfInBounds, Array.size_setIfInBounds, h.size], fun j => ?_⟩
  rw [Array.getElem?_setIfInBounds, Array.getElem?_setIfInBounds, h.size]
  split
  · split
    · exact .some hab
    · exact .none
  · exact h.get? j

theorem modify (h : Pointwise R xs ys) (i : Nat) {f : α → α} {g : β → β}
    (hfg : ∀ a b, R a b → R (f a) (g b)) : Pointwise R (xs.modify i f) (ys.modify i g) := by
  refine ⟨by rw [Array.size_modify, Array.size_modify, h.size], fun j => ?_⟩
  rw [Array.getElem?_modify, Array.getElem?_modify]
  have hj := h.get? j
  split
  · revert hj
    generalize xs[j]? = a, ys[j]? = b
    rintro (hab | -)
    · exact .some (hfg _ _ hab)
    · exact .none
  · exact hj

end Pointwise

/-! ### Stores -/

/-- Stores that are the same but for corresponding errors, and for what was noted. -/
structure Store.Akin (D : Cause → Cause → Prop) (s s' : Store) : Prop where
  cells : Pointwise (Cell.Akin D) s.cells s'.cells
  mailboxes : Pointwise (Mailbox.Akin D) s.mailboxes s'.mailboxes
  sinks : s.sinks = s'.sinks
  bells : s.bells = s'.bells
  slots : s.slots = s'.slots
  temporaries : s.temporaries = s'.temporaries
  names : s.names = s'.names

namespace Store.Akin

variable {D : Cause → Cause → Prop} {s s' : Store}

theorem cell? (h : s.Akin D s') (c : CellId) : Option.Rel (Cell.Akin D) (s.cell? c) (s'.cell? c) :=
  h.cells.get? c

theorem cellOf? (h : s.Akin D s') (v : Value) :
    Option.Rel (Cell.Akin D) (s.cellOf? v) (s'.cellOf? v) := by
  cases v with
  | cell c => exact h.cell? c
  | _ => exact .none

theorem promise? (h : s.Akin D s') (c : CellId) :
    Option.Rel (Promise.Akin D) (s.promise? c) (s'.promise? c) := by
  rw [Store.promise?, Store.promise?]
  have hc := h.cell? c
  revert hc
  generalize s.cell? c = a, s'.cell? c = b
  rintro (@⟨_, _, hc⟩ | -)
  · cases hc with
    | promise hp => exact .some hp
    | stream _ => exact .none
    | plain hplain =>
      rename_i cell
      cases cell with
      | promise _ => cases hplain
      | _ => exact .none
  · exact .none

theorem stream? (h : s.Akin D s') (c : CellId) :
    Option.Rel (Stream.Akin D) (s.stream? c) (s'.stream? c) := by
  rw [Store.stream?, Store.stream?]
  have hc := h.cell? c
  revert hc
  generalize s.cell? c = a, s'.cell? c = b
  rintro (@⟨_, _, hc⟩ | -)
  · cases hc with
    | promise _ => exact .none
    | stream hst => exact .some hst
    | plain hplain =>
      rename_i cell
      cases cell with
      | stream _ => cases hplain
      | _ => exact .none
  · exact .none

theorem outcome? (h : s.Akin D s') (c : CellId) :
    Option.Rel (Outcome.Akin D) (s.outcome? c) (s'.outcome? c) := by
  rw [Store.outcome?, Store.outcome?]
  have hp := h.promise? c
  revert hp
  generalize s.promise? c = a, s'.promise? c = b
  rintro (⟨ho, callbacks, bells⟩ | -)
  · exact ho
  · exact .none

theorem temporaryId? (h : s.Akin D s') (set : Nat) (v : Value) :
    s.temporaryId? set v = s'.temporaryId? set v := by
  rw [Store.temporaryId?, Store.temporaryId?, Store.temporarySet, Store.temporarySet, h.temporaries]

theorem note (h : s.Akin D s') (e e' : Event) : (s.note e).Akin D (s'.note e') :=
  ⟨h.cells, h.mailboxes, h.sinks, h.bells, h.slots, h.temporaries, h.names⟩

theorem ring (h : s.Akin D s') (bell : Nat) : (s.ring bell).Akin D (s'.ring bell) :=
  ⟨h.cells, h.mailboxes, h.sinks, by rw [Store.ring, Store.ring,
    h.bells], h.slots, h.temporaries, h.names⟩

theorem write (h : s.Akin D s') (id : CellId) {c c' : Cell} (hc : c.Akin D c') :
    (s.write id c).Akin D (s'.write id c') :=
  ⟨h.cells.set id hc, h.mailboxes, h.sinks, h.bells, h.slots, h.temporaries, h.names⟩

theorem make (h : s.Akin D s') {c c' : Cell} (hc : c.Akin D c') :
    (s.make c).1 = (s'.make c').1 ∧ (s.make c).2.Akin D (s'.make c').2 :=
  ⟨congrArg Value.cell h.cells.size,
    h.cells.push hc, h.mailboxes, h.sinks, h.bells, h.slots, h.temporaries, h.names⟩

theorem setSink (h : s.Akin D s') (i : Nat) (sink : Sink) :
    (s.setSink i sink).Akin D (s'.setSink i sink) :=
  ⟨h.cells, h.mailboxes, by rw [Store.setSink, Store.setSink,
    h.sinks], h.bells, h.slots, h.temporaries, h.names⟩

theorem sink (h : s.Akin D s') (i : Nat) : s.sink i = s'.sink i := by
  rw [Store.sink, Store.sink, h.sinks]

/-! #### Mailboxes and slots -/

theorem setMailbox (h : s.Akin D s') (i : Nat) {m m' : Mailbox} (hm : m.Akin D m') :
    { s with mailboxes := s.mailboxes.setIfInBounds i m }.Akin D
      { s' with mailboxes := s'.mailboxes.setIfInBounds i m' } :=
  ⟨h.cells, h.mailboxes.set i hm, h.sinks, h.bells, h.slots, h.temporaries, h.names⟩

theorem newMailbox (h : s.Akin D s') :
    s.newMailbox.1 = s'.newMailbox.1 ∧ s.newMailbox.2.Akin D s'.newMailbox.2 :=
  ⟨h.mailboxes.size, h.cells, h.mailboxes.push ⟨.nil, rfl⟩, h.sinks, h.bells, h.slots,
    h.temporaries, h.names⟩

theorem post (h : s.Akin D s') (mailbox : Nat) {p p' : Ping} (hp : p.Akin D p') :
    (s.post mailbox p).Akin D (s'.post mailbox p') := by
  rw [Store.post, Store.post]
  have hm := h.mailboxes.get? mailbox
  revert hm
  generalize s.mailboxes[mailbox]? = a, s'.mailboxes[mailbox]? = b
  rintro (@⟨m, m', hm⟩ | -)
  · have hadded : Mailbox.Akin D ⟨m.pings ++ [p], none⟩ ⟨m'.pings ++ [p'], none⟩ :=
      ⟨List.rel_append hm.pings (.cons hp .nil), rfl⟩
    have hset := h.setMailbox mailbox hadded
    dsimp only
    rw [← hm.bell]
    cases m.bell with
    | none => exact hset
    | some bell => exact hset.ring bell
  · exact h

theorem receive (h : s.Akin D s') (mailbox : Nat) :
    Option.Rel (Ping.Akin D) (s.receive mailbox).1 (s'.receive mailbox).1 ∧
      (s.receive mailbox).2.Akin D (s'.receive mailbox).2 := by
  rw [Store.receive, Store.receive]
  have hm := h.mailboxes.get? mailbox
  revert hm
  generalize s.mailboxes[mailbox]? = a, s'.mailboxes[mailbox]? = b
  rintro (@⟨⟨pings, bell⟩, ⟨pings', bell'⟩, hm⟩ | -)
  · obtain ⟨hpings, hbell⟩ := hm
    cases hpings with
    | nil => exact ⟨.none, h⟩
    | cons hp hrest => exact ⟨.some hp, h.setMailbox mailbox ⟨hrest, hbell⟩⟩
  · exact ⟨.none, h⟩

theorem clearMailbox (h : s.Akin D s') (mailbox : Nat) :
    (s.clearMailbox mailbox).Akin D (s'.clearMailbox mailbox) := by
  have hmailboxes := h.mailboxes.modify mailbox (f := fun m => { m with pings := [] })
    (g := fun m => { m with pings := [] }) fun _ _ hm => ⟨.nil, hm.bell⟩
  exact ⟨h.cells, hmailboxes, h.sinks, h.bells, h.slots, h.temporaries, h.names⟩

theorem setSlots (h : s.Akin D s') (slots : Array Bool) :
    { s with slots }.Akin D { s' with slots } :=
  ⟨h.cells, h.mailboxes, h.sinks, h.bells, rfl, h.temporaries, h.names⟩

theorem newSlot (h : s.Akin D s') :
    s.newSlot.1 = s'.newSlot.1 ∧ s.newSlot.2.Akin D s'.newSlot.2 := by
  rw [Store.newSlot, Store.newSlot, h.slots]
  exact ⟨rfl, h.setSlots _⟩

theorem freeSlot (h : s.Akin D s') (slot : Nat) : (s.freeSlot slot).Akin D (s'.freeSlot slot) := by
  rw [Store.freeSlot, Store.freeSlot, h.slots]
  exact h.setSlots _

/-- A slot that is taken in one store is taken in the other. -/
theorem takeSlot (h : s.Akin D s') (slot : Nat) :
    (∃ f, s.takeSlot slot = .error f ∧ s'.takeSlot slot = .error f) ∨
      ∃ t t', s.takeSlot slot = .ok t ∧ s'.takeSlot slot = .ok t' ∧ t.Akin D t' := by
  rw [Store.takeSlot, Store.takeSlot, Store.isHeld, Store.isHeld, h.slots]
  split
  · exact .inl ⟨_, rfl, rfl⟩
  · exact .inr ⟨_, _, rfl, rfl, h.setSlots _⟩

/-! #### Promises -/

theorem foldl {α : Type} {f g : Store → α → Store}
    (hfg : ∀ t t' a, t.Akin D t' → (f t a).Akin D (g t' a)) (h : s.Akin D s') (l : List α) :
    (l.foldl f s).Akin D (l.foldl g s') := by
  induction l generalizing s s' with
  | nil => exact h
  | cons a l ih => exact ih (hfg s s' a h)

theorem callWith {settle settle' : CellId → Outcome → Store → Store} {o o' : Outcome}
    (hsettle : ∀ q (t t' : Store), t.Akin D t' → (settle q o t).Akin D (settle' q o' t'))
    (h : s.Akin D s') (c : Callback) (ho : Outcome.Akin D o o') :
    (Store.callWith settle c o s).Akin D (Store.callWith settle' c o' s') := by
  cases c with
  | retry mailbox task => exact h.post mailbox (.retry task)
  | deliver mailbox task =>
    cases ho with
    | ok v => exact h.post mailbox (.fulfilled task v)
    | error hr => exact h.post mailbox (.rejected task hr)
  | observe label forward =>
    have hnote := h.note (.settled label (s.reportOutcome o)) (.settled label (s'.reportOutcome o'))
    simp only [Store.callWith, Store.named?, hnote.names]
    split
    · exact hsettle _ _ _ hnote
    · exact hnote

theorem settleWith (fuel : Nat) (h : s.Akin D s') (id : CellId) {o o' : Outcome}
    (ho : Outcome.Akin D o o') :
    (Store.settleWith fuel id o s).1 = (Store.settleWith fuel id o' s').1 ∧
      (Store.settleWith fuel id o s).2.Akin D (Store.settleWith fuel id o' s').2 := by
  induction fuel generalizing s s' id with
  | zero => exact ⟨rfl, h⟩
  | succ fuel ih =>
    rw [Store.settleWith, Store.settleWith]
    have hp := h.promise? id
    revert hp
    generalize s.promise? id = a, s'.promise? id = b
    rintro (@⟨_, _, ⟨hout, callbacks, bells⟩⟩ | -)
    · cases hout with
      | some _ => exact ⟨rfl, h⟩
      | none =>
        have hwritten := h.write id (.promise (.mk (.some ho) [] []))
        refine ⟨rfl, foldl (fun _ _ bell ht => ht.ring bell)
          (foldl (fun t t' c ht => ?_) hwritten callbacks) bells⟩
        exact ht.callWith (fun q _ _ hu => (ih hu q).2) c ho
    · exact ⟨rfl, h⟩

/-- **Settling a promise** with corresponding outcomes. -/
theorem settle (h : s.Akin D s') (id : CellId) {o o' : Outcome} (ho : Outcome.Akin D o o') :
    (s.settle id o).1 = (s'.settle id o').1 ∧ (s.settle id o).2.Akin D (s'.settle id o').2 := by
  rw [Store.settle, Store.settle, h.cells.size]
  exact h.settleWith _ id ho

theorem andThen (h : s.Akin D s') (id : CellId) (c : Callback) :
    (s.andThen id c).Akin D (s'.andThen id c) := by
  rw [Store.andThen, Store.andThen]
  have hp := h.promise? id
  revert hp
  generalize s.promise? id = a, s'.promise? id = b
  rintro (@⟨_, _, ⟨hout, callbacks, bells⟩⟩ | -)
  · cases hout with
    | some ho => exact h.callWith (fun q _ _ ht => (ht.settle q ho).2) c ho
    | none => exact h.write id (.promise (.mk .none _ bells))
  · exact h

/-! #### Streams -/

theorem isTerminal_eq {e e' : StreamEvent} (he : e.Akin D e') : e.isTerminal = e'.isTerminal := by
  cases he <;> rfl

theorem isSome_eq {α β : Type} {R : α → β → Prop} {a : Option α} {b : Option β}
    (h : Option.Rel R a b) : a.isSome = b.isSome := by
  cases h <;> rfl

/-- **Pushing an event** that corresponds to the other store's. -/
theorem push (h : s.Akin D s') (id : CellId) {e e' : StreamEvent} (he : e.Akin D e') :
    (s.push id e).1 = (s'.push id e').1 ∧ (s.push id e).2.Akin D (s'.push id e').2 := by
  rw [Store.push, Store.push]
  have hst := h.stream? id
  revert hst
  generalize s.stream? id = a, s'.stream? id = b
  rintro (@⟨_, _, ⟨kind, hbuffer, finished, terminated, returned, hcancelled, locked,
    subscriber, bell⟩⟩ | -)
  · dsimp only
    rw [← isSome_eq hcancelled, isTerminal_eq he]
    split
    · exact ⟨rfl, h⟩
    · have hwritten :=
        h.write id (.stream (.mk kind (List.rel_append hbuffer (.cons he .nil))
          e'.isTerminal terminated
        returned hcancelled locked subscriber none))
      refine ⟨rfl, ?_⟩
      cases subscriber with
      | none =>
        cases bell with
        | none => exact hwritten
        | some bell => exact hwritten.ring bell
      | some subscriber =>
        have hposted := hwritten.post subscriber.1 (.stream subscriber.2)
        cases bell with
        | none => exact hposted
        | some bell => exact hposted.ring bell
  · exact ⟨rfl, h⟩

/-- **Cancelling a stream** with a corresponding reason. -/
theorem cancel (h : s.Akin D s') (id : CellId) {r r' : Rejection} (hr : r.Akin D r') :
    (s.cancel id r).Akin D (s'.cancel id r') := by
  rw [Store.cancel, Store.cancel]
  have hst := h.stream? id
  revert hst
  generalize s.stream? id = a, s'.stream? id = b
  rintro (@⟨_, _, ⟨kind, hbuffer, finished, terminated, returned, hcancelled, locked,
    subscriber, bell⟩⟩ | -)
  · dsimp only
    rw [← isSome_eq hcancelled]
    split
    · exact h
    · exact h.write id (.stream (.mk kind .nil finished terminated returned (.some hr)
        locked none bell))
  · exact h

theorem next (h : s.Akin D s') (id : CellId) :
    Option.Rel (StreamEvent.Akin D) (s.next id).1 (s'.next id).1 ∧
      (s.next id).2.Akin D (s'.next id).2 := by
  rw [Store.next, Store.next]
  have hst := h.stream? id
  revert hst
  generalize s.stream? id = a, s'.stream? id = b
  rintro (@⟨_, _, ⟨kind, hbuffer, finished, terminated, returned, hcancelled, locked,
    subscriber, bell⟩⟩ | -)
  · cases hbuffer with
    | nil => exact ⟨.none, h⟩
    | cons he hrest =>
      refine ⟨.some he, h.write id (.stream ?_)⟩
      cases he with
      | item v =>
        exact .mk kind hrest finished terminated returned hcancelled locked subscriber bell
      | close v => exact .mk kind hrest finished true v hcancelled locked subscriber bell
      | error hr => exact .mk kind hrest finished true returned hcancelled locked subscriber bell
  · exact ⟨.none, h⟩

/-- A stream is free to be subscribed to in one store if it is in the other. -/
theorem subscribe (h : s.Akin D s') (id : CellId) (mailbox task : Nat) :
    (s.subscribe id mailbox task = .error .streamLocked ∧ s'.subscribe id mailbox task =
      .error .streamLocked) ∨ ∃ t t', s.subscribe id mailbox task = .ok t ∧
      s'.subscribe id mailbox task = .ok t' ∧ t.Akin D t' := by
  rw [Store.subscribe, Store.subscribe]
  have hst := h.stream? id
  revert hst
  generalize s.stream? id = a, s'.stream? id = b
  rintro (@⟨_, _, ⟨kind, hbuffer, finished, terminated, returned, hcancelled, locked,
    subscriber, bell⟩⟩ | -)
  · cases locked with
    | true => exact .inl ⟨rfl, rfl⟩
    | false =>
      have hwritten :=
        h.write id (.stream (.mk kind hbuffer finished terminated returned hcancelled true
        (some (mailbox, task)) bell))
      refine .inr ⟨_, _, rfl, rfl, ?_⟩
      cases hbuffer with
      | nil => exact hwritten
      | cons _ _ => exact hwritten.post mailbox (.stream task)
  · exact .inr ⟨_, _, rfl, rfl, h⟩

/-! #### Arrays for collections -/

theorem pairArrays (entries : List (Value × Value)) (h : s.Akin D s') :
    (Render.pairArrays entries s).1 = (Render.pairArrays entries s').1 ∧
      (Render.pairArrays entries s).2.Akin D (Render.pairArrays entries s').2 := by
  induction entries generalizing s s' with
  | nil => exact ⟨rfl, h⟩
  | cons entry entries ih =>
    obtain ⟨hpair, hmade⟩ := h.make (.plain (c := .array [entry.1, entry.2]) rfl)
    obtain ⟨hpairs, hrest⟩ := ih hmade
    exact ⟨congrArg₂ _ hpair hpairs, hrest⟩

theorem makeArray (h : s.Akin D s') {items items' : List Value} (hitems : items = items') :
    (s.make (.array items)).1 = (s'.make (.array items')).1 ∧
      (s.make (.array items)).2.Akin D (s'.make (.array items')).2 := by
  subst hitems
  exact h.make (.plain rfl)

theorem entriesArray (c : Cell) (h : s.Akin D s') :
    (Render.entriesArray c s).1 = (Render.entriesArray c s').1 ∧
      (Render.entriesArray c s).2.Akin D (Render.entriesArray c s').2 := by
  cases c with
  | map entries =>
    obtain ⟨hpairs, hmade⟩ := h.pairArrays entries
    exact hmade.makeArray hpairs
  | form entries => exact (h.pairArrays _).2.makeArray (h.pairArrays _).1
  | blob mime bytes =>
    obtain ⟨hdata, hmade⟩ := h.make (.plain (c := .binary ⟨.uint8, bytes⟩) rfl)
    exact hmade.makeArray (congrArg (fun data => [Value.string mime, data]) hdata)
  | _ => exact h.makeArray rfl

end Store.Akin

end GraphRows
