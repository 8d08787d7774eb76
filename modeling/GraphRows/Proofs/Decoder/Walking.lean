import GraphRows.Proofs.Decoder.Places

/-!
# Habits of a decoder

Some things hold of whatever a decoder does: it does not look at the reader, it leaves the notes of
others alone, what has settled stays. To show such a thing it is enough to look at the simple steps,
provided that it holds of two steps one after the other if it holds of each. `Habit P` says the
latter; the theorems here go through the work of a decoder once for all habits and ask for the
simple steps of each part: for reading a model (`Reads`), for filling a hole, for delivering to a
stream, and for acting on a row (`Acts`).

## Main results

* `DecodeM.Speaks.revive`: a habit while a row is read
* `DecodeM.Habit.fillHole`, `DecodeM.Habit.deliverWith`: a habit while watchers run
* `DecodeM.Acts.takeRow`: a habit of acting on rows
-/

namespace GraphRows

namespace Decoder

variable (d : Decoder) (r : RowReader)

theorem waitsOnFrom_reading (target : Nat) (fuel : Nat) (stack seen : List Nat) :
    ({ d with reader := r } : Decoder).waitsOnFrom target fuel stack seen =
      d.waitsOnFrom target fuel stack seen := by
  induction fuel generalizing stack seen with
  | zero => cases stack <;> rfl
  | succ fuel ih =>
    cases stack with
    | nil => rfl
    | cons i stack =>
      simp only [waitsOnFrom, ih]
      rfl

theorem waitsOn_reading (i target : Nat) :
    ({ d with reader := r } : Decoder).waitsOn i target = d.waitsOn i target :=
  congrArg (·.getD false) (waitsOnFrom_reading d r target _ _ _)

theorem eventOf_reading (e : StreamEntry) :
    DecodeM.eventOf { d with reader := r } e = DecodeM.eventOf d e := by
  rcases e with _ | _ | (_ | _) | _ <;> rfl

end Decoder

open Decoder

namespace DecodeM

/-- A property of steps that holds of two, one after the other, if it holds of each. What follows
may look at all of the decoder but the reader. -/
structure Habit (P : ∀ α : Type, DecodeM α → Prop) : Prop where
  pure : ∀ {α : Type} (a : α), P α (Pure.pure a)
  bind : ∀ {α β : Type} {m : DecodeM α} {f : α → DecodeM β}, P α m →
    (∀ a, P β (f a)) → P β (m >>= f)
  decoder : ∀ {α : Type} {f : Decoder → DecodeM α}, (∀ d, P α (f d)) →
    (∀ d r, f { d with reader := r } = f d) → P α (DecodeM.decoder >>= f)
  store : P Store DecodeM.store

/-- To keep a property of states is a habit. -/
theorem habit_ensures (I : Decoding → Prop) : Habit fun _ m => Ensures I m fun _ => I where
  pure _ := .pure fun _ h => h
  bind := .bind
  decoder h _ := .read h
  store _ h := h

variable {P : ∀ α : Type, DecodeM α → Prop} {α β : Type}

namespace Habit

theorem forM (H : Habit P) {f : β → DecodeM Unit} (hf : ∀ b, P Unit (f b)) (l : List β) :
    P Unit (l.forM f) := by
  induction l with
  | nil => exact H.pure ()
  | cons b l ih => exact H.bind (hf b) fun _ => ih

/-! ### Entries -/

theorem newEntry (H : Habit P) (halloc : P CellId (onStore Store.newPromise))
    (hsettle : ∀ c o, P Unit (modifyStore fun s => (s.settle c o).2))
    (hpush : ∀ e, P Unit (modifyDecoder fun d => { d with entries := d.entries.push e }))
    (state : EntryState) : P Nat (newEntry state) := by
  have pushed : ∀ handle, P Nat (do
      let index := (← DecodeM.decoder).entries.size
      modifyDecoder fun d => { d with entries := d.entries.push { state, handle } }
      return index) := fun handle => H.decoder (fun d => H.bind (hpush _) fun _ =>
        H.pure _) fun _ _ => rfl
  unfold DecodeM.newEntry
  refine H.bind halloc fun handle => ?_
  cases state with
  | fulfilled v => exact H.bind (hsettle _ _) fun _ => pushed handle
  | rejected r => exact H.bind (hsettle _ _) fun _ => pushed handle
  | _ => exact pushed handle

theorem entryOf (H : Habit P) (hnew : ∀ state, P Nat (DecodeM.newEntry state))
    (hids : ∀ id i, P Unit (modifyDecoder fun d => { d with ids := (id, i) :: d.ids })) (id : Nat) :
    P Nat (entryOf id) := by
  unfold DecodeM.entryOf
  refine H.decoder (fun d => ?_) fun _ _ => rfl
  split
  · exact H.pure _
  · exact H.bind (hnew _) fun i => H.bind (hids _ _) fun _ => H.pure _

theorem openRow? (H : Habit P) (hentry : ∀ id, P Nat (DecodeM.entryOf id)) (id : Nat) :
    P (Option Nat) (openRow? id) :=
  H.bind (hentry id) fun _ => H.decoder (fun _ => H.pure _) fun _ _ => rfl

theorem settleEntry (H : Habit P) (hentry : ∀ i f, P Unit (modifyDecoder (·.modifyEntry i f)))
    (hsettle : ∀ c o, P Unit (modifyStore fun s => (s.settle c o).2))
    (hwake : ∀ i, P Unit (modifyDecoder fun d => { d with wake := d.wake ++ [i] })) (i : Nat)
    (o : Outcome) : P Unit (settleEntry i o) := by
  unfold DecodeM.settleEntry
  refine H.decoder (fun d => ?_) fun _ _ => rfl
  dsimp only
  split
  · exact H.pure _
  · exact H.bind (hentry _ _) fun _ => H.bind (hsettle _ _) fun _ => hwake _

/-! ### References -/

theorem resolve (H : Habit P)
    (hmake : ∀ s shape v c, Store.shaped s shape v = .ok c → P Value (onStore (·.make c)))
    (hderived : ∀ key made, P Unit (modifyDecoder
      fun d => { d with derived := (key, made) :: d.derived }))
    (index : Nat) (v : Value) (path : List String) (shape : Shape) :
    P Outcome (resolve index v path shape) := by
  unfold DecodeM.resolve
  refine H.bind H.store fun s => ?_
  split
  · exact H.pure _
  · split
    · exact H.pure _
    · refine H.decoder (fun d => ?_) fun _ _ => rfl
      split
      · exact H.pure _
      · refine H.bind H.store fun s => ?_
        split
        · exact H.pure _
        · rename_i hc
          exact H.bind (hmake _ _ _ _ hc) fun made => H.bind (hderived _ _) fun _ => H.pure _

theorem partialValue? (H : Habit P) (index : Nat) (path : List String) (shape : Shape)
    (hole : Hole) : P (Option Value) (partialValue? index path shape hole) := by
  unfold DecodeM.partialValue?
  split
  · refine H.bind H.store fun s => H.decoder (fun d => ?_) fun _ _ => rfl
    split <;> exact H.pure _
  · exact H.pure _

theorem leaveHole (H : Habit P) {target : Nat}
    (hdraft : ∀ f, P Unit (modifyDecoder (·.modifyDraft target f)))
    (hwatch : ∀ i hole path shape cyclic,
      P Unit (modifyDecoder (·.modifyEntry i fun e =>
      { e with watchers := e.watchers ++ [.hole target hole path shape cyclic] })))
    (index : Nat) (path : List String) (shape : Shape) (hole : Hole) (cyclic : Bool) :
    P Outcome (leaveHole target index path shape hole cyclic) := by
  unfold DecodeM.leaveHole
  split
  · exact H.bind (hdraft _) fun _ => H.bind (hwatch _ _ _ _ _) fun _ => H.pure _
  · exact H.bind (hwatch _ _ _ _ _) fun _ => H.pure _

end Habit

/-- At most a cell is written to, and not with a promise. -/
def Concludes (c : CellId) (m : DecodeM Outcome) : Prop :=
  (∃ o, m = Pure.pure o) ∨ ∃ cell o, (∀ p, cell ≠ .promise p) ∧ m =
    (modifyStore (·.write c cell) >>= fun _ => Pure.pure o)

/-- A habit that holds of the simple steps that are taken while a model is read for the draft of
`target`. -/
structure Reads (P : ∀ α : Type, DecodeM α → Prop) (target : Nat) : Prop extends Habit P where
  entryOf : ∀ id, P Nat (entryOf id)
  resolve : ∀ index v path shape, P Outcome (resolve index v path shape)
  leaveHole : ∀ index path shape hole cyclic,
    P Outcome (leaveHole target index path shape hole cyclic)
  temporary : ∀ set id, P Value (onStore (·.resolveTemporary set id))
  /-- a cell is made, and written to when its parts have been read -/
  container : ∀ {α : Type} {cell : Cell} {m : CellId → DecodeM α}
    {f : CellId → α → DecodeM Outcome},
    (∀ p, cell ≠ .promise p) → (∀ c, P α (m c)) → (∀ c a, Concludes c (f c a)) →
      P Outcome (onStore (·.alloc cell) >>= fun c => m c >>= f c)

namespace Reads

variable {target : Nat}

theorem reference (R : Reads P target) (id : Nat) (path : List String) (shape : Shape)
    (hole : Hole) : P Outcome (reference target id path shape hole) := by
  unfold DecodeM.reference
  refine R.bind (R.entryOf id) fun index => R.decoder (fun d => ?_) fun _ _ => rfl
  split
  · exact R.resolve _ _ _ _
  · exact R.pure _
  · exact R.leaveHole _ _ _ _ _
  · exact R.leaveHole _ _ _ _ _
  · refine R.decoder (fun d => ?_) fun d r => by rw [waitsOn_reading]
    split
    · refine R.bind (R.partialValue? _ _ _ _) fun v => ?_
      split
      · exact R.pure _
      · exact R.leaveHole _ _ _ _ _
    · exact R.leaveHole _ _ _ _ _

end Reads

/-- A habit while a model is read that speaks of rows with `N` only, by value only of those with
`S`. -/
structure Speaks (P : ∀ α : Type, DecodeM α → Prop) (target : Nat) (N S : Nat → Prop) :
    Prop extends Habit P where
  entryOf : ∀ id, N id → P Nat (entryOf id)
  reference : ∀ id path shape hole, N id → S id → P Outcome (reference target id path shape hole)
  temporary : ∀ set id, P Value (onStore (·.resolveTemporary set id))
  container : ∀ {α : Type} {cell : Cell} {m : CellId → DecodeM α}
    {f : CellId → α → DecodeM Outcome},
    (∀ p, cell ≠ .promise p) → (∀ c, P α (m c)) → (∀ c a, Concludes c (f c a)) →
      P Outcome (onStore (·.alloc cell) >>= fun c => m c >>= f c)

namespace Speaks

variable {target : Nat} {N S : Nat → Prop}

theorem reviveToken (R : Speaks P target N S) (hole : Hole) {t : Token}
    (hN : ∀ n, t.row? = some n → N n) (hS : ∀ n, t.referent? = some n → S n) :
    P Outcome (reviveToken target hole t) := by
  cases t with
  | promise id =>
    exact R.bind (R.entryOf id (hN id rfl)) fun i => R.decoder (fun _ => R.pure _) fun _ _ => rfl
  | temporary id =>
    refine R.decoder (fun d => ?_) fun _ _ => rfl
    split
    · exact R.bind (R.temporary _ _) fun _ => R.pure _
    · exact R.pure _
  | row r => exact R.reference _ _ _ _ (hN _ rfl) (hS _ rfl)
  | derived kind id => exact R.reference _ _ _ _ (hN _ rfl) (hS _ rfl)
  | binary kind id => exact R.reference _ _ _ _ (hN _ rfl) (hS _ rfl)
  | _ => exact R.pure _

theorem reviveEach (R : Speaks P target N S) {ps : List (Hole × Json)}
    (h : ∀ p ∈ ps, P Outcome (DecodeM.revive target p.1 p.2)) : P _ (reviveEach target ps) := by
  induction ps with
  | nil => exact R.pure _
  | cons p rest ih =>
    refine R.bind (h p List.mem_cons_self) fun o => ?_
    cases o with
    | error r => exact R.pure _
    | ok v =>
      refine R.bind (ih fun p hp => h p (List.mem_cons_of_mem _ hp)) fun o => ?_
      cases o <;> exact R.pure _

/-- **A habit while a row is read.** -/
theorem revive (R : Speaks P target N S) (hole : Hole) (j : Json) (hN : ∀ n, j.Mentions n → N n)
    (hS : ∀ n ∈ j.referents, S n) : P Outcome (revive target hole j) := by
  induction j using Json.parts_induction generalizing hole with
  | node j hj ih =>
    rw [revive_node target hole hj]
    refine R.container (j.cellWith_ne_promise []) (fun c => R.reviveEach fun p hp => ?_) fun c r =>
      ?_
    · have hpart := Json.snd_mem_parts hp
      exact ih p.2 hpart p.1 (fun n hn => hN n (Json.mentions_of_mem_parts hpart hn))
        fun n hn => hS n (Json.mem_referents_of_mem_parts hpart hn)
    · cases r with
      | error r => exact .inl ⟨_, rfl⟩
      | ok vs => exact .inr ⟨_, _, j.cellWith_ne_promise vs, rfl⟩
  | leaf j hj =>
    cases j with
    | str s =>
      unfold DecodeM.revive
      split
      · rename_i t ht
        exact R.reviveToken hole (fun n hn => hN n ⟨t, ht, hn⟩) fun n hn =>
          hS n (Json.mem_referents_str ht hn)
      · exact R.pure _
    | arr items => cases hj
    | obj fields => cases hj
    | _ => unfold DecodeM.revive; exact R.pure _

end Speaks

theorem Reads.revive {target : Nat} (R : Reads P target) (hole : Hole) (j : Json) :
    P Outcome (revive target hole j) :=
  Speaks.revive (N := fun _ => True) (S := fun _ => True)
    ⟨R.toHabit, fun id _ => R.entryOf id, fun id path shape hole _ _ => R.reference id path shape
      hole, R.temporary, R.container⟩ hole j
    (fun _ _ => trivial) fun _ _ => trivial

namespace Habit

theorem reviveRow (H : Habit P) {i : Nat} (hrevive : ∀ j, P Outcome (DecodeM.revive i .root j))
    (hdraft : ∀ f, P Unit (modifyDecoder (·.modifyDraft i f)))
    (hstate : ∀ state, P Unit (modifyDecoder (·.modifyEntry i ({ · with state }))))
    (hsettle : ∀ o, P Unit (DecodeM.settleEntry i o)) (text : String) :
    P Unit (reviveRow i text) := by
  unfold DecodeM.reviveRow
  split
  · exact hsettle _
  · refine H.bind (hstate _) fun _ => H.bind (hrevive _) fun o => ?_
    split
    · exact H.bind (hdraft _) fun _ => hsettle _
    · refine H.bind (hdraft _) fun _ => H.decoder (fun d => ?_) fun _ _ => rfl
      split
      · exact hsettle _
      · exact hstate _

/-! ### Watchers -/

/-- **A habit while a hole is filled.** -/
theorem fillHole (H : Habit P)
    (hresolve : ∀ index v path shape, P Outcome (DecodeM.resolve index v path shape)) {target : Nat}
    (hdraft : ∀ f, P Unit (modifyDecoder (·.modifyDraft target f)))
    (hsettle : ∀ o, P Unit (DecodeM.settleEntry target o))
    (hfill : ∀ hole v, P Unit (modifyStore (·.fill hole v))) (index : Nat) (hole : Hole)
    (path : List String) (shape : Shape) (cyclic : Bool) :
    P Unit (fillHole index target hole path shape cyclic) := by
  have failed : ∀ r, P Unit (do
      modifyDecoder (·.modifyDraft target ({ · with failed := true }))
      DecodeM.settleEntry target (.error r)) := fun r => H.bind (hdraft _) fun _ => hsettle _
  have filled : ∀ v, P Unit (do
      modifyStore (·.fill hole v)
      if (!cyclic) = true then do
        modifyDecoder (·.modifyDraft target fun t => { t with holes := t.holes - 1 })
        let e := (← DecodeM.decoder).entry target
        if e.draft.holes == 0 && e.state.isBlocked then
          DecodeM.settleEntry target (.ok e.draft.value)) := by
    intro v
    refine H.bind (hfill _ _) fun _ => ?_
    split
    · refine H.bind (hdraft _) fun _ => H.decoder (fun d => ?_) fun _ _ => rfl
      dsimp only
      split
      · exact hsettle _
      · exact H.pure _
    · exact H.pure _
  unfold DecodeM.fillHole
  refine H.decoder (fun d => H.decoder (fun d' => ?_) fun _ _ => rfl) fun _ _ => rfl
  dsimp only
  split
  · exact failed _
  · refine H.bind (hresolve _ _ _ _) fun r => ?_
    cases r with
    | error r => exact failed r
    | ok v =>
      dsimp only
      split
      · exact H.bind (hdraft _) fun _ => filled v
      · exact filled v
  · exact H.pure _

/-- **A habit while a stream is delivered to.** -/
theorem deliverWith (H : Habit P) {id : Nat}
    (hset : ∀ st, P Unit (modifyDecoder (·.setStream id st)))
    (hdrop : P Unit (modifyDecoder (·.dropStream id)))
    (hpush : ∀ c e, P Unit (modifyStore fun s => (s.push c e).2))
    (hwatch : ∀ i,
      P Unit (modifyDecoder (·.modifyEntry i fun e =>
      { e with watchers := e.watchers ++ [.stream id] })))
    (fuel : Nat) : P Unit (deliverWith fuel id) := by
  induction fuel with
  | zero => exact H.pure _
  | succ fuel ih =>
    unfold DecodeM.deliverWith
    refine H.decoder (fun d => ?_) fun d r => ?_
    · split
      · exact H.pure _
      · split
        · exact H.pure _
        · split
          · split
            · exact H.bind (hset _) fun _ => hwatch _
            · exact H.pure _
          · refine H.bind (hset _) fun _ => H.bind (hpush _ _) fun _ => ?_
            split
            · exact hdrop
            · exact ih
    · simp only [eventOf_reading]
      rfl

theorem deliver (H : Habit P) {id : Nat} (hdeliver : ∀ fuel, P Unit (DecodeM.deliverWith fuel id)) :
    P Unit (deliver id) :=
  H.decoder (fun _ => hdeliver _) fun _ _ => rfl

theorem enqueue (H : Habit P) {id : Nat} (hset : ∀ st, P Unit (modifyDecoder (·.setStream id st)))
    (hdeliver : P Unit (DecodeM.deliver id)) (entry : StreamEntry) : P Unit (enqueue id entry) := by
  unfold DecodeM.enqueue
  refine H.decoder (fun d => ?_) fun _ _ => rfl
  split
  · exact H.pure _
  · exact H.bind (hset _) fun _ => hdeliver

theorem takeHint (H : Habit P) (hnote : ∀ h, P Unit (modifyStore (·.note (.hint h))))
    (payload : Bytes) : P Unit (takeHint payload) := by
  unfold DecodeM.takeHint
  refine H.decoder (fun d => ?_) fun _ _ => rfl
  split
  · split
    · exact H.pure _
    · split
      · exact H.pure _
      · split
        · exact hnote _
        · exact H.pure _
  · exact H.pure _

end Habit

/-! ### Rows -/

/-- A habit that holds of all simple steps but those that load modules and note hints. -/
structure Acts (P : ∀ α : Type, DecodeM α → Prop) : Prop extends Habit P where
  /-- nothing but the reader, the options and the end of the decoder is safe from changes -/
  modifyDecoder : ∀ {f : Decoder → Decoder}, (∀ d, (f d).closed = d.closed ∧
    (f d).options = d.options) →
    (∀ d r, f { d with reader := r } = { f d with reader := r }) → P Unit (modifyDecoder f)
  alloc : ∀ c, P CellId (onStore (·.alloc c))
  write : ∀ id c, P Unit (modifyStore (·.write id c))
  make : ∀ c, P Value (onStore (·.make c))
  settle : ∀ c o, P Unit (modifyStore fun s => (s.settle c o).2)
  push : ∀ c e, P Unit (modifyStore fun s => (s.push c e).2)
  fill : ∀ hole v, P Unit (modifyStore (·.fill hole v))
  temporary : ∀ set id, P Value (onStore (·.resolveTemporary set id))

namespace Acts

variable (A : Acts P)
include A

theorem change {f : Decoder → Decoder}
    (h : ∀ d, (f d).closed = d.closed ∧ (f d).options = d.options := by exact fun _ => ⟨rfl, rfl⟩)
    (hr : ∀ d r, f { d with reader := r } = { f d with reader := r } := by exact fun _ _ => rfl) :
    P Unit (DecodeM.modifyDecoder f) :=
  A.modifyDecoder h hr

theorem newEntry (state : EntryState) : P Nat (newEntry state) :=
  A.toHabit.newEntry (A.alloc _) A.settle (fun _ => A.change) state

theorem entryOf (id : Nat) : P Nat (entryOf id) :=
  A.toHabit.entryOf A.newEntry (fun _ _ => A.change) id

theorem openRow? (id : Nat) : P (Option Nat) (openRow? id) := A.toHabit.openRow? A.entryOf id

theorem settleEntry (i : Nat) (o : Outcome) : P Unit (settleEntry i o) :=
  A.toHabit.settleEntry (fun _ _ => A.change) A.settle (fun _ => A.change) i o

theorem resolve (index : Nat) (v : Value) (path : List String) (shape : Shape) :
    P Outcome (resolve index v path shape) :=
  A.toHabit.resolve (fun _ _ _ c _ => A.make c) (fun _ _ => A.change) index v path shape

theorem reads (target : Nat) : Reads P target where
  toHabit := A.toHabit
  entryOf := A.entryOf
  resolve := A.resolve
  leaveHole := A.leaveHole (fun _ => A.change) fun _ _ _ _ _ => A.change
  temporary := A.temporary
  container := fun _ hm hf => A.bind (A.alloc _) fun c => A.bind (hm c) fun a => by
    rcases hf c a with ⟨o, hdone⟩ | ⟨cell, o, -, hdone⟩ <;> rw [hdone]
    · exact A.pure _
    · exact A.bind (A.write _ _) fun _ => A.pure _

theorem reviveRow (i : Nat) (text : String) : P Unit (reviveRow i text) :=
  A.toHabit.reviveRow ((A.reads i).revive .root) (fun _ => A.change) (fun _ => A.change)
    (A.settleEntry i) text

theorem deliver (id : Nat) : P Unit (deliver id) :=
  A.toHabit.deliver (A.deliverWith (fun _ => A.change) A.change A.push fun _ => A.change)

theorem enqueue (id : Nat) (entry : StreamEntry) : P Unit (enqueue id entry) :=
  A.toHabit.enqueue (fun _ => A.change) (A.deliver id) entry

theorem runWatcher (index : Nat) (w : Watcher) : P Unit (runWatcher index w) := by
  cases w with
  | hole target hole path shape cyclic =>
    exact A.fillHole A.resolve (fun _ => A.change) (A.settleEntry target) A.fill _ _ _ _ _
  | stream id => exact A.deliver id

theorem runWatchers : P Unit runWatchers := by
  have turns : ∀ fuel, P Unit (runWatchersWith fuel) := by
    intro fuel
    induction fuel with
    | zero => exact A.pure _
    | succ fuel ih =>
      unfold runWatchersWith
      refine A.decoder (fun d => ?_) fun _ _ => rfl
      split
      · exact A.pure _
      · refine A.decoder (fun d' => ?_) fun _ _ => rfl
        exact A.bind A.change fun _ => A.bind A.change fun _ =>
          A.bind (A.forM (A.runWatcher _) _) fun _ => ih
  exact A.decoder (fun d => turns _) fun _ _ => rfl

theorem takeValue (id : Nat) (o : Outcome) : P Unit (takeValue id o) := by
  unfold DecodeM.takeValue
  refine A.decoder (fun d => ?_) fun _ _ => rfl
  split
  · exact A.enqueue _ _
  · refine A.bind (A.openRow? id) fun i => ?_
    split
    · exact A.settleEntry _ _
    · exact A.pure _

theorem takeBinary (id : Nat) (kind : BinaryKind) (payload : Bytes) :
    P Unit (takeBinary id kind payload) := by
  unfold DecodeM.takeBinary
  split
  · exact A.takeValue _ _
  · exact A.bind (A.make _) fun _ => A.takeValue _ _

theorem takeModel (id : Nat) (text : String) : P Unit (takeModel id text) := by
  unfold DecodeM.takeModel
  refine A.decoder (fun d => ?_) fun _ _ => rfl
  split
  · exact A.bind (A.newEntry _) fun i => A.bind (A.reviveRow _ _) fun _ => A.enqueue _ _
  · refine A.bind (A.openRow? id) fun i => ?_
    split
    · exact A.reviveRow _ _
    · exact A.pure _

theorem takeImport (id : Nat) {payload : Bytes} (hload : P Outcome (loadModule payload)) :
    P Unit (takeImport id payload) := by
  unfold DecodeM.takeImport
  refine A.bind (A.openRow? id) fun i => ?_
  split
  · exact A.bind hload fun _ => A.settleEntry _ _
  · exact A.pure _

theorem openStream (id : Nat) (kind : StreamKind) : P Unit (openStream id kind) := by
  unfold DecodeM.openStream
  refine A.bind (A.openRow? id) fun i => ?_
  split
  · exact A.pure _
  · exact A.bind (A.alloc _) fun stream => A.bind A.change fun _ => A.settleEntry _ _

theorem closeStream (id : Nat) (text : String) : P Unit (closeStream id text) := by
  unfold DecodeM.closeStream
  refine A.decoder (fun d => ?_) fun _ _ => rfl
  split
  · split
    · exact A.enqueue _ _
    · exact A.bind (A.newEntry _) fun i => A.bind (A.reviveRow _ _) fun _ => A.enqueue _ _
  · exact A.pure _

/-- **A habit of acting on rows**, given that loading a module has it and noting a hint. -/
theorem takeRow {row : RawRow} (hload : P Outcome (loadModule row.payload))
    (hhint : RowTag.ofTag? row.tag = some .hint → P Unit (takeHint row.payload)) :
    P Unit (takeRow row) := by
  unfold DecodeM.takeRow
  split
  · exact A.bind (A.takeModel _ _) fun _ => A.runWatchers
  · split
    · exact A.bind (A.takeBinary _ _ _) fun _ => A.runWatchers
    · exact A.bind (A.takeValue _ _) fun _ => A.runWatchers
    · exact A.bind (A.takeImport _ hload) fun _ => A.runWatchers
    · exact A.bind (hhint ‹_›) fun _ => A.runWatchers
    · exact A.bind (A.takeValue _ _) fun _ => A.runWatchers
    · exact A.bind (A.takeValue _ _) fun _ => A.runWatchers
    · exact A.bind (A.openStream _ _) fun _ => A.runWatchers
    · exact A.bind (A.closeStream _ _) fun _ => A.runWatchers
    · exact A.runWatchers

end Acts

end DecodeM

end GraphRows
