import GraphRows.Proofs.Decoder.Cutting
import GraphRows.Proofs.Decoder.Filling
import GraphRows.Proofs.Store.Forwarding

/-!
# Handles are mirrors of entries

An entry settles once, and its handle settles with it: whoever holds the handle sees what the
decoder sees. This is so as long as nobody else settles a handle. The host may do what it likes
between calls, and so may the loader when it is asked for a module, but they leave the outcomes of
handles alone and add no callback that passes an outcome on to one.

`Decoding.Step` says what may happen to a decoder and its store: somebody asks for a handle, a row
is acted on, nothing more will come, or somebody else is at work. A piece of bytes is a number of
such steps, and the states between calls are among those that steps lead to.

## Main results

* `Mirrored`: what holds in every state
* `Decoding.Step.mirrored`: one step keeps it
* `handles_mirror_entries`
-/

namespace GraphRows

open Decoder DecodeM

variable {x : Decoding} {i : Nat} {s : Store}

/-- A promise is as far as an entry is. -/
structure Entry.Mirrors (e : Entry) (s : Store) : Prop where
  isPromise : (s.promise? e.handle).isSome
  pending : s.outcome? e.handle = none ↔ ¬ e.state.isTerminal
  fulfilled : ∀ v, s.outcome? e.handle = some (.ok v) ↔ e.state = .fulfilled v
  rejected : ∀ r, s.outcome? e.handle = some (.error r) ↔ e.state = .rejected r

theorem Entry.mirrors {e : Entry} {p : Promise} (hp : s.promise? e.handle = some p)
    (ho : p.outcome = e.state.outcome?) : e.Mirrors s := by
  have houtcome : s.outcome? e.handle = e.state.outcome? := by rw [Store.outcome?, hp]; exact ho
  refine ⟨by rw [hp]; rfl, ?_, fun v => ?_, fun r => ?_⟩ <;> rw [houtcome] <;> cases e.state <;>
    simp [EntryState.outcome?, EntryState.isTerminal]

/-! ### The invariant -/

/-- Every handle is as far as its entry, and nobody else leads to it. -/
structure Mirrored (options : DecoderOptions) (x : Decoding) : Prop where
  options : x.decoder.options = options
  named : Named x
  handles : ∀ i < x.decoder.entries.size, ∃ p, x.store.promise? (x.decoder.entry i).handle =
    some p ∧ p.outcome = (x.decoder.entry i).state.outcome?
  distinct : ∀ i < x.decoder.entries.size, ∀ j < x.decoder.entries.size,
    (x.decoder.entry i).handle = (x.decoder.entry j).handle → i = j
  apart : ∀ c, x.store.PassesTo c → c < x.store.cells.size ∧ ∀ i < x.decoder.entries.size,
    (x.decoder.entry i).handle ≠ c
  targets : ∀ i, ∀ w ∈ (x.decoder.entry i).watchers, ∀ t, w.target? = some t →
    t < x.decoder.entries.size

/-- Somebody else is at work: handles keep their outcomes, and nothing leads to a handle that did
not before. -/
structure HandsOff (x : Decoding) (s : Store) : Prop where
  size : x.store.cells.size ≤ s.cells.size
  handles : ∀ i < x.decoder.entries.size, ∀ p, x.store.promise? (x.decoder.entry i).handle =
    some p → ∃ p', s.promise? (x.decoder.entry i).handle = some p' ∧ p'.outcome = p.outcome
  apart : ∀ c, s.PassesTo c → x.store.PassesTo c ∨
    c < s.cells.size ∧ ∀ i < x.decoder.entries.size, (x.decoder.entry i).handle ≠ c

theorem HandsOff.of_steady (h : x.store.Steady s) : HandsOff x s := by
  refine ⟨h.size, fun i _ p hp => ⟨p, ?_, rfl⟩, fun c hc => .inl (h.passesTo hc)⟩
  rw [h.promises _ (Store.cell?_lt_size (Store.promise?_eq_some hp))]
  exact hp

namespace Mirrored

variable {options : DecoderOptions} {x y : Decoding}

theorem handle_lt_size (M : Mirrored options x) (hi : i < x.decoder.entries.size) :
    (x.decoder.entry i).handle < x.store.cells.size := by
  obtain ⟨p, hp, -⟩ := M.handles i hi
  exact Store.cell?_lt_size (Store.promise?_eq_some hp)

/-- Somebody else is at work. -/
theorem handsOff (M : Mirrored options x) (h : HandsOff x s) : Mirrored options ⟨x.decoder, s⟩ := by
  refine ⟨M.options, M.named, fun i hi => ?_, M.distinct, fun c hc => ?_, M.targets⟩
  · obtain ⟨p, hp, ho⟩ := M.handles i hi
    obtain ⟨p', hp', ho'⟩ := h.handles i hi p hp
    exact ⟨p', hp', ho'.trans ho⟩
  · rcases h.apart c hc with hold | hnew
    · exact ⟨Nat.lt_of_lt_of_le (M.apart c hold).1 h.size, (M.apart c hold).2⟩
    · exact hnew

theorem steady (M : Mirrored options x) (h : x.store.Steady s) : Mirrored options ⟨x.decoder, s⟩ :=
  M.handsOff (.of_steady h)

/-- A change of the decoder that concerns no entry. -/
theorem congr (M : Mirrored options x) {d : Decoder} (hentries : d.entries = x.decoder.entries)
    (hids : d.ids = x.decoder.ids) (hoptions : d.options = x.decoder.options) :
    Mirrored options ⟨d, x.store⟩ := by
  have hentry : ∀ i, d.entry i = x.decoder.entry i :=
    fun i => by rw [Decoder.entry, Decoder.entry, hentries]
  refine ⟨hoptions.trans M.options, fun id i h => ?_, ?_, ?_, ?_, ?_⟩ <;>
    simp only [hentry, hentries]
  · exact M.named id i (hids ▸ h)
  · exact M.handles
  · exact M.distinct
  · exact M.apart
  · exact M.targets

/-- A change of one entry that settles nothing. -/
theorem modifyEntry (M : Mirrored options x) {f : Entry → Entry}
    (hhandle : (f (x.decoder.entry i)).handle = (x.decoder.entry i).handle)
    (hstate : (f (x.decoder.entry i)).state.outcome? = (x.decoder.entry i).state.outcome?)
    (htargets : ∀ w ∈ (f (x.decoder.entry i)).watchers, w ∈ (x.decoder.entry i).watchers ∨
      ∀ t, w.target? = some t → t < x.decoder.entries.size) :
    Mirrored options ⟨x.decoder.modifyEntry i f, x.store⟩ := by
  have hhandles : ∀ j, ((x.decoder.modifyEntry i f).entry j).handle = (x.decoder.entry j).handle :=
      fun j => by
    rw [entry_modifyEntry]
    split
    · rename_i h
      exact h.1 ▸ hhandle
    · rfl
  have hstates : ∀ j, ((x.decoder.modifyEntry i f).entry j).state.outcome? =
      (x.decoder.entry j).state.outcome? := fun j => by
    rw [entry_modifyEntry]
    split
    · rename_i h
      exact h.1 ▸ hstate
    · rfl
  refine ⟨M.options, fun id j h => ?_, ?_, ?_, ?_, fun j w hw t ht => ?_⟩ <;>
    simp only [hhandles, hstates, size_modifyEntry]
  · exact M.named id j h
  · exact M.handles
  · exact M.distinct
  · exact M.apart
  · dsimp only at hw
    rw [entry_modifyEntry] at hw
    split at hw
    · rename_i h
      obtain ⟨rfl, -⟩ := h
      exact (htargets w hw).elim (fun hw => M.targets i w hw t ht) fun h => h t ht
    · exact M.targets j w hw t ht

theorem modifyDraft (M : Mirrored options x) (i : Nat) (f : Draft → Draft) :
    Mirrored options ⟨x.decoder.modifyDraft i f, x.store⟩ :=
  M.modifyEntry rfl rfl fun _ => .inl

/-- An entry is added, with a handle of its own. -/
theorem push (M : Mirrored options x) {e : Entry}
    (hentries : y.decoder.entries = x.decoder.entries.push e)
    (hids : ∀ id i, y.decoder.ids.lookup id = some i →
      x.decoder.ids.lookup id = some i ∨ i = x.decoder.entries.size)
    (hoptions : y.decoder.options = x.decoder.options) (hwatchers : e.watchers = [])
    (hsteady : x.store.Steady y.store) (hfresh : x.store.cells.size ≤ e.handle) {p : Promise}
    (hp : y.store.promise? e.handle = some p) (ho : p.outcome = e.state.outcome?) :
    Mirrored options y := by
  have hentry : ∀ i, y.decoder.entry i = if i =
      x.decoder.entries.size then e else x.decoder.entry i := fun i => by
    rw [Decoder.entry, hentries]
    exact entry_push x.decoder e i
  have hsize : y.decoder.entries.size = x.decoder.entries.size + 1 := by
    rw [hentries, Array.size_push]
  have hold : ∀ i < y.decoder.entries.size, i ≠ x.decoder.entries.size →
    i < x.decoder.entries.size := fun i hi hne => by omega
  have hne : ∀ i < x.decoder.entries.size, (x.decoder.entry i).handle ≠ e.handle := fun i hi h =>
    absurd (M.handle_lt_size hi) (Nat.not_lt.mpr (h ▸ hfresh))
  refine ⟨hoptions.trans M.options, fun id i h => ?_, fun i hi => ?_, fun i hi j hj h => ?_,
    fun c hc => ?_, fun i w hw t ht => ?_⟩
  · rcases hids id i h with h | rfl
    · exact hsize ▸ Nat.lt_succ_of_lt (M.named id i h)
    · exact hsize ▸ Nat.lt_succ_self _
  · rw [hentry]
    split
    · exact ⟨p, hp, ho⟩
    · rename_i hne'
      have hi' := hold i hi hne'
      obtain ⟨q, hq, hoq⟩ := M.handles i hi'
      exact ⟨q, (hsteady.promises _ (M.handle_lt_size hi')).trans hq, hoq⟩
  · rw [hentry, hentry] at h
    split at h <;> split at h
    · rename_i hi' hj'
      exact hi'.trans hj'.symm
    · rename_i hi' hj'
      exact absurd h.symm (hne j (hold j hj hj'))
    · rename_i hi' hj'
      exact absurd h (hne i (hold i hi hi'))
    · rename_i hi' hj'
      exact M.distinct i (hold i hi hi') j (hold j hj hj') h
  · have hlt := M.apart c (hsteady.passesTo hc)
    refine ⟨Nat.lt_of_lt_of_le hlt.1 hsteady.size, fun i hi => ?_⟩
    rw [hentry]
    split
    · exact Nat.ne_of_gt (Nat.lt_of_lt_of_le hlt.1 hfresh)
    · rename_i hne'
      exact hlt.2 i (hold i hi hne')
  · rw [hentry] at hw
    split at hw
    · rw [hwatchers] at hw
      cases hw
    · exact hsize ▸ Nat.lt_succ_of_lt (M.targets i w hw t ht)

/-- **An entry settles, and its handle with it.** Nobody else's handle does: handles are distinct
and nothing leads to one. -/
theorem settle (M : Mirrored options x) (hi : i < x.decoder.entries.size)
    (hopen : (x.decoder.entry i).state.isTerminal = false) {state : EntryState} {o : Outcome}
    (hstate : state.outcome? = some o) (wake : List Nat) :
    Mirrored options ⟨{ x.decoder.modifyEntry i ({ · with state }) with wake },
      (x.store.settle (x.decoder.entry i).handle o).2⟩ := by
  obtain ⟨p, hp, ho⟩ := M.handles i hi
  rw [EntryState.outcome?_of_not_isTerminal hopen] at ho
  have hentry : ∀ j, ({ x.decoder.modifyEntry i ({ · with state }) with wake } : Decoder).entry j =
      (x.decoder.modifyEntry i ({ · with state })).entry j := fun j => rfl
  have hhandles : ∀ j, ((x.decoder.modifyEntry i ({ · with state })).entry j).handle =
      (x.decoder.entry j).handle := fun j => by
    rw [entry_modifyEntry]
    split <;> rfl
  have hspares : ∀ j < x.decoder.entries.size, j ≠ i →
      x.store.Spares (x.decoder.entry j).handle (x.store.settle (x.decoder.entry i).handle o).2 :=
        fun j hj hne =>
    Store.spares_settle (fun h => hne (M.distinct j hj i hi h.symm))
      (fun h => (M.apart _ h).2 j hj rfl) o
  have hpasses : ∀ c, (x.store.settle (x.decoder.entry i).handle o).2.PassesTo c →
      x.store.PassesTo c := fun c hc => by
    -- any cell that is spared will do: names and callbacks do not depend on it
    refine (Store.spares_settle (c := x.store.cells.size) (Nat.ne_of_lt (M.handle_lt_size hi))
      (fun h => ?_) o).passesTo hc
    exact absurd (M.apart _ h).1 (Nat.lt_irrefl _)
  refine ⟨M.options, fun id j h => ?_, fun j hj => ?_, ?_, fun c hc => ?_,
    fun j w hw t ht => ?_⟩ <;> simp only [hentry, hhandles, size_modifyEntry] at *
  · exact M.named id j h
  · by_cases hji : j = i
    · subst hji
      obtain ⟨p', hp', ho'⟩ := Option.bind_eq_some_iff.mp (Store.outcome?_settle (o := o) hp ho)
      refine ⟨p', hp', ?_⟩
      rw [ho', entry_modifyEntry_self _ _ hi]
      exact hstate.symm
    · obtain ⟨q, hq, hoq⟩ := M.handles j hj
      refine ⟨q, (hspares j hj hji).promise.trans hq, ?_⟩
      rw [entry_modifyEntry_ne _ _ (Ne.symm hji)]
      exact hoq
  · exact M.distinct
  · have hquiet := Store.quiet_settle x.store (x.decoder.entry i).handle o
    exact ⟨hquiet.size.symm ▸ (M.apart c (hpasses c hc)).1, (M.apart c (hpasses c hc)).2⟩
  · have hwatchers : ((x.decoder.modifyEntry i ({ · with state })).entry j).watchers =
        (x.decoder.entry j).watchers := by
      rw [entry_modifyEntry]
      split <;> rfl
    exact M.targets j w (hwatchers ▸ hw) t ht

end Mirrored

/-! ### While a row is read -/

section

variable {options : DecoderOptions}

namespace DecodeM

variable {α β : Type} {target : Nat}

/-- Nothing has settled since, and no entry is gone. -/
structure Calmly (options : DecoderOptions) (x y : Decoding) : Prop where
  mirrored : Mirrored options y
  steady : x.store.Steady y.store
  size : x.decoder.entries.size ≤ y.decoder.entries.size

theorem Calmly.trans {y z : Decoding} (h : Calmly options x y) (h' : Calmly options y z) :
    Calmly options x z :=
  ⟨h'.mirrored, h.steady.trans h'.steady, h.size.trans h'.size⟩

theorem Calmly.refl (M : Mirrored options x) : Calmly options x x := ⟨M, .refl _, Nat.le_refl _⟩

theorem Calmly.bind {m : DecodeM α} {f : α → DecodeM β} (hm : Calmly options x (m x).2)
    (hf : ∀ a, Calmly options (m x).2 (f a (m x).2).2) : Calmly options x ((m >>= f) x).2 :=
  hm.trans (hf _)

/-- Work for the draft of `target` that settles nothing. -/
def Calm (options : DecoderOptions) (target : Nat) (m : DecodeM α) : Prop :=
  ∀ x, Mirrored options x → target < x.decoder.entries.size → Calmly options x (m x).2

namespace Calm

theorem pure (a : α) : Calm options target (Pure.pure a : DecodeM α) := fun _ M _ => .refl M

theorem bind {m : DecodeM α} {f : α → DecodeM β} (hm : Calm options target m)
    (hf : ∀ a, Calm options target (f a)) : Calm options target (m >>= f) :=
  fun x M ht =>
  (hm x M ht).trans (hf _ _ (hm x M ht).mirrored (Nat.lt_of_lt_of_le ht (hm x M ht).size))

theorem decoder : Calm options target DecodeM.decoder := fun _ M _ => .refl M

theorem store : Calm options target DecodeM.store := fun _ M _ => .refl M

theorem onStore {f : Store → α × Store} (hf : ∀ s : Store, s.Steady (f s).2) :
    Calm options target (DecodeM.onStore f) :=
  fun x M _ => ⟨M.steady (hf x.store), hf x.store, Nat.le_refl _⟩

/-- A change of the decoder that keeps the number of entries. -/
theorem modifyDecoder {f : Decoder → Decoder} (hsize : ∀ d, (f d).entries.size = d.entries.size)
    (hf : ∀ x, Mirrored options x → target < x.decoder.entries.size →
      Mirrored options ⟨f x.decoder, x.store⟩) : Calm options target (DecodeM.modifyDecoder f) :=
  fun x M ht => ⟨hf x M ht, .refl _, Nat.le_of_eq (hsize _).symm⟩

theorem modifyDraft (i : Nat) (f : Draft → Draft) :
    Calm options target (DecodeM.modifyDecoder (·.modifyDraft i f)) :=
  .modifyDecoder (fun _ => size_modifyEntry ..) fun _ M _ => M.modifyDraft i f

/-- A cell is made, and some work is done with it before it is written to. -/
theorem alloc {cell : Cell} (hcell : ∀ p, cell ≠ .promise p) {f : CellId → DecodeM α}
    (hf : ∀ c x, Mirrored options x → target < x.decoder.entries.size → c < x.store.cells.size →
      x.store.promise? c = none → Calmly options x (f c x).2) :
    Calm options target (DecodeM.onStore (·.alloc cell) >>= f) := by
  intro x M ht
  have hsteady : x.store.Steady (x.store.alloc cell).2 := .alloc x.store fun p hp =>
    absurd hp (hcell p)
  have h₁ : Calmly options x ⟨x.decoder, (x.store.alloc cell).2⟩ :=
    ⟨M.steady hsteady, hsteady, Nat.le_refl _⟩
  refine h₁.trans (hf x.store.cells.size _ h₁.mirrored ht ?_ ?_)
  · simp [Store.alloc]
  · rw [Store.promise?, show (x.store.alloc cell).2.cell? x.store.cells.size =
      some cell from Store.cell?_alloc_new x.store cell]
    split
    · rename_i p hp
      exact absurd (Option.some.inj hp) (hcell p)
    · rfl

end Calm

theorem newEntry_pending_mirrored (M : Mirrored options x) :
    Calmly options x (newEntry .pending x).2 := by
  have hsteady : x.store.Steady x.store.newPromise.2 := .alloc x.store fun p hp => by cases hp; rfl
  refine ⟨M.push rfl (fun _ _ => .inl) rfl rfl hsteady (Nat.le_refl _)
    (Store.promise?_of_cell? (Store.cell?_alloc_new x.store (.promise {}))) rfl, hsteady, ?_⟩
  exact (newEntry_onward (R := Entry.Kept) .pending x).size

theorem entryOf_mirrored (M : Mirrored options x) (id : Nat) :
    Calmly options x (entryOf id x).2 := by
  have hsteady : x.store.Steady x.store.newPromise.2 := .alloc x.store fun p hp => by cases hp; rfl
  have hnew := Store.cell?_alloc_new x.store (.promise {})
  have hids : ∀ k j, ((id, x.decoder.entries.size) :: x.decoder.ids).lookup k = some j →
      x.decoder.ids.lookup k = some j ∨ j = x.decoder.entries.size := fun k j h =>
        (lookup_of_lookup_cons h).imp_right And.right
  have hsize := (entryOf_onward (R := Entry.Kept) id x).size
  cases h : x.decoder.ids.lookup id with
  | some i =>
    rw [entryOf_of_some h]
    exact .refl M
  | none =>
    cases hclosed : x.decoder.closed with
    | none =>
      rw [entryOf_of_none h hclosed] at hsize ⊢
      exact ⟨M.push rfl hids rfl rfl hsteady (Nat.le_refl _) (Store.promise?_of_cell? hnew) rfl,
        hsteady, hsize⟩
    | some r =>
      rw [entryOf_of_closed h hclosed] at hsize ⊢
      have hsettled := hsteady.settle (Nat.le_refl _) hnew (.error r)
      obtain ⟨p, hp, ho⟩ := Option.bind_eq_some_iff.mp
        (Store.outcome?_settle (o := .error r) (Store.promise?_of_cell? hnew) rfl)
      exact ⟨M.push rfl hids rfl rfl hsettled (Nat.le_refl _) hp ho, hsettled, hsize⟩

theorem entryOf_calm (id : Nat) : Calm options target (entryOf id) :=
  fun _ M _ => entryOf_mirrored M id

/-- The cell made for an array or an object is written to when its parts have been read. -/
theorem written_calm {c : CellId} {cell : Cell} (M : Mirrored options x)
    (hc : x.store.promise? c = none) (hcell : ∀ p, cell ≠ .promise p) :
    Calmly options x ⟨x.decoder, x.store.write c cell⟩ :=
  ⟨M.steady (.write hc hcell), .write hc hcell, Nat.le_refl _⟩

theorem habit_calm : Habit fun _ => Calm options target where
  pure := .pure
  bind := .bind
  decoder hf _ := .bind .decoder hf
  store := .store

theorem resolve_calm (index : Nat) (v : Value) (path : List String) (shape : Shape) :
    Calm options target (resolve index v path shape) :=
  habit_calm.resolve (fun _ _ _ _ hc => .onStore fun s => .alloc s fun p hp =>
    absurd hp ((Store.shaped_isData hc).1 p))
    (fun _ _ => .modifyDecoder (fun _ => rfl) fun _ M _ => M.congr rfl rfl rfl) index v path shape

theorem leaveHole_calm (index : Nat) (path : List String) (shape : Shape) (hole : Hole)
    (cyclic : Bool) : Calm options target (leaveHole target index path shape hole cyclic) := by
  refine habit_calm.leaveHole (.modifyDraft target) (fun i hole path shape cyclic => ?_) index path
    shape hole cyclic
  refine .modifyDecoder (fun _ => size_modifyEntry ..) fun x M ht => M.modifyEntry rfl rfl
    fun w hw => ?_
  rcases List.mem_append.mp hw with hw | hw
  · exact .inl hw
  · obtain rfl := List.mem_singleton.mp hw
    exact .inr fun t h => Option.some.inj h ▸ ht

theorem reads_calm : Reads (fun _ => Calm options target) target where
  toHabit := habit_calm
  entryOf := entryOf_calm
  resolve := resolve_calm
  leaveHole := leaveHole_calm
  temporary _ _ := .onStore fun s => Store.steady_resolveTemporary s _ _
  container hcell hm hf := .alloc hcell fun c x M ht hlt hnone => by
    have h := hm c x M ht
    refine h.bind fun a => ?_
    rcases hf c a with ⟨o, hdone⟩ | ⟨cell, o, hwritten, hdone⟩ <;> rw [hdone]
    · exact .refl h.mirrored
    · exact written_calm h.mirrored ((h.steady.promises c hlt).trans hnone) hwritten

/-- **While a row is read** nothing settles. -/
theorem revive_calm (j : Json) (hole : Hole) : Calm options target (revive target hole j) :=
  reads_calm.revive hole j

/-! ### Settling -/

/-- **An entry settles**, if it has not. -/
theorem settleEntry_mirrored (i : Nat) (o : Outcome) :
    Ensures (fun x => Mirrored options x ∧ i < x.decoder.entries.size) (settleEntry i o) fun _ =>
      Mirrored options := by
  rintro x ⟨M, hi⟩
  cases h : (x.decoder.entry i).state.isTerminal with
  | true =>
    rw [settleEntry_of_terminal h]
    exact M
  | false =>
    rw [settleEntry_eq_of_open h]
    exact M.settle hi h (by cases o <;> rfl) _

/-- The construction of a draft has failed. -/
theorem fail_mirrored (i : Nat) (r : Rejection) :
    Ensures (fun x => Mirrored options x ∧ i < x.decoder.entries.size) (do
      modifyDecoder (·.modifyDraft i ({ · with failed := true }))
      settleEntry i (.error r)) fun _ => Mirrored options :=
  .bind (Q := fun _ x => Mirrored options x ∧ i < x.decoder.entries.size)
    (.modifyDecoder fun _ hx => ⟨hx.1.modifyDraft i _, (size_modifyEntry ..).symm ▸ hx.2⟩) fun _ =>
      settleEntry_mirrored i _

/-- **A row is read for an open entry.** -/
theorem reviveRow_mirrored (i : Nat) (text : String) :
    Ensures (fun x => Mirrored options x ∧ i < x.decoder.entries.size ∧
      (x.decoder.entry i).state.isTerminal = false)
      (reviveRow i text) fun _ => Mirrored options := by
  let I : Decoding → Prop := fun x =>
    Mirrored options x ∧ i < x.decoder.entries.size ∧ (x.decoder.entry i).state = .reviving
  have kept : ∀ {β : Type} {m : DecodeM β}, Calm options i m → Goes Entry.Read m →
      Ensures I m fun _ => I := by
    rintro β m hm hgoes x ⟨M, hi, hstate⟩
    have h := hm x M hi
    exact ⟨h.mirrored, Nat.lt_of_lt_of_le hi h.size, ((hgoes x).entry i hi).state.trans hstate⟩
  unfold reviveRow
  split
  · exact (settleEntry_mirrored i _).pre fun x hx => ⟨hx.1, hx.2.1⟩
  · rename_i j _
    refine .bind (Q := fun _ => I) (.modifyDecoder ?_) fun _ =>
      .bind (kept (revive_calm j .root) (revive_onward j .root)) fun r => ?_
    · rintro x ⟨M, hi, hopen⟩
      exact ⟨M.modifyEntry rfl (EntryState.outcome?_of_not_isTerminal hopen).symm fun _ => .inl,
        (size_modifyEntry ..).symm ▸ hi, by rw [entry_modifyEntry_self _ _ hi]⟩
    · cases r with
      | error r => exact (fail_mirrored i r).pre fun x hx => ⟨hx.1, hx.2.1⟩
      | ok v =>
        refine .bind (Q := fun _ => I) (kept (.modifyDraft i _) (modifyDraft_read i _)) fun _ =>
          .bind .decoder fun d => .pre (P := I) ?_ fun x hx => hx.1
        split
        · exact (settleEntry_mirrored i _).pre fun x hx => ⟨hx.1, hx.2.1⟩
        · refine .modifyDecoder ?_
          rintro x ⟨M, -, hstate⟩
          exact M.modifyEntry rfl (by rw [hstate]; rfl) fun _ => .inl

theorem steady_fill (s : Store) (hole : Hole) (v : Value) : s.Steady (s.fill hole v) := by
  have hdata : ∀ {c cell} (p : Promise), s.cell? c = some cell → cell ≠ .promise p →
      s.promise? c ≠ some p := by
    rintro c cell p hc hne hp
    exact hne (Option.some.inj (hc.symm.trans (Store.promise?_eq_some hp)))
  unfold Store.fill
  split
  · exact .refl s
  · split
    · rename_i items hc
      exact .write (Option.eq_none_iff_forall_ne_some.mpr fun p => hdata p hc (by rintro ⟨⟩))
        (by rintro p ⟨⟩)
    · exact .refl s
  · split
    · rename_i fields hc
      exact .write (Option.eq_none_iff_forall_ne_some.mpr fun p => hdata p hc (by rintro ⟨⟩))
        (by rintro p ⟨⟩)
    · exact .refl s

/-- **A hole is filled.** -/
theorem fillHole_mirrored (index : Nat) (hole : Hole) (path : List String) (shape : Shape)
    (cyclic : Bool) :
    Ensures (fun x => Mirrored options x ∧ target < x.decoder.entries.size)
      (fillHole index target hole path shape cyclic)
      fun _ x => Mirrored options x ∧ target < x.decoder.entries.size := by
  have calm : ∀ {β : Type} {m : DecodeM β}, Calm options target m →
      Ensures (fun x => Mirrored options x ∧ target < x.decoder.entries.size) m
        fun _ x => Mirrored options x ∧ target < x.decoder.entries.size :=
    fun hm x hx => ⟨(hm x hx.1 hx.2).mirrored, Nat.lt_of_lt_of_le hx.2 (hm x hx.1 hx.2).size⟩
  refine (habit_ensures _).fillHole (fun _ _ _ _ => calm (resolve_calm _ _ _ _))
    (fun _ => calm (.modifyDraft target _))
    (fun o x hx => ⟨settleEntry_mirrored target o x hx, Nat.lt_of_lt_of_le hx.2
      (settleEntry_onward target o x).size⟩)
    (fun hole v => .modifyStore fun x hx => ⟨hx.1.steady (steady_fill _ hole v), hx.2⟩) index
      hole path shape cyclic

theorem deliverWith_mirrored (id fuel : Nat) :
    Ensures (Mirrored options) (deliverWith fuel id) fun _ => Mirrored options := by
  refine (habit_ensures _).deliverWith (fun _ => .modifyDecoder fun _ M => M.congr rfl rfl rfl)
    (.modifyDecoder fun _ M => M.congr rfl rfl rfl) (fun _ _ => .modifyStore fun x M =>
      M.steady (Store.steady_push _ _ _))
    (fun _ => .modifyDecoder fun x M => M.modifyEntry rfl rfl fun w hw => ?_) fuel
  rcases List.mem_append.mp hw with hw | hw
  · exact .inl hw
  · obtain rfl := List.mem_singleton.mp hw
    exact .inr (by rintro t ⟨⟩)

theorem deliver_mirrored (id : Nat) :
    Ensures (Mirrored options) (deliver id) fun _ => Mirrored options :=
  .read fun _ => deliverWith_mirrored id _

theorem enqueue_mirrored (id : Nat) (entry : StreamEntry) :
    Ensures (Mirrored options) (enqueue id entry) fun _ => Mirrored options :=
  (habit_ensures _).enqueue (fun _ => .modifyDecoder fun _ M => M.congr rfl rfl rfl)
    (deliver_mirrored id) entry

theorem runWatcher_mirrored (index : Nat) (w : Watcher) :
    Ensures (fun x => Mirrored options x ∧ ∀ t, w.target? = some t → t < x.decoder.entries.size)
      (runWatcher index w) fun _ => Mirrored options := by
  cases w with
  | hole target hole path shape cyclic =>
    exact ((fillHole_mirrored index hole path shape cyclic).pre fun x hx =>
      ⟨hx.1, hx.2 target rfl⟩).post fun _ x hx => hx.1
  | stream id => exact (deliver_mirrored id).pre fun x hx => hx.1

theorem runWatchersWith_mirrored (fuel : Nat) :
    Ensures (Mirrored options) (runWatchersWith fuel) fun _ => Mirrored options := by
  let I : List Watcher → Decoding → Prop := fun rest x =>
    Mirrored options x ∧ ∀ w ∈ rest, ∀ t, w.target? = some t → t < x.decoder.entries.size
  have turn : ∀ (i : Nat) (w : Watcher) (rest : List Watcher),
      Ensures (I (w :: rest)) (runWatcher i w) fun _ => I rest := by
    rintro i w rest x ⟨M, hw⟩
    refine ⟨runWatcher_mirrored i w x ⟨M, hw w List.mem_cons_self⟩, fun w' hw' t ht => ?_⟩
    exact Nat.lt_of_lt_of_le (hw w' (List.mem_cons_of_mem _ hw') t ht)
      (runWatcher_onward i w x).size
  induction fuel with
  | zero => exact .pure fun _ M => M
  | succ fuel ih =>
    unfold runWatchersWith
    refine .read fun d => ?_
    split
    · exact .pure fun _ M => M
    · rename_i i rest _
      refine .bind .decoder fun d' => .bind (Q := fun _ => I (d'.entry i).watchers)
        (.modifyDecoder ?_) fun _ =>
        .bind (Q := fun _ => I (d'.entry i).watchers) (.modifyDecoder ?_) fun _ =>
          .bind (Ensures.forM (I := I) (turn i) _) fun _ => ih.pre fun x hx => hx.1
      · rintro x ⟨M, rfl⟩
        exact ⟨M.congr rfl rfl rfl, M.targets i⟩
      · rintro x ⟨M, hw⟩
        refine ⟨M.modifyEntry rfl rfl (by rintro w ⟨⟩), fun w hmem t ht => ?_⟩
        exact (size_modifyEntry ..).symm ▸ hw w hmem t ht

/-- **Watchers run.** -/
theorem runWatchers_mirrored : Ensures (Mirrored options) runWatchers fun _ => Mirrored options :=
  .bind .decoder fun _ => (runWatchersWith_mirrored _).pre fun _ hx => hx.1

/-! ### Rows -/

theorem openRow?_mirrored (id : Nat) :
    Ensures (Mirrored options) (openRow? id) fun o x =>
    Mirrored options x ∧ ∀ i, o = some i → i < x.decoder.entries.size ∧
      (x.decoder.entry i).state.isTerminal = false :=
  fun x M => ⟨(entryOf_mirrored M id).mirrored,
    (openRow?_onward (d := x.decoder) id x ⟨.refl _, M.named⟩).2⟩

/-! ### Closing -/

theorem rejectEntries_mirrored (test : EntryState → Bool) (r : Rejection) :
    Ensures (Mirrored options) (rejectEntries test r) fun _ => Mirrored options := by
  unfold rejectEntries
  let I : List Nat → Decoding → Prop := fun rest x => Mirrored options x ∧ ∀ i ∈ rest,
    i < x.decoder.entries.size
  refine .bind .decoder fun d =>
    ((Ensures.forM (I := I) (fun i rest => .bind .decoder fun d' => ?_) _).pre ?_).post
      fun _ x hx => hx.1
  · split
    · rintro x ⟨⟨M, hx⟩, -⟩
      refine ⟨settleEntry_mirrored i _ x ⟨M, hx i List.mem_cons_self⟩, fun j hj => ?_⟩
      exact Nat.lt_of_lt_of_le (hx j (List.mem_cons_of_mem _ hj)) (settleEntry_onward i _ x).size
    · exact .pure fun x hx => ⟨hx.1.1, fun j hj => hx.1.2 j (List.mem_cons_of_mem _ hj)⟩
  · rintro x ⟨M, rfl⟩
    exact ⟨M, fun i hi => List.mem_range.mp hi⟩

theorem endStreams_mirrored (r : Rejection) :
    Ensures (Mirrored options) (endStreams r) fun _ => Mirrored options := by
  refine .bind .decoder fun d => .bind (Q := fun _ => Mirrored options)
    (.modifyDecoder fun x hx => hx.1.congr rfl rfl rfl)
    fun _ => Ensures.forM (I := fun _ => Mirrored options) (fun p _ => .modifyStore fun x M => ?_) _
  exact M.steady (Store.steady_push _ _ _)

/-- **Nothing more will come.** -/
theorem closeWith_mirrored (M : Mirrored options x) (r : Rejection) :
    Mirrored options (closeWith r x).2 := by
  cases h : x.decoder.closed with
  | some r' =>
    rw [closeWith_of_closed (by rw [h]; rfl)]
    exact M
  | none =>
    rw [closeWith_of_open h]
    have hshut : Ensures (Mirrored options) (shut r) fun _ => Mirrored options :=
      .bind (Q := fun _ => Mirrored options) (.modifyDecoder fun _ M => M.congr rfl rfl rfl)
        fun _ => rejectEntries_mirrored _ r
    have hclose : Ensures (Mirrored options) (do
        shut r
        runWatchers
        rejectRest r
        runWatchers
        endStreams r : DecodeM Unit) fun _ => Mirrored options :=
      .bind hshut fun _ => .bind runWatchers_mirrored fun _ =>
        .bind (rejectEntries_mirrored _ r) fun _ =>
        .bind runWatchers_mirrored fun _ => endStreams_mirrored r
    exact hclose x M

theorem closeWith_onward (r : Rejection) : Goes Entry.Kept (closeWith r) := by
  intro x
  cases h : x.decoder.closed with
  | some r' =>
    rw [closeWith_of_closed (by rw [h]; rfl)]
    exact .refl _
  | none =>
    rw [closeWith_of_open h]
    have hkept : ∀ {m : DecodeM Unit}, Goes Entry.Grown m → Goes Entry.Kept m :=
      fun hm => hm.mono fun _ _ => Entry.Grown.kept
    have hend : Goes Entry.Kept (endStreams r) := fun y => by
      rw [endStreams_decoder]
      exact .congr rfl rfl
    have hclose : Goes Entry.Kept (do
        shut r
        runWatchers
        rejectRest r
        runWatchers
        endStreams r : DecodeM Unit) :=
      .bind (hkept (shut_onward r)) fun _ => .bind runWatchers_onward fun _ =>
        .bind (hkept (rejectEntries_onward _ r)) fun _ => .bind runWatchers_onward fun _ => hend
    exact hclose x

end DecodeM

end

/-! ### Steps -/

namespace Decoding

/-- What may happen to a decoder and its store. -/
inductive Step : Decoding → Decoding → Prop
  /-- somebody asks for the handle of a row -/
  | handle (x : Decoding) (id : Nat) : Step x (DecodeM.handle id x).2
  /-- bytes are framed -/
  | read (x : Decoding) (reader : RowReader) : Step x (x.reading reader)
  /-- a row is acted on -/
  | row (x : Decoding) (row : RawRow) (hopen : x.decoder.closed = none) : Step x (takeRow row x).2
  /-- nothing more will come -/
  | close (x : Decoding) (reason : Rejection) : Step x (closeWith reason x).2
  /-- somebody else is at work -/
  | outside (x : Decoding) (s : Store) (h : HandsOff x s) : Step x ⟨x.decoder, s⟩

/-- Any number of steps. -/
def Steps : Decoding → Decoding → Prop := Relation.ReflTransGen Step

theorem steps_rows (rows : List RawRow) (hopen : x.decoder.closed = none) :
    Steps x (rows.forM takeRow x).2 := by
  induction rows generalizing x with
  | nil => exact .refl
  | cons row rows ih => exact .head (.row x row hopen) (ih ((takeRow_blind row x).1.trans hopen))

/-- **A piece is a number of steps.** -/
theorem steps_feed (x : Decoding) (piece : Bytes) : Steps x (feed piece x).2 := by
  cases hclosed : x.decoder.closed with
  | some r =>
    rw [feed_of_closed (by rw [hclosed]; rfl)]
    exact .refl
  | none =>
    have hrows : Steps x (afterRows piece x) :=
      .head (.read x (x.decoder.reader.feed piece).reader) (steps_rows _ hclosed)
    rw [feed_of_open hclosed]
    cases (x.decoder.reader.feed piece).fault with
    | none => exact hrows
    | some f => exact .tail hrows (.close _ _)

theorem steps_perform (x : Decoding) (call : Call) : Steps x (call.perform x) := by
  cases call with
  | handle id => exact .single (.handle x id)
  | feed piece => exact steps_feed x piece
  | close => exact .single (.close x _)

end Decoding

open Decoding

section

variable {options : DecoderOptions} {x y : Decoding}

/-- The loader leaves handles alone, whenever it may be asked for a module from now on. -/
def LoadsApart (options : DecoderOptions) (x : Decoding) : Prop :=
  ∀ y, Steps x y → ∀ m, HandsOff y (options.loader.load m y.store).2

theorem LoadsApart.steps (L : LoadsApart options x) (h : Steps x y) : LoadsApart options y :=
  fun z hz => L z (h.trans hz)

/-- A module is loaded, which may be noted before. -/
theorem loadModule_mirrored (M : Mirrored options x) (L : LoadsApart options x) (payload : Bytes) :
    Mirrored options (loadModule payload x).2 := by
  have noted : ∀ e m, Mirrored options ⟨x.decoder, (options.loader.load m (x.store.note e)).2⟩ :=
      fun e m => by
    have hnote : HandsOff x (x.store.note e) := .of_steady (.of_cells_eq rfl rfl)
    exact (M.handsOff hnote).handsOff (L _ (.single (.outside x _ hnote)) m)
  unfold loadModule
  cases Json.readBytes payload with
  | error e => exact M
  | ok j =>
    dsimp only
    cases Import.ofJson j with
    | error f => exact M
    | ok m =>
      dsimp only
      rw [decoder_bind, M.options]
      cases h : options.loader.observed with
      | false =>
        rw [if_neg (by simp)]
        exact M.handsOff (L x .refl m)
      | true =>
        rw [if_pos rfl]
        exact noted _ m

/-- What it takes to take a row in. -/
theorem receives_mirrored (row : RawRow) :
    Receives row (fun _ x => Mirrored options x ∧ LoadsApart options x) (Mirrored options)
      fun _ i x => (Mirrored options x ∧ i < x.decoder.entries.size ∧
      (x.decoder.entry i).state.isTerminal = false) ∧ LoadsApart options x where
  rest _ _ h _ := h.1
  text _ _ h := h
  refused _ _ _ h := h
  binary _ _ _ _ x h :=
    ⟨h.1.steady (.alloc x.store (by rintro p ⟨⟩)),
      h.2.steps (.single (.outside x _ (.of_steady (.alloc x.store (by rintro p ⟨⟩)))))⟩
  openRow _ _ x h := by
    have hopen := openRow?_mirrored row.id x h.1.1
    exact ⟨fun _ => hopen.1, fun i hi => ⟨⟨hopen.1, hopen.2 i hi⟩, h.1.2.steps
      (.single (.handle x row.id))⟩⟩
  settle _ i o := (settleEntry_mirrored i o).pre fun _ h => ⟨h.1.1, h.1.2.1⟩
  revive _ i := (reviveRow_mirrored i _).pre fun _ h => h.1
  load _ i := by
    refine .bind (Q := fun _ x => Mirrored options x ∧ i < x.decoder.entries.size) ?_ fun o =>
      settleEntry_mirrored i o
    rintro x ⟨⟨M, hi, -⟩, L⟩
    have hdecoder : (loadModule row.payload x).2.decoder = x.decoder :=
      loadModule_ensures (P := (· = x.decoder)) _ x rfl
    exact ⟨loadModule_mirrored M L row.payload, hdecoder ▸ hi⟩
  stream kind _ i := by
    refine .bind (Q := fun _ x => Mirrored options x ∧ i < x.decoder.entries.size)
      (.onStore fun x hx => ⟨?_, hx.1.2.1⟩)
      fun stream => .bind (Q := fun _ x => Mirrored options x ∧ i < x.decoder.entries.size)
        (.modifyDecoder fun x hx => ⟨hx.1.congr rfl rfl rfl, hx.2⟩) fun _ =>
          settleEntry_mirrored i _
    exact hx.1.1.steady (.alloc x.store (by rintro p ⟨⟩))
  item _ e _ _ := by
    refine .bind (Q := fun i x => Mirrored options x ∧ i < x.decoder.entries.size ∧
      (x.decoder.entry i).state.isTerminal = false)
      (fun x h => ⟨(newEntry_pending_mirrored h.1.1).mirrored, ?_, ?_⟩) fun i =>
        .bind (reviveRow_mirrored i _) fun _ =>
      enqueue_mirrored row.id (e i)
    · exact Array.size_push _ ▸ Nat.lt_succ_self _
    · change (Decoder.entry { x.decoder with entries := x.decoder.entries.push _ }
        x.decoder.entries.size).state.isTerminal = false
      rw [entry_push, if_pos rfl]
      rfl
  enqueue _ e _ _ := (enqueue_mirrored row.id e).pre fun _ h => h.1.1
  note _ h := .modifyStore fun x hx =>
    ⟨hx.1.steady (.of_cells_eq rfl rfl), hx.2.steps
      (.single (.outside x _ (.of_steady (.of_cells_eq rfl rfl))))⟩

/-- **A row is acted on.** -/
theorem takeRow_mirrored (M : Mirrored options x) (L : LoadsApart options x) (row : RawRow) :
    Mirrored options (takeRow row x).2 := by
  rw [takeRow_eq]
  exact runWatchers_mirrored _ ((receives_mirrored row).takeIn x ⟨M, L⟩)

/-- **One step.** -/
theorem Decoding.Step.mirrored (h : Step x y) (M : Mirrored options x) (L : LoadsApart options x) :
    Mirrored options y := by
  cases h with
  | handle id => exact (entryOf_mirrored M id).mirrored
  | read reader => exact M.congr rfl rfl rfl
  | row row hopen => exact takeRow_mirrored M L row
  | close reason => exact closeWith_mirrored M reason
  | outside s h => exact M.handsOff h

theorem Decoding.Step.onward (h : Step x y) (hx : Named x) :
    Onward Entry.Kept x.decoder y.decoder := by
  cases h with
  | handle id => exact entryOf_onward id x
  | read reader => exact .congr rfl rfl
  | row row hopen => exact takeRow_onward hx row
  | close reason => exact closeWith_onward reason x
  | outside s h => exact .refl _

/-- **Any number of steps.** What has settled stays, and handles are mirrors all the way. -/
theorem Decoding.Steps.mirrored (h : Steps x y) (M : Mirrored options x)
    (L : LoadsApart options x) : Mirrored options y ∧ Onward Entry.Kept x.decoder y.decoder := by
  induction h with
  | refl => exact ⟨M, .refl _⟩
  | tail hsteps hstep ih =>
    exact ⟨hstep.mirrored ih.1 (L.steps hsteps), ih.2.trans (hstep.onward ih.1.named)⟩

theorem mirrored_create (hs : ∀ c, s.PassesTo c → c < s.cells.size) :
    Mirrored options ⟨.create options, s⟩ := by
  refine ⟨rfl, ?_, ?_, ?_, fun c hc => ⟨hs c hc, ?_⟩, fun i w hw => ?_⟩
  · rintro id i ⟨⟩
  · rintro i ⟨⟩
  · rintro i ⟨⟩
  · rintro i ⟨⟩
  · rw [entry_of_size_le _ (Nat.zero_le i)] at hw
    cases hw

/-! ### Rows that come too late -/

/-- The watchers that had to run have run. -/
def Decoder.Idle (d : Decoder) : Prop :=
  (∃ rows reader h, Rests (.fed rows reader) h d) ∨ ∃ h, d.Shut ∧ Booked h [] d

theorem Decoder.Idle.wake {d : Decoder} (h : d.Idle) : d.wake = [] := by
  obtain ⟨_, _, _, C⟩ | ⟨_, S, -⟩ := h
  · exact C.wake
  · exact S.wake

theorem idle_create (options : DecoderOptions) : (Decoder.create options).Idle := by
  obtain ⟨-, C⟩ | ⟨S, B⟩ := between_create options
  · exact .inl ⟨_, _, _, C⟩
  · exact .inr ⟨_, S, B⟩

theorem Decoding.Step.idle (h : Step x y) (hx : x.decoder.Idle) : y.decoder.Idle := by
  obtain ⟨rows, reader, hist, C⟩ | ⟨hist, S, B⟩ := hx
  · cases h with
    | handle id => exact .inl ⟨_, _, _, C.entryOf id⟩
    | read reader' => exact .inl ⟨_, _, _, C.setReader reader'⟩
    | row row hopen => exact .inl ⟨_, _, _, C.takeRow row⟩
    | close reason => exact .inr ⟨_, C.booked.close C.tidy rfl rfl rfl reason⟩
    | outside s h => exact .inl ⟨_, _, _, C⟩
  · cases h with
    | handle id =>
      have hbetween : Between ([] ++ (Call.handle id).bytes) _ _ :=
        Between.perform_of_shut S B x.store (.handle id)
      obtain ⟨-, C⟩ | ⟨S', B'⟩ := hbetween
      · exact .inl ⟨_, _, _, C⟩
      · exact .inr ⟨_, S', B'⟩
    | read reader' => exact .inr ⟨_, ⟨S.closed, S.settled, S.wake, S.watchers⟩, B.congr rfl⟩
    | row row hopen => exact absurd S.closed (by simp [hopen])
    | close reason =>
      rw [closeWith_of_closed S.closed]
      exact .inr ⟨_, S, B⟩
    | outside s h => exact .inr ⟨_, S, B⟩

theorem Decoding.Steps.idle (h : Steps x y) (hx : x.decoder.Idle) : y.decoder.Idle := by
  induction h with
  | refl => exact hx
  | tail _ hstep ih => exact hstep.idle ih

/-- The row of an id has come and no stream is open for it: whatever is not a hint comes too
late. -/
structure TooLate (d : Decoder) (row : RawRow) : Prop where
  sort : row.sort? ≠ some (.tagged .hint)
  known : ∃ i, d.ids.lookup row.id = some i ∧ ¬ (d.entry i).state.isPending
  stream : d.stream? row.id = none

namespace TooLate

variable {row : RawRow}

theorem openRow? (h : TooLate x.decoder row) : DecodeM.openRow? row.id x = (none, x) := by
  obtain ⟨i, hid, hstate⟩ := h.known
  change ((if ((DecodeM.entryOf row.id x).2.decoder.entry
      (DecodeM.entryOf row.id x).1).state.isPending then
    some (DecodeM.entryOf row.id x).1 else none), (DecodeM.entryOf row.id x).2) = _
  rw [entryOf_of_some hid, if_neg hstate]

/-- What would be done for an entry that waits for its row is not done. -/
theorem bind (h : TooLate x.decoder row) {f : Option Nat → DecodeM Unit}
    (hf : f none = Pure.pure ()) : ((DecodeM.openRow? row.id >>= f) x).2 = x := by
  change (f (DecodeM.openRow? row.id x).1 (DecodeM.openRow? row.id x).2).2 = x
  rw [h.openRow?, hf]
  rfl

theorem takeValue (h : TooLate x.decoder row) (o : Outcome) :
    (DecodeM.takeValue row.id o x).2 = x := by
  unfold DecodeM.takeValue
  rw [decoder_bind, h.stream, if_neg (by simp)]
  exact h.bind rfl

/-- What the row says is passed over; at most a cell was made for its bytes. -/
theorem takeIn (h : TooLate x.decoder row) :
    (DecodeM.takeIn row x).2 = x ∨ ∃ data, (DecodeM.takeIn row x).2 =
      ⟨x.decoder, (x.store.make (.binary data)).2⟩ := by
  unfold DecodeM.takeIn
  cases hsort : row.sort? with
  | none => exact .inl rfl
  | some sort =>
    cases sort with
    | model =>
      refine .inl ?_
      change (takeModel row.id (Utf8.decodeLossy row.payload) x).2 = x
      unfold takeModel
      rw [decoder_bind, h.stream, if_neg (by simp)]
      exact h.bind rfl
    | binary kind =>
      change (takeBinary row.id kind row.payload x).2 = x ∨ ∃ data,
        (takeBinary row.id kind row.payload x).2 = _
      unfold takeBinary
      cases Binary.make kind row.payload with
      | error f => exact .inl (h.takeValue (.error (.ofFault f)))
      | ok data =>
        have hmade : TooLate
          (⟨x.decoder, (x.store.make (.binary data)).2⟩ : Decoding).decoder row := h
        exact .inr ⟨data, hmade.takeValue (.ok (x.store.make (.binary data)).1)⟩
    | tagged tag =>
      refine .inl ?_
      cases tag with
      | text => exact h.takeValue (.ok (.string (Utf8.decodeLossy row.payload)))
      | error => exact h.takeValue (.error (errorReason row.payload))
      | postpone => exact h.takeValue (.error (postponeReason row.payload))
      | importing => exact h.bind rfl
      | hint => exact absurd hsort h.sort
      | stream kind => exact h.bind rfl
      | close =>
        change (closeStream row.id (Utf8.decodeLossy row.payload) x).2 = x
        unfold closeStream
        rw [decoder_bind, h.stream, if_neg (by simp)]
        rfl
      | debug => rfl
      | console => rfl
      | timing => rfl

/-- **A row that comes too late** changes nothing. -/
theorem takeRow (h : TooLate x.decoder row) (hwake : x.decoder.wake = []) :
    (DecodeM.takeRow row x).2 = x ∨ ∃ data, (DecodeM.takeRow row x).2 =
      ⟨x.decoder, (x.store.make (.binary data)).2⟩ := by
  have hquiet : ∀ y : Decoding, y.decoder.wake = [] → (runWatchers y).2 = y := fun y hy => by
    unfold runWatchers
    rw [decoder_bind, runWatchersWith, decoder_bind, hy]
    rfl
  rw [takeRow_eq]
  change (runWatchers (DecodeM.takeIn row x).2).2 = x ∨ ∃ data,
    (runWatchers (DecodeM.takeIn row x).2).2 = _
  obtain heq | ⟨data, heq⟩ := h.takeIn
  · rw [heq]
    exact .inl (hquiet x hwake)
  · rw [heq]
    exact .inr ⟨data, hquiet _ hwake⟩

end TooLate

end

/-! ### The main result -/

/-- **Handles are mirrors of entries.** Take a decoder in any state that calls lead to, with anybody
else at work in between who leaves handles alone. The handle of every entry is pending, fulfilled or
rejected as the entry is, with the same value or the same reason. Whatever happens then, an entry
keeps its handle, an entry that has settled stays as it is, and an id keeps its entry. A row that
comes too late is passed over: no entry and no stream changes and no module is loaded; binary data
that nobody gets to see may have become a new cell. -/
theorem handles_mirror_entries {options : DecoderOptions} {s : Store}
    (hs : ∀ c, s.PassesTo c → c < s.cells.size) (hload : LoadsApart options ⟨.create options, s⟩)
    {x : Decoding} (hx : Steps ⟨.create options, s⟩ x) :
    (∀ call : Call, Steps x (call.perform x)) ∧
    (∀ i < x.decoder.entries.size, (x.decoder.entry i).Mirrors x.store) ∧
    (∀ y, Steps x y →
      (∀ i < x.decoder.entries.size, i < y.decoder.entries.size ∧ (y.decoder.entry i).handle =
        (x.decoder.entry i).handle ∧
        ((x.decoder.entry i).state.isTerminal → (y.decoder.entry i).state =
          (x.decoder.entry i).state)) ∧
      ∀ id i, x.decoder.ids.lookup id = some i →
        y.decoder.ids.lookup id = some i ∧ (DecodeM.handle id y).1 = (x.decoder.entry i).handle) ∧
    ∀ row, TooLate x.decoder row → (takeRow row x).2 = x ∨
      ∃ data, (takeRow row x).2 = ⟨x.decoder, (x.store.make (.binary data)).2⟩ := by
  have M := (hx.mirrored (mirrored_create hs) hload).1
  have hidle : x.decoder.Idle := hx.idle (idle_create options)
  refine ⟨steps_perform x, fun i hi => ?_, fun y hy => ?_, fun row hrow => hrow.takeRow hidle.wake⟩
  · obtain ⟨p, hp, ho⟩ := M.handles i hi
    exact Entry.mirrors hp ho
  · have hon := (hy.mirrored M (hload.steps hx)).2
    refine ⟨fun i hi => ⟨Nat.lt_of_lt_of_le hi hon.size, (hon.entry i hi).handle,
      (hon.entry i hi).settled⟩, fun id i hid => ?_⟩
    refine ⟨hon.ids id i hid, ?_⟩
    change ((entryOf id y).2.decoder.entry (entryOf id y).1).handle = _
    rw [entryOf_of_some (hon.ids id i hid)]
    exact (hon.entry i (M.named id i hid)).handle

/-- A loader that only makes cells leaves handles alone. -/
theorem loadsApart_standard {options : DecoderOptions} (h : options.loader = .standard)
    (x : Decoding) : LoadsApart options x := by
  intro y _ m
  rw [h]
  exact .of_steady (.alloc y.store (by rintro p ⟨⟩))

/-- A row that refers to the next one. -/
def pairCall : Call := .feed (utf8 "0:[\"$1\"]\n1:5\n")

/-- A module that was asked for under an id that is taken. -/
def lateImport : RawRow := ⟨0, RowTag.importing.tag, utf8 "[\"m\",[],\"\"]"⟩

theorem handles_mirror_entries_late :
    (pairCall.perform ⟨.create {}, {}⟩).decoder.entries.size = 2 ∧
    ((pairCall.perform ⟨.create {}, {}⟩).decoder.entry 0).state.isTerminal ∧
    ((pairCall.perform ⟨.create {}, {}⟩).decoder.entry 0).Mirrors
      (pairCall.perform ⟨.create {}, {}⟩).store ∧
    TooLate (pairCall.perform ⟨.create {}, {}⟩).decoder lateImport ∧
    ((takeRow lateImport (pairCall.perform ⟨.create {}, {}⟩)).2 =
      pairCall.perform ⟨.create {}, {}⟩ ∨
      ∃ data, (takeRow lateImport (pairCall.perform ⟨.create {}, {}⟩)).2 =
        ⟨(pairCall.perform ⟨.create {}, {}⟩).decoder,
          ((pairCall.perform ⟨.create {}, {}⟩).store.make (.binary data)).2⟩) := by
  have hsize : (pairCall.perform ⟨.create {}, {}⟩).decoder.entries.size = 2 := by decide +kernel
  have hlate : TooLate (pairCall.perform ⟨.create {}, {}⟩).decoder lateImport := by
    refine ⟨?_, ⟨0, by decide +kernel, by decide +kernel⟩, Option.isNone_iff_eq_none.mp
      (by decide +kernel)⟩
    rw [show lateImport.sort? = some (.tagged .importing) from rfl]
    rintro ⟨⟩
  have hempty : ∀ c, ({} : Store).PassesTo c → c < ({} : Store).cells.size := by
    rintro c ⟨id, p, label, name, hp, -⟩
    rw [Store.promise?_eq_none_of_size_le (Nat.zero_le id)] at hp
    cases hp
  have hload : LoadsApart {} ⟨.create {}, {}⟩ := loadsApart_standard rfl _
  obtain ⟨-, hmirrors, -, hpassed⟩ := handles_mirror_entries hempty hload
    (steps_perform ⟨.create {}, {}⟩ pairCall)
  exact ⟨hsize, by decide +kernel, hmirrors 0 (by
    rw [hsize]; decide), hlate, hpassed lateImport hlate⟩

end GraphRows
