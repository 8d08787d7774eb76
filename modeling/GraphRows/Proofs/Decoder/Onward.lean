import GraphRows.Proofs.Decoder.Taking
import GraphRows.Proofs.Decoder.Walking

/-!
# What stays

Whatever is asked of a decoder, some things are there to stay: an entry keeps its handle, a name
keeps its entry, and an entry that has settled keeps its outcome. As long as no watchers are run,
watchers only gather; and while a row is read, no entry so much as changes its state.

`Onward R d d'` says that the entries of `d` became related by `R` in `d'`, with the names kept.
There are three relations of interest, each weaker than the one before: `Entry.Read` while a row is
read, `Entry.Grown` while no watchers run, and `Entry.Kept` always.

## Main results

* `DecodeM.revive_onward`, `DecodeM.takeIn_onward`, `DecodeM.runWatcher_onward`: watchers only
  gather
* `DecodeM.runWatchers_onward`, `DecodeM.takeRow_onward`: what has settled stays
-/

namespace GraphRows

variable {x : Decoding} {e : Entry} {i : Nat}

namespace Entry

/-- What stays of an entry while a row is read. -/
structure Read (e e' : Entry) : Prop where
  handle : e'.handle = e.handle
  state : e'.state = e.state
  watchers : e.watchers <+: e'.watchers

/-- What stays of an entry as long as no watchers are taken off. -/
structure Grown (e e' : Entry) : Prop where
  handle : e'.handle = e.handle
  settled : e.state.isTerminal → e'.state = e.state
  watchers : e.watchers <+: e'.watchers

/-- What stays of an entry. -/
structure Kept (e e' : Entry) : Prop where
  handle : e'.handle = e.handle
  settled : e.state.isTerminal → e'.state = e.state

/-- A relation between what an entry was and what it is. -/
class Lasts (R : Entry → Entry → Prop) : Prop where
  refl : ∀ e, R e e
  trans : ∀ {e e' e''}, R e e' → R e' e'' → R e e''

instance : Lasts Read where
  refl _ := ⟨rfl, rfl, List.prefix_rfl⟩
  trans h h' := ⟨h'.handle.trans h.handle, h'.state.trans h.state, h.watchers.trans h'.watchers⟩

instance : Lasts Grown where
  refl _ := ⟨rfl, fun _ => rfl, List.prefix_rfl⟩
  trans h h' :=
    ⟨h'.handle.trans h.handle, fun ht => (h'.settled (h.settled ht ▸ ht)).trans (h.settled ht),
      h.watchers.trans h'.watchers⟩

instance : Lasts Kept where
  refl _ := ⟨rfl, fun _ => rfl⟩
  trans h h' := ⟨h'.handle.trans h.handle, fun ht => (h'.settled (h.settled ht ▸ ht)).trans
    (h.settled ht)⟩

theorem Read.grown {e' : Entry} (h : Read e e') : Grown e e' :=
  ⟨h.handle, fun _ => h.state, h.watchers⟩

theorem Grown.kept {e' : Entry} (h : Grown e e') : Kept e e' := ⟨h.handle, h.settled⟩

end Entry

namespace Decoder

/-- The entries of a decoder are related to what they became, and keep their names. -/
structure Onward (R : Entry → Entry → Prop) (d d' : Decoder) : Prop where
  size : d.entries.size ≤ d'.entries.size
  ids : ∀ id i, d.ids.lookup id = some i → d'.ids.lookup id = some i
  entry : ∀ i < d.entries.size, R (d.entry i) (d'.entry i)

namespace Onward

variable {R R' : Entry → Entry → Prop} {d d' d'' : Decoder}

theorem congr [Entry.Lasts R] (hentries : d'.entries = d.entries) (hids : d'.ids = d.ids) :
    Onward R d d' :=
  ⟨Nat.le_of_eq (by rw [hentries]), fun _ _ h => hids ▸ h, fun i _ => by
    rw [Decoder.entry, Decoder.entry, hentries]
    exact Entry.Lasts.refl _⟩

theorem refl [Entry.Lasts R] (d : Decoder) : Onward R d d := congr rfl rfl

theorem trans [Entry.Lasts R] (h : Onward R d d') (h' : Onward R d' d'') : Onward R d d'' :=
  ⟨Nat.le_trans h.size h'.size, fun id i hi => h'.ids id i (h.ids id i hi), fun i hi =>
    Entry.Lasts.trans (h.entry i hi) (h'.entry i (Nat.lt_of_lt_of_le hi h.size))⟩

theorem mono (h : Onward R d d') (hR : ∀ e e', R e e' → R' e e') : Onward R' d d' :=
  ⟨h.size, h.ids, fun i hi => hR _ _ (h.entry i hi)⟩

theorem modifyEntry [Entry.Lasts R] {f : Entry → Entry} (hf : R (d.entry i) (f (d.entry i))) :
    Onward R d (d.modifyEntry i f) := by
  refine ⟨Nat.le_of_eq (size_modifyEntry ..).symm, fun _ _ h => h, fun j _ => ?_⟩
  rw [entry_modifyEntry]
  split
  · rename_i h
    exact h.1 ▸ hf
  · exact Entry.Lasts.refl _

theorem push [Entry.Lasts R] (hentries : d'.entries = d.entries.push e)
    (hids : ∀ id i, d.ids.lookup id = some i → d'.ids.lookup id = some i) : Onward R d d' := by
  refine ⟨by rw [hentries, Array.size_push]; exact Nat.le_succ _, hids, fun i hi => ?_⟩
  have : d'.entry i = d.entry i := by
    rw [Decoder.entry, hentries]
    exact (entry_push d e i).trans (if_neg (Nat.ne_of_lt hi))
  rw [this]
  exact Entry.Lasts.refl _

end Onward

end Decoder

open Decoder

namespace DecodeM

variable {R : Entry → Entry → Prop} {d : Decoder} {α β : Type} {target : Nat}

/-- A step after which the entries are related to what they were. -/
def Goes (R : Entry → Entry → Prop) (m : DecodeM α) : Prop :=
  ∀ x, Onward R x.decoder (m x).2.decoder

namespace Goes

variable [Entry.Lasts R]

theorem pure (a : α) : Goes R (Pure.pure a : DecodeM α) := fun x => .refl x.decoder

theorem bind {m : DecodeM α} {f : α → DecodeM β} (hm : Goes R m) (hf : ∀ a, Goes R (f a)) :
    Goes R (m >>= f) :=
  fun x => (hm x).trans (hf _ _)

theorem decoder : Goes R DecodeM.decoder := fun x => .refl x.decoder

theorem store : Goes R DecodeM.store := fun x => .refl x.decoder

theorem modifyStore (f : Store → Store) : Goes R (DecodeM.modifyStore f) := fun x => .refl x.decoder

theorem onStore (f : Store → α × Store) : Goes R (DecodeM.onStore f) := fun x => .refl x.decoder

omit [Entry.Lasts R] in
theorem modifyDecoder {f : Decoder → Decoder} (hf : ∀ d, Onward R d (f d)) :
    Goes R (DecodeM.modifyDecoder f) :=
  fun x => hf x.decoder

omit [Entry.Lasts R] in
theorem mono {R' : Entry → Entry → Prop} {m : DecodeM α} (h : Goes R m)
    (hR : ∀ e e', R e e' → R' e e') : Goes R' m :=
  fun x => (h x).mono hR

end Goes

theorem habit_goes [Entry.Lasts R] : Habit fun _ => Goes R where
  pure := .pure
  bind := .bind
  decoder hf _ := .bind .decoder hf
  store := .store

/-! ### While a row is read -/

theorem newEntry_onward [Entry.Lasts R] (state : EntryState) : Goes R (newEntry state) := by
  intro x
  cases state <;> exact .push rfl fun _ _ h => h

theorem entryOf_onward [Entry.Lasts R] (id : Nat) : Goes R (entryOf id) := by
  intro x
  cases h : x.decoder.ids.lookup id with
  | some i =>
    rw [entryOf_of_some h]
    exact .refl _
  | none =>
    cases hclosed : x.decoder.closed with
    | none =>
      rw [entryOf_of_none h hclosed]
      exact .push rfl fun _ _ => lookup_cons_of_lookup h
    | some r =>
      rw [entryOf_of_closed h hclosed]
      exact .push rfl fun _ _ => lookup_cons_of_lookup h

theorem resolve_onward [Entry.Lasts R] (index : Nat) (v : Value) (path : List String)
    (shape : Shape) : Goes R (resolve index v path shape) := by
  intro x
  exact resolve_ensures (P := Onward R x.decoder) (fun d derived h => h.trans (.congr rfl rfl))
    index v path shape x (.refl _)

/-- A watcher is put on an entry. -/
theorem watch_read (w : Watcher) (e : Entry) : e.Read { e with watchers := e.watchers ++ [w] } :=
  ⟨rfl, rfl, List.prefix_append _ _⟩

theorem modifyDraft_read (i : Nat) (f : Draft → Draft) :
    Goes Entry.Read (modifyDecoder (·.modifyDraft i f)) :=
  .modifyDecoder fun _ => .modifyEntry ⟨rfl, rfl, List.prefix_rfl⟩

theorem reads_onward (target : Nat) : Reads (fun _ => Goes Entry.Read) target where
  toHabit := habit_goes
  entryOf := entryOf_onward
  resolve := resolve_onward
  leaveHole := habit_goes.leaveHole (modifyDraft_read target) fun _ _ _ _ _ => .modifyDecoder
    fun _ => .modifyEntry (watch_read _ _)
  temporary _ _ := .onStore _
  container _ hm hf := .bind (.onStore _) fun c => .bind (hm c) fun a => by
    rcases hf c a with ⟨o, hdone⟩ | ⟨cell, o, -, hdone⟩ <;> rw [hdone]
    · exact .pure _
    · exact .bind (.modifyStore _) fun _ => .pure _

/-- **While a row is read**, entries keep their states and watchers gather. -/
theorem revive_onward (j : Json) (hole : Hole) : Goes Entry.Read (revive target hole j) :=
  (reads_onward target).revive hole j

/-! ### While no watchers run -/

theorem settleEntry_onward (i : Nat) (o : Outcome) : Goes Entry.Grown (settleEntry i o) := by
  intro x
  cases h : (x.decoder.entry i).state.isTerminal with
  | true =>
    rw [settleEntry_of_terminal h]
    exact .refl _
  | false =>
    obtain ⟨state, s, -, heq⟩ := settleEntry_of_open (o := o) h
    rw [heq]
    have hstate : Onward Entry.Grown x.decoder (x.decoder.modifyEntry i ({ · with state })) :=
      .modifyEntry ⟨rfl, fun ht => absurd (h.symm.trans ht) Bool.false_ne_true, List.prefix_rfl⟩
    exact hstate.trans (.congr rfl rfl)

theorem modifyDraft_onward (i : Nat) (f : Draft → Draft) :
    Goes Entry.Grown (modifyDecoder (·.modifyDraft i f)) :=
  (modifyDraft_read i f).mono fun _ _ => Entry.Read.grown

/-- An open entry changes its state. -/
theorem restate_onward (hi : (d.entry i).state.isTerminal = false) (state : EntryState) :
    Onward Entry.Grown d (d.modifyEntry i ({ · with state })) :=
  .modifyEntry ⟨rfl, fun ht => absurd (hi.symm.trans ht) Bool.false_ne_true, List.prefix_rfl⟩

/-- **A row is read for an open entry.** -/
theorem reviveRow_onward (hi : i < x.decoder.entries.size)
    (hopen : (x.decoder.entry i).state.isTerminal = false) (text : String) :
    Onward Entry.Grown x.decoder (reviveRow i text x).2.decoder := by
  let I : Decoding → Prop := fun y =>
    Onward Entry.Grown x.decoder y.decoder ∧ i < y.decoder.entries.size ∧
      (y.decoder.entry i).state = .reviving
  have kept : ∀ {α : Type} {m : DecodeM α}, Goes Entry.Read m → Ensures I m fun _ => I := by
    rintro α m hm y ⟨hon, hsize, hstate⟩
    have h := hm y
    exact ⟨hon.trans (h.mono fun _ _ => Entry.Read.grown), Nat.lt_of_lt_of_le hsize h.size,
      (h.entry i hsize).state.trans hstate⟩
  have grown : ∀ {m : DecodeM Unit}, Goes Entry.Grown m →
      Ensures I m fun _ y => Onward Entry.Grown x.decoder y.decoder :=
        fun hm y hy => hy.1.trans (hm y)
  suffices h : Ensures (· = x) (reviveRow i text) fun _ y =>
    Onward Entry.Grown x.decoder y.decoder from h x rfl
  unfold reviveRow
  split
  · rintro y rfl
    exact settleEntry_onward i _ y
  · rename_i j _
    refine .bind (Q := fun _ => I) (.modifyDecoder ?_) fun _ =>
      .bind (kept (revive_onward j .root)) fun r => ?_
    · rintro y rfl
      exact ⟨restate_onward hopen _, (size_modifyEntry ..).symm ▸
        hi, by rw [entry_modifyEntry_self _ _ hi]⟩
    · cases r with
      | error r => exact grown (.bind (modifyDraft_onward i _) fun _ => settleEntry_onward i _)
      | ok v =>
        refine .bind (Q := fun _ => I) (kept (modifyDraft_read i _)) fun _ =>
          .bind .decoder fun d => .pre (P := I) ?_ fun y hy => hy.1
        split
        · exact grown (settleEntry_onward i _)
        · refine .modifyDecoder ?_
          rintro y ⟨hon, -, hstate⟩
          exact hon.trans (restate_onward (by rw [hstate]; rfl) _)

theorem fillHole_onward (index : Nat) (hole : Hole) (path : List String) (shape : Shape)
    (cyclic : Bool) : Goes Entry.Grown (fillHole index target hole path shape cyclic) :=
  habit_goes.fillHole resolve_onward (modifyDraft_onward target) (settleEntry_onward target)
    (fun _ _ => .modifyStore _) index hole path shape cyclic

theorem deliverWith_onward (id fuel : Nat) : Goes Entry.Grown (deliverWith fuel id) :=
  habit_goes.deliverWith (fun _ => .modifyDecoder fun _ => .congr rfl rfl)
    (.modifyDecoder fun _ => .congr rfl rfl)
    (fun _ _ => .modifyStore _) (fun _ => .modifyDecoder fun _ =>
      .modifyEntry (watch_read _ _).grown) fuel

theorem deliver_onward (id : Nat) : Goes Entry.Grown (deliver id) :=
  .bind .decoder fun _ => deliverWith_onward id _

theorem enqueue_onward (id : Nat) (entry : StreamEntry) : Goes Entry.Grown (enqueue id entry) :=
  habit_goes.enqueue (fun _ => .modifyDecoder fun _ => .congr rfl rfl) (deliver_onward id) entry

/-- **One watcher runs.** -/
theorem runWatcher_onward (index : Nat) (w : Watcher) : Goes Entry.Grown (runWatcher index w) := by
  cases w with
  | hole target hole path shape cyclic => exact fillHole_onward index hole path shape cyclic
  | stream id => exact deliver_onward id

/-! ### Rows -/

/-- Names belong to entries that are there. -/
def Named (x : Decoding) : Prop :=
  ∀ id i, x.decoder.ids.lookup id = some i → i < x.decoder.entries.size

theorem entryOf_lt_size (hx : Named x) (id : Nat) :
    (entryOf id x).1 < (entryOf id x).2.decoder.entries.size := by
  cases h : x.decoder.ids.lookup id with
  | some i =>
    rw [entryOf_of_some h]
    exact hx id i h
  | none =>
    cases hclosed : x.decoder.closed with
    | none =>
      rw [entryOf_of_none h hclosed]
      exact Array.size_push _ ▸ Nat.lt_succ_self _
    | some r =>
      rw [entryOf_of_closed h hclosed]
      exact Array.size_push _ ▸ Nat.lt_succ_self _

/-- The state is reached from `d` without a watcher being taken off. -/
def From (d : Decoder) (y : Decoding) : Prop := Onward Entry.Grown d y.decoder

theorem Goes.from_ensures {m : DecodeM α} (hm : Goes Entry.Grown m) :
    Ensures (From d) m fun _ => From d :=
  fun y hy => Onward.trans hy (hm y)

/-- The entry of an id that no row has come for is there. -/
theorem openRow?_onward (id : Nat) :
    Ensures (fun y => From d y ∧ Named y) (openRow? id) fun o y =>
    From d y ∧ ∀ i, o = some i → i < y.decoder.entries.size ∧
      (y.decoder.entry i).state.isTerminal = false := by
  unfold openRow?
  refine .bind (Q := fun i y => From d y ∧ i < y.decoder.entries.size) ?_ fun i => .bind .decoder
    fun d' => .pure ?_
  · rintro y ⟨hy, hnamed⟩
    exact ⟨hy.trans (entryOf_onward id y), entryOf_lt_size hnamed id⟩
  · rintro y ⟨⟨hy, hi⟩, rfl⟩
    refine ⟨hy, fun j hj => ?_⟩
    cases hpending : (y.decoder.entry i).state.isPending with
    | false => simp [hpending] at hj
    | true =>
      obtain rfl : i = j := by simpa [hpending] using hj
      refine ⟨hi, ?_⟩
      cases hs : (y.decoder.entry i).state <;>
        simp [hs, EntryState.isPending, EntryState.isTerminal] at hpending ⊢

/-- A model that is an item or the last word of a stream has an entry of its own. -/
theorem reviveItem_onward (text : String) :
    Goes Entry.Grown (newEntry .pending >>= fun i => reviveRow i text) := by
  intro x
  have hnew : Onward Entry.Grown x.decoder (newEntry .pending x).2.decoder :=
    newEntry_onward .pending x
  have hblank := isBlank_pending x.store.newPromise.1
  exact hnew.trans (reviveRow_onward (x := (newEntry .pending x).2) (i := x.decoder.entries.size)
    (Array.size_push _ ▸ Nat.lt_succ_self _) (by
      rw [(hblank.push (d := x.decoder) rfl x.decoder.entries.size).1, entry_of_size_le x.decoder
        (Nat.le_refl _)]
      rfl) text)

/-- What it takes to take a row in. -/
theorem receives_onward (row : RawRow) :
    Receives row (fun _ y => From d y ∧ Named y) (From d) fun _ i y =>
    From d y ∧ i < y.decoder.entries.size ∧ (y.decoder.entry i).state.isTerminal = false where
  rest _ _ h _ := h.1
  text _ _ h := h
  refused _ _ _ h := h
  binary _ _ _ _ _ h := h
  openRow _ _ := ((openRow?_onward row.id).pre fun _ h => h.1).post fun _ _ h =>
    ⟨fun _ => h.1, fun i hi => ⟨h.1, h.2 i hi⟩⟩
  settle _ i o := (settleEntry_onward i o).from_ensures.pre fun _ h => h.1
  revive _ _ _ h := Onward.trans h.1 (reviveRow_onward h.2.1 h.2.2 _)
  load _ i := .bind ((loadModule_ensures (P := Onward Entry.Grown d) _).pre fun _ h => h.1) fun o =>
    (settleEntry_onward i o).from_ensures
  stream _ _ i := Ensures.pre (Goes.from_ensures
    (.bind (.onStore _) fun _ => .bind (.modifyDecoder fun _ => .congr rfl rfl) fun _ =>
    settleEntry_onward i _)) fun _ h => h.1
  item _ e _ _ y h := (enqueue_onward row.id (e _)).from_ensures _
    (Onward.trans h.1.1 (reviveItem_onward _ y))
  enqueue _ e _ _ := (enqueue_onward row.id e).from_ensures.pre fun _ h => h.1.1
  note _ _ _ h := h

/-- **A row is taken in.** -/
theorem takeIn_onward (hx : Named x) (row : RawRow) :
    Onward Entry.Grown x.decoder (takeIn row x).2.decoder :=
  (receives_onward row).takeIn x ⟨.refl _, hx⟩

/-! ### While watchers run -/

theorem runWatchersWith_onward (fuel : Nat) : Goes Entry.Kept (runWatchersWith fuel) := by
  induction fuel with
  | zero => exact .pure _
  | succ fuel ih =>
    unfold runWatchersWith
    refine .bind .decoder fun d => ?_
    split
    · exact .pure _
    · rename_i i rest _
      refine .bind .decoder fun d' => .bind (.modifyDecoder fun _ => .congr rfl rfl) fun _ =>
        .bind (.modifyDecoder fun _ => .modifyEntry ⟨rfl, fun _ => rfl⟩) fun _ =>
          .bind ?_ fun _ => ih
      exact habit_goes.forM (fun w => (runWatcher_onward i w).mono fun _ _ => Entry.Grown.kept) _

/-- **Watchers run**, and what has settled stays. -/
theorem runWatchers_onward : Goes Entry.Kept runWatchers :=
  .bind .decoder fun _ => runWatchersWith_onward _

theorem takeRow_onward (hx : Named x) (row : RawRow) :
    Onward Entry.Kept x.decoder (takeRow row x).2.decoder := by
  rw [takeRow_eq]
  exact Onward.trans ((takeIn_onward hx row).mono fun _ _ => Entry.Grown.kept)
    (runWatchers_onward _)

end DecodeM

end GraphRows
