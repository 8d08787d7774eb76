import GraphRows.Proofs.Decoder.Walking
import GraphRows.Proofs.Decoder.Tidy

/-!
# Reading a row keeps a decoder in good order

While the row of an entry is read, references to other entries are resolved, leave holes, or fail.
Holes are left across a barrier or do not count, so that nothing ends up waiting for itself; and
every id the row speaks of gets an entry.

The first lemmas say exactly what the small steps do to the decoder. The store plays no part in any
of this: whatever it answers, the books of the decoder stay the same.

## Main results

* `DecodeM.revive_ensures`: the values of a row, for every JSON value
* `DecodeM.reviveRow_ensures`: a whole row, which leaves its entry settled or blocked
-/

namespace GraphRows

open Decoder

variable {d : Decoder} {o : Outcome}

/-- The state an outcome leaves an entry in. -/
def settledAs : Outcome → EntryState
  | .ok v => .fulfilled v
  | .error r => .rejected r

namespace DecodeM

variable {a : Affairs} {x : Decoding} {i id : Nat}

/-! ### Entries -/

theorem entryOf_of_some (h : x.decoder.ids.lookup id = some i) : entryOf id x = (i, x) := by
  unfold entryOf
  rw [decoder_bind, h]
  rfl

theorem entryOf_of_none (h : x.decoder.ids.lookup id = none) (hclosed : x.decoder.closed = none) :
    entryOf id x = (x.decoder.entries.size,
      ⟨{ x.decoder with
          entries := x.decoder.entries.push { state := .pending, handle := x.store.newPromise.1 }
          ids := (id, x.decoder.entries.size) :: x.decoder.ids }, x.store.newPromise.2⟩) := by
  unfold entryOf
  rw [decoder_bind, h, hclosed]
  rfl

/-- A closed decoder rejects what it is asked for. -/
theorem entryOf_of_closed {r : Rejection} (h : x.decoder.ids.lookup id = none)
    (hclosed : x.decoder.closed = some r) :
    entryOf id x = (x.decoder.entries.size,
      ⟨{ x.decoder with
          entries := x.decoder.entries.push { state := .rejected r, handle := x.store.newPromise.1 }
          ids := (id, x.decoder.entries.size) :: x.decoder.ids },
        (x.store.newPromise.2.settle x.store.newPromise.1 (.error r)).2⟩) := by
  unfold entryOf
  rw [decoder_bind, h, hclosed]
  rfl

theorem isBlank_pending (handle : CellId) : ({ state := .pending, handle } : Entry).IsBlank :=
  ⟨rfl, rfl, rfl⟩

/-- The entry of an id, with whatever holds of entries that are there already. -/
theorem entryOf_ensures {P : Decoding → Prop} (hopen : a.closed = none)
    (hP : ∀ x, P x → Tidy a x.decoder) (hwanted : a.wanted id)
    (hkeep : ∀ x y e, P x → e.IsBlank → y.decoder.entries = x.decoder.entries.push e →
      (∀ k j, y.decoder.ids.lookup k = some j →
        x.decoder.ids.lookup k = some j ∨ j = x.decoder.entries.size) → Tidy a y.decoder → P y) :
    Ensures P (entryOf id) fun i x => P x ∧ x.decoder.ids.lookup id = some i := by
  intro x hx
  have T := hP x hx
  cases h : x.decoder.ids.lookup id with
  | some i =>
    rw [entryOf_of_some h]
    exact ⟨hx, h⟩
  | none =>
    rw [entryOf_of_none h (T.orderly.alive.1.trans hopen)]
    refine ⟨hkeep x _ _ hx (isBlank_pending x.store.newPromise.1) rfl
      (fun k j hj => (lookup_of_lookup_cons hj).imp_right And.right) ?_, List.lookup_cons_self⟩
    refine ⟨T.orderly.newRow (isBlank_pending _) h hwanted, T.waits.newEntry (isBlank_pending _) rfl
      (fun k j hj => ?_) (fun k j hj => ?_) rfl⟩
    · exact lookup_cons_of_lookup h hj
    · exact (lookup_of_lookup_cons hj).imp_right And.right

/-- **An open entry settles**: its state, its handle, and who is to be woken. -/
theorem settleEntry_eq_of_open (h : (x.decoder.entry i).state.isTerminal = false) (o : Outcome) :
    settleEntry i o x =
      ((), ⟨{ x.decoder.modifyEntry i ({ · with state := settledAs o }) with
        wake := x.decoder.wake ++ [i] }, (x.store.settle (x.decoder.entry i).handle o).2⟩) := by
  change (if (x.decoder.entry i).state.isTerminal then Pure.pure () else _ : DecodeM Unit) x = _
  rw [if_neg (by simp [h])]
  cases o <;> rfl

/-- Settling an entry that is not settled. -/
theorem settleEntry_of_open (h : (x.decoder.entry i).state.isTerminal = false) :
    ∃ state s, state.isTerminal = true ∧ settleEntry i o x =
      ((), ⟨{ x.decoder.modifyEntry i ({ · with state }) with wake := x.decoder.wake ++ [i] },
        s⟩) :=
  ⟨settledAs o, _, by cases o <;> rfl, settleEntry_eq_of_open h o⟩

theorem settleEntry_of_terminal (h : (x.decoder.entry i).state.isTerminal) :
    settleEntry i o x = ((), x) := by
  change (if (x.decoder.entry i).state.isTerminal then Pure.pure () else _ : DecodeM Unit) x = _
  rw [if_pos h]
  rfl

/-- The change that settles an entry. -/
theorem changed_settle (hi : i < d.entries.size) (state : EntryState) :
    Changed d { d.modifyEntry i ({ · with state }) with wake := d.wake ++ [i] } i
      ({ · with state }) :=
  let h := changed_modifyEntry hi ({ · with state })
  ⟨h.size, h.ids, h.closed, h.reader, h.entry⟩

/-- **Settling an entry** keeps the order. -/
theorem settleEntry_ensures (i : Nat) (o : Outcome) :
    Ensures (fun x => Tidy a x.decoder ∧ i < x.decoder.entries.size ∧ a.Heard x.decoder i)
      (settleEntry i o) fun _ x => Tidy a x.decoder ∧ (x.decoder.entry i).state.isTerminal := by
  rintro x ⟨T, hi, hheard⟩
  cases h : (x.decoder.entry i).state.isTerminal with
  | true =>
    rw [settleEntry_of_terminal h]
    exact ⟨T, h⟩
  | false =>
    obtain ⟨state, s, hstate, heq⟩ := settleEntry_of_open (o := o) h
    rw [heq]
    have hchanged := changed_settle hi state
    refine ⟨⟨?_, T.waits.settle hchanged rfl rfl rfl hstate⟩, by rw [hchanged.self]; exact hstate⟩
    refine T.orderly.changed hchanged rfl (fun hp => ?_) (fun hr => ?_) (fun _ => hstate)
      (fun _ h => h) fun _ => hheard
    · cases state <;> simp [EntryState.isTerminal, EntryState.isPending] at hstate hp
    · subst hr
      cases hstate

/-- An open entry settles right after a change that by itself would not keep the order. -/
theorem settleEntry_after {f : Entry → Entry} (T : Tidy a x.decoder)
    (hi : i < x.decoder.entries.size) (hheard : a.Heard x.decoder i)
    (hopen : (x.decoder.entry i).state.isTerminal = false)
    (hstate : (f (x.decoder.entry i)).state = (x.decoder.entry i).state)
    (hwatchers : (f (x.decoder.entry i)).watchers = (x.decoder.entry i).watchers)
    (hwaiting : (f (x.decoder.entry i)).draft.waitingOn = (x.decoder.entry i).draft.waitingOn) :
    Tidy a (settleEntry i o ⟨x.decoder.modifyEntry i f, x.store⟩).2.decoder ∧
      ((settleEntry i o
        ⟨x.decoder.modifyEntry i f, x.store⟩).2.decoder.entry i).state.isTerminal := by
  have hmark := changed_modifyEntry hi f
  have hopen' : ((x.decoder.modifyEntry i f).entry i).state.isTerminal =
    false := by rw [hmark.self, hstate, hopen]
  obtain ⟨state, s, hterminal, heq⟩ := settleEntry_of_open
    (x := ⟨x.decoder.modifyEntry i f, x.store⟩) (o := o) hopen'
  rw [heq]
  have hchanged := hmark.trans (changed_settle (hmark.size ▸ hi) state)
  refine ⟨⟨?_, T.waits.settle hchanged rfl hwatchers hwaiting hterminal⟩, by
    rw [hchanged.self]; exact hterminal⟩
  refine T.orderly.changed hchanged rfl (fun hp => ?_) (fun hr => ?_) (fun _ => hterminal)
    (fun _ h => ?_) fun _ => hheard
  · replace hp : state.isPending := hp
    cases state <;> simp [EntryState.isTerminal, EntryState.isPending] at hterminal hp
  · obtain rfl : state = .reviving := hr
    cases hterminal
  · change _ ∈ (f _).watchers
    rwa [hwatchers]

/-- Construction fails: the draft is marked and the entry settles. -/
theorem fail_ensures (i : Nat) (reason : Rejection) :
    Ensures (fun x => Tidy a x.decoder ∧ i < x.decoder.entries.size ∧ a.Heard x.decoder i)
      (do
        modifyDecoder (·.modifyDraft i ({ · with failed := true }))
        settleEntry i (.error reason))
      fun _ x => Tidy a x.decoder ∧ (x.decoder.entry i).state.isTerminal := by
  rintro x ⟨T, hi, hheard⟩
  cases h : (x.decoder.entry i).state.isTerminal with
  | false => exact settleEntry_after T hi hheard h rfl rfl rfl
  | true =>
    have hmark := changed_modifyEntry hi fun e =>
      { e with draft := { e.draft with failed := true } }
    have T' : Tidy a (x.decoder.modifyEntry i
        fun e => { e with draft := { e.draft with failed := true } }) := by
      refine ⟨?_, T.waits.restate hmark rfl rfl ⟨rfl, rfl⟩ (fun _ => .inr h) rfl (fun h => h)
        (T.waits.blocked i)⟩
      exact T.orderly.touched hmark rfl rfl (fun _ h => h) fun _ _ h => h
    exact settleEntry_ensures i (.error reason) ⟨_, x.store⟩ ⟨T', hmark.size ▸ hi, hheard⟩

/-- What a reference makes of an entry is remembered, and nothing else of the decoder changes. -/
theorem resolve_ensures {P : Decoder → Prop} (hP : ∀ d derived, P d → P { d with derived })
    (index : Nat) (v : Value) (path : List String) (shape : Shape) :
    Ensures (fun x => P x.decoder) (resolve index v path shape) fun _ x => P x.decoder :=
  (habit_ensures _).resolve (fun _ _ _ _ _ => .onStore fun _ hx => hx)
    (fun _ _ => .modifyDecoder fun _ hx => hP _ _ hx) index v path shape

/-! ### References -/

/-- The row of `target` is being read, a row that may go by the ids with `N`. -/
structure Reading (a : Affairs) (N : Nat → Prop) (target : Nat) (d : Decoder) : Prop where
  tidy : Tidy a d
  state : (d.entry target).state = .reviving
  names : ∀ k, d.ids.lookup k = some target → N k

variable {target : Nat} {N : Nat → Prop}

theorem reading_derived (d : Decoder) (derived : List ((Nat × Shape) × Value))
    (h : Reading a N target d) : Reading a N target { d with derived } :=
  ⟨⟨h.tidy.orderly.congr rfl rfl rfl rfl rfl, h.tidy.waits.congr rfl rfl rfl⟩, h.state, h.names⟩

theorem Reading.not_isPending (h : Reading a N target d) :
    (d.entry target).state.isPending = false := by
  rw [h.state]
  rfl

theorem Reading.lt_size (h : Reading a N target d) : target < d.entries.size :=
  lt_size_of_not_isPending _ h.not_isPending

theorem Reading.heard (h : Reading a N target d) : a.Heard d target :=
  h.tidy.orderly.heard target h.not_isPending

/-- **A hole is left** on an entry that is not settled, across a barrier if it counts. -/
theorem leaveHole_ensures (index : Nat) (path : List String) (shape : Shape) (hole : Hole)
    (cyclic : Bool) :
    Ensures (fun x => Reading a N target x.decoder ∧ index < x.decoder.entries.size ∧
        (x.decoder.entry index).state.isTerminal = false ∧
        (∃ id, x.decoder.ids.lookup id = some index ∧ a.spoken id ∧ ∀ k, N k → a.refers k id) ∧
        (cyclic = false → ∃ S, x.decoder.Barrier target S ∧ S index))
      (leaveHole target index path shape hole cyclic) fun _ x => Reading a N target x.decoder := by
  rintro x ⟨hx, hi, hopen, hspoken, hbarrier⟩
  have ht := hx.lt_size
  have hpending := hx.not_isPending
  obtain ⟨T, hstate, hnames⟩ := hx
  have htarget : ∀ t, (Watcher.hole target hole path shape cyclic).target? = some t → t = target :=
    fun t h => (Option.some.inj h).symm
  cases cyclic with
  | true =>
    have hwatch := changed_modifyEntry hi fun e =>
      { e with watchers := e.watchers ++ [.hole target hole path shape true] }
    refine ⟨⟨?_, T.waits.watch hi hopen (fun _ => rfl) (fun t h => htarget t h ▸ hpending) hwatch
      rfl⟩, (hwatch.field (·.state) rfl target).trans hstate, hnames⟩
    exact T.orderly.touched hwatch rfl rfl (fun _ h => List.mem_append_left _ h) fun _ _ h => h
  | false =>
    obtain ⟨S, hS, hindex⟩ := hbarrier rfl
    have hcount := changed_modifyEntry ht fun e =>
      { e with draft := { e.draft with
          holes := e.draft.holes + 1
          waitingOn := e.draft.waitingOn ++ [index] } }
    have hwatch := changed_modifyEntry (hcount.size ▸ hi) fun e =>
      { e with watchers := e.watchers ++ [.hole target hole path shape false] }
    have O : Orderly a _ := T.orderly.touched hcount rfl rfl (fun _ h => h) fun _ _ h => h
    have hspoken' : ∃ id, x.decoder.ids.lookup id = some index ∧ a.spoken id ∧
        ∀ k, x.decoder.ids.lookup k = some target → a.refers k id :=
      hspoken.imp fun id h => ⟨h.1, h.2.1, fun k hk => h.2.2 k (hnames k hk)⟩
    refine ⟨⟨?_, T.waits.hole hS hindex hi hspoken' hopen hpending (fun _ => rfl)
      htarget hcount hwatch rfl⟩,
      ((hwatch.field (·.state) rfl target).trans (hcount.field (·.state) rfl target)).trans hstate,
        hnames⟩
    exact O.touched hwatch rfl rfl (fun _ h => List.mem_append_left _ h) fun _ _ h => h

theorem reading_newRow (x y : Decoding) (e : Entry) (hx : Reading a N target x.decoder)
    (he : e.IsBlank) (hentries : y.decoder.entries = x.decoder.entries.push e)
    (hids : ∀ k j, y.decoder.ids.lookup k = some j →
      x.decoder.ids.lookup k = some j ∨ j = x.decoder.entries.size)
    (hy : Tidy a y.decoder) : Reading a N target y.decoder := by
  refine ⟨hy, (he.push hentries target).1.trans hx.state, fun k hk => ?_⟩
  exact hx.names k ((hids k target hk).resolve_right (Nat.ne_of_lt hx.lt_size))

/-- **A reference** is resolved, left open or refused; in each case the order is kept. -/
theorem reference_ensures (hclosed : a.closed = none) (hwanted : a.wanted id)
    (hspoken : a.spoken id) (hrefers : ∀ k, N k → a.refers k id) (path : List String)
    (shape : Shape) (hole : Hole) :
    Ensures (fun x => Reading a N target x.decoder) (reference target id path shape hole)
      fun _ x => Reading a N target x.decoder := by
  unfold reference
  refine .bind (entryOf_ensures hclosed (fun x hx => hx.tidy) hwanted reading_newRow) fun index =>
    .bind .decoder fun d => ?_
  have left : ∀ cyclic, (d.entry index).state.isTerminal = false →
      (cyclic = false → Reading a N target d → ∃ S, d.Barrier target S ∧ S index) →
      Ensures (fun x => (Reading a N target x.decoder ∧ x.decoder.ids.lookup id = some index) ∧
        x.decoder = d) (leaveHole target index path shape hole cyclic) fun _ x =>
          Reading a N target x.decoder := by
    intro cyclic hopen hbarrier
    refine (leaveHole_ensures index path shape hole cyclic).pre ?_
    rintro x ⟨⟨hx, hlookup⟩, rfl⟩
    exact ⟨hx, hx.tidy.orderly.named id index hlookup, hopen, ⟨id, hlookup, hspoken, hrefers⟩,
      fun h => hbarrier h hx⟩
  split
  · exact (resolve_ensures reading_derived index _ path shape).pre fun x hx => hx.1.1
  · exact .pure fun x hx => hx.1.1
  · rename_i hstate
    exact left true (by rw [hstate]; rfl) nofun
  · rename_i hstate
    refine left false (by rw [hstate]; rfl) fun _ R => ⟨(· = index), ⟨?_, ?_⟩, rfl⟩
    · rintro rfl
      exact absurd (hstate.symm.trans R.state) nofun
    · rintro t i rfl ⟨-, -, hmem⟩
      rw [R.tidy.waits.blank t (by rw [hstate]; rfl)] at hmem
      cases hmem
  · rename_i hstate
    refine .bind .decoder fun d' => .pre
      (P := fun x => ((Reading a N target x.decoder ∧ x.decoder.ids.lookup id = some index) ∧
        x.decoder = d) ∧ d' = d) ?_
      fun x hx => ⟨hx.1, hx.2.symm.trans hx.1.2⟩
    by_cases hd : d' = d
    case neg => exact fun x hx => absurd hx.2 hd
    subst hd
    split
    · refine .bind ((habit_ensures _).partialValue? index path shape hole) fun v => ?_
      split
      · exact .pure fun x hx => hx.1.1.1
      · exact (left true (by rw [hstate]; rfl) nofun).pre fun x hx => hx.1
    · rename_i hwaits
      refine (left false (by rw [hstate]; rfl) fun _ R => ?_).pre fun x hx => hx.1
      refine exists_barrier_of_waitsOn R.tidy.waits.blank ?_ (by simpa using hwaits)
      rintro rfl
      exact absurd (hstate.symm.trans R.state) nofun

/-! ### Values -/

theorem speaks_reading (hclosed : a.closed = none) :
    Speaks (fun _ m => Ensures (fun x => Reading a N target x.decoder) m
    fun _ x => Reading a N target x.decoder) target a.wanted fun n => a.spoken n ∧ ∀ k, N k →
      a.refers k n where
  toHabit := habit_ensures _
  entryOf _ hwanted := (entryOf_ensures hclosed (fun _ hx => hx.tidy) hwanted reading_newRow).post
    fun _ _ hx => hx.1
  reference _ path shape hole hwanted hspoken := reference_ensures hclosed hwanted hspoken.1
    hspoken.2 path shape hole
  temporary _ _ := .onStore fun _ hx => hx
  container _ hm hf := .bind (.onStore fun _ hx => hx) fun c => .bind (hm c) fun b => by
    rcases hf c b with ⟨o, hdone⟩ | ⟨cell, o, -, hdone⟩ <;> rw [hdone]
    · exact .pure fun _ hx => hx
    · exact .bind (.modifyStore fun _ hx => hx) fun _ => .pure fun _ hx => hx

/-- **The values of a row keep the order**, for every row. -/
theorem revive_ensures (hclosed : a.closed = none) (j : Json) (hole : Hole)
    (hwanted : ∀ n, j.Mentions n → a.wanted n)
    (hspoken : ∀ n ∈ j.referents, a.spoken n ∧ ∀ k, N k → a.refers k n) :
    Ensures (fun x => Reading a N target x.decoder) (revive target hole j) fun _ x =>
      Reading a N target x.decoder :=
  (speaks_reading hclosed).revive hole j hwanted hspoken

/-! ### Rows -/

/-- An entry whose row is being read settles, and is read no more. -/
theorem finish_settled (ha : a.busy = some i) (T : Tidy a d) (h : (d.entry i).state.isTerminal) :
    Tidy { a with busy := none } d ∧ (d.entry i).state.isPending = false := by
  have hpending := EntryState.not_isPending_of_isTerminal h
  refine ⟨⟨T.orderly.finish ha hpending fun hr => ?_, T.waits⟩, hpending⟩
  rw [hr] at h
  cases h

/-- A row begins to be read. -/
theorem reading_begin (ha : a.busy = some i) (T : Tidy a d) (hi : i < d.entries.size)
    (hstate : (d.entry i).state = .pending) (hnames : ∀ k, d.ids.lookup k = some i → N k)
    (hN : ∀ k, N k → a.arrived k) :
    Reading a N i (d.modifyEntry i ({ · with state := .reviving })) := by
  have hchanged := changed_modifyEntry hi ({ · with state := .reviving })
  refine ⟨⟨?_, ?_⟩, by rw [hchanged.self], hnames⟩
  · refine T.orderly.changed hchanged rfl (fun h => ?_) (fun _ => ha)
      (fun h => by rw [hstate] at h; cases h) (fun _ h => h) fun _ _ k hk => hN k (hnames k hk)
    cases h
  · refine T.waits.restate hchanged rfl rfl ⟨rfl, rfl⟩ .inl (by rw [hstate]; rfl)
      (fun h => ?_) fun h => ?_
    · cases h
    · cases h

/-- **A row is read**: its entry is settled or blocked afterwards. -/
theorem reviveRow_ensures (hclosed : a.closed = none) (ha : a.busy = some i)
    (hN : ∀ k, N k → a.arrived k) {text : String}
    (hwanted : ∀ j, Json.read text = .ok j → ∀ n, j.Mentions n → a.wanted n)
    (hspoken : ∀ j, Json.read text = .ok j → ∀ n ∈ j.referents, a.spoken n ∧ ∀ k,
      N k → a.refers k n) :
    Ensures (fun x => Tidy a x.decoder ∧ i < x.decoder.entries.size ∧ (x.decoder.entry i).state =
      .pending ∧
        ∀ k, x.decoder.ids.lookup k = some i → N k)
      (reviveRow i text)
      fun _ x => Tidy { a with busy := none } x.decoder ∧
        (x.decoder.entry i).state.isPending = false := by
  unfold reviveRow
  split
  · exact ((settleEntry_ensures i _).pre fun x hx => ⟨hx.1, hx.2.1, fun _ k hk =>
      hN k (hx.2.2.2 k hk)⟩).post fun _ x hx => finish_settled ha hx.1 hx.2
  rename_i j hread
  refine .bind (Q := fun _ x => Reading a N i x.decoder)
    (.modifyDecoder fun x hx => reading_begin ha hx.1 hx.2.1 hx.2.2.1 hx.2.2.2 hN)
    fun _ => .bind (revive_ensures hclosed j .root (hwanted j hread) (hspoken j hread)) fun r => ?_
  cases r with
  | error r =>
    exact ((fail_ensures i r).pre fun x hx => ⟨hx.tidy, hx.lt_size, hx.heard⟩).post fun _ x hx =>
      finish_settled ha hx.1 hx.2
  | ok v =>
    refine .bind (Q := fun _ x => Reading a N i x.decoder) (.modifyDecoder fun x hx => ?_) fun _ =>
      .bind .decoder fun d => ?_
    · have hchanged := changed_modifyEntry hx.lt_size fun e =>
        { e with draft := { e.draft with value := v } }
      obtain ⟨T, hstate, hnames⟩ := hx
      refine ⟨⟨?_, ?_⟩, (hchanged.field (·.state) rfl i).trans hstate, hnames⟩
      · exact T.orderly.touched hchanged rfl rfl (fun _ h => h) fun _ _ h => h
      · exact T.waits.restate hchanged rfl rfl ⟨rfl, rfl⟩ .inl rfl (fun h => h) (T.waits.blocked i)
    · split
      · exact ((settleEntry_ensures i _).pre fun x hx =>
          ⟨hx.1.tidy, hx.1.lt_size, hx.1.heard⟩).post
          fun _ x hx => finish_settled ha hx.1 hx.2
      · rename_i hholes
        refine .modifyDecoder ?_
        rintro x ⟨hx, rfl⟩
        have hchanged := changed_modifyEntry hx.lt_size ({ · with state := .blocked })
        have hheard := hx.heard
        obtain ⟨T, hstate, -⟩ := hx
        have hpos : 0 < (x.decoder.entry i).draft.holes := by
          have : (x.decoder.entry i).draft.holes ≠ 0 := by simpa using hholes
          omega
        have T' : Tidy a (x.decoder.modifyEntry i ({ · with state := .blocked })) := by
          refine ⟨?_, ?_⟩
          · refine T.orderly.changed hchanged rfl (fun h => ?_) (fun h => ?_)
              (fun h => by rw [hstate] at h; cases h) (fun _ h => h) fun _ => hheard
            · cases h
            · cases h
          · refine T.waits.restate hchanged rfl rfl ⟨rfl, rfl⟩ .inl (by rw [hstate]; rfl)
              (fun h => ?_) fun _ => hpos
            cases h
        have hblocked : ((x.decoder.modifyEntry i ({ · with state := .blocked })).entry i).state =
            .blocked := by
          rw [hchanged.self]
        refine ⟨⟨T'.orderly.finish ha ?_ ?_, T'.waits⟩, ?_⟩
        · rw [hblocked]; rfl
        · rw [hblocked]
          intro h
          cases h
        · rw [hblocked]; rfl

end DecodeM

end GraphRows
