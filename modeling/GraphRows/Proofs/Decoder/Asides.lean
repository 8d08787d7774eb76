import GraphRows.Proofs.Decoder.Portrait

/-!
# Steps beside what was drawn

Many steps of a decoder draw nothing: an id gets an entry, a reference to a fulfilled entry is
followed, a cell is made of what it leads to. Such a step adds to the store and to what is known for
good, and touches nothing that was there.

## Main results

* `DecodeM.entryOf_aside`, `DecodeM.newEntry_aside`: entries
* `DecodeM.loadModule_aside`: a module
* `DecodeM.resolve_aside`: a reference to a fulfilled entry, which leads where it should
* `DecodeM.temporary_aside`: a temporary reference
-/

namespace GraphRows

open Decoder

variable {p : Script} {C C' : CellId → Prop} {x y : Decoding}

/-- A new cell, which may join the region if nothing leads out of it. -/
theorem aside_alloc (G : Ground p C x) {cell : Cell} (hstore : y.store = (x.store.alloc cell).2)
    (S : SameEntries x.decoder y.decoder) :
    (Ground p C y ∧ Aside (fun _ => True) C C x y) ∧ ((∀ v ∈ cell.parts, v.Inside C) →
      Ground p (fun c => C c ∨ c = x.store.cells.size) y ∧
        Aside (fun _ => True) C (fun c => C c ∨ c = x.store.cells.size) x y) := by
  have hsize : x.store.cells.size ≤ y.store.cells.size := by simp [hstore, Store.alloc]
  have hkeeps : ∀ K, x.store.Keeps K y.store := fun K => hstore ▸ Store.keeps_alloc K x.store cell
  have hstays : x.store.Stays C y.store := hstore ▸ Store.stays_alloc C x.store cell
  have htemporaries : ∀ set id v, y.store.temporary? set id = some v → v.Inside C := by
    rw [hstore]
    exact G.temporaries
  refine ⟨⟨G.store S (hkeeps _) hstays (fun _ h => h) (G.region.keeps (hkeeps _)) htemporaries,
    .store S hsize (hkeeps _) (fun _ h => h) fun _ h => .inl h⟩, fun hparts => ⟨?_, ?_⟩⟩
  · refine G.store S (hkeeps _) hstays (fun _ => .inl) ?_ fun set id v hv =>
      (htemporaries set id v hv).mono fun _ => .inl
    have hnew : y.store.cell? x.store.cells.size = some cell := by
      rw [hstore]
      exact Store.cell?_alloc_new x.store cell
    exact (G.region.keeps (hkeeps _)).insert hnew hparts
  · refine .store S hsize (hkeeps _) (fun _ => .inl) ?_
    rintro c (hc | rfl)
    · exact .inl hc
    · exact .inr (Nat.le_refl _)

/-- A new entry, whose handle joins the region. -/
theorem aside_push (G : Ground p C x) {e : Entry} (he : e.IsBlank)
    (hhandle : e.handle = x.store.cells.size)
    (hentries : y.decoder.entries = x.decoder.entries.push e)
    (hoptions : y.decoder.options = x.decoder.options)
    (hderived : y.decoder.derived = x.decoder.derived)
    (hids : ∀ n i, x.decoder.ids.lookup n = some i → y.decoder.ids.lookup n = some i)
    (hnames : ∀ n i, y.decoder.ids.lookup n = some i →
      x.decoder.ids.lookup n = some i ∨ i = x.decoder.entries.size)
    (hstore : y.store = (x.store.alloc (.promise {})).2) :
    Ground p (fun c => C c ∨ c = x.store.cells.size) y ∧
      Aside (fun _ => True) C (fun c => C c ∨ c = x.store.cells.size) x y := by
  have hnew : y.decoder.entries.size = x.decoder.entries.size + 1 := by
    rw [hentries, Array.size_push]
  have hpush := he.push hentries
  have hon : Onward Entry.Read x.decoder y.decoder := .push hentries hids
  have hsize : x.store.cells.size ≤ y.store.cells.size := by simp [hstore, Store.alloc]
  have hkeeps : ∀ K, x.store.Keeps K y.store := fun K => hstore ▸ Store.keeps_alloc K x.store _
  have L : ∀ K, Later K x y := fun K => ⟨hoptions, hids, fun i v hv => (hpush i).1.trans hv,
    fun i hi => (hon.entry i hi).handle, fun key v hv => hderived ▸ hv, hkeeps K⟩
  have hpending : ∀ n i, y.decoder.ids.lookup n = some i →
      (y.decoder.entry i).state.isPending = false →
      x.decoder.ids.lookup n = some i := fun n i hi hp => by
    refine (hnames n i hi).resolve_right fun hi => ?_
    rw [(hpush i).1, hi, entry_of_size_le _ (Nat.le_refl _)] at hp
    cases hp
  have H : Handled y := by
    have hold : ∀ i < x.decoder.entries.size, y.decoder.entry i = x.decoder.entry i :=
        fun i hi => by
      rw [entry_eq_getElem _ (hnew ▸ Nat.lt_succ_of_lt hi), entry_eq_getElem _ hi]
      simp [hentries, Array.getElem_push, hi]
    have hlast : y.decoder.entry x.decoder.entries.size = e := by simp [entry, hentries]
    have hless : ∀ i < x.decoder.entries.size, (x.decoder.entry i).handle < x.store.cells.size :=
      fun i hi => Store.cell?_lt_size (G.handled.promise i hi)
    have halloc := Store.cell?_alloc_new x.store (.promise {})
    refine ⟨fun i hi => ?_, fun i hi j hj h => ?_⟩
    · rcases Nat.lt_succ_iff_lt_or_eq.mp (hnew ▸ hi) with hi | rfl
      · rw [hold i hi, hstore, Store.cell?_alloc_old _ _ (hless i hi), G.handled.promise i hi]
      · rw [hlast, hstore, hhandle, he.state]
        exact halloc
    · rcases Nat.lt_succ_iff_lt_or_eq.mp (hnew ▸ hi) with hi | rfl <;>
        rcases Nat.lt_succ_iff_lt_or_eq.mp (hnew ▸ hj) with hj | rfl
      · rw [hold i hi, hold j hj] at h
        exact G.handled.distinct i hi j hj h
      · rw [hold i hi, hlast, hhandle] at h
        exact absurd h (Nat.ne_of_lt (hless i hi))
      · rw [hold j hj, hlast, hhandle] at h
        exact absurd h.symm (Nat.ne_of_lt (hless j hj))
      · rfl
  refine ⟨G.later (L C) (fun _ => .inl) ?_ H (fun n i hi => ?_) (fun i shape v hv => ?_)
    (fun i hi hge => ?_) (fun set id v hv => ?_)
    (fun n i v hn hi hv => .inl ⟨hpending n i hi (by rw [hv]; rfl), (hpush i).1 ▸ hv⟩)
    (fun n i hn hi shape made hmade => ?_),
    L _, hon.size, hsize, fun i => (hpush i).1, fun i => (hpush i).2.1,
      fun i t h path shape cyclic => by rw [(hpush i).2.2],
    fun t h => tally_push he hentries _, fun n i hi => (hnames n i hi).imp_right fun h =>
      Nat.le_of_eq h.symm, fun _ => .inl, ?_⟩
  · have hcell : y.store.cell? x.store.cells.size = some (.promise {}) := by
      rw [hstore]
      exact Store.cell?_alloc_new x.store _
    exact (G.region.keeps (hkeeps C)).insert hcell (by rintro _ ⟨⟩)
  · rw [hnew]
    rcases hnames n i hi with hi | rfl
    · exact Nat.lt_succ_of_lt (G.named n i hi)
    · exact Nat.lt_succ_self _
  · rw [hderived] at hv
    exact hnew ▸ Nat.lt_succ_of_lt (G.made i shape v hv)
  · obtain rfl : i = x.decoder.entries.size := by omega
    have : y.decoder.entry x.decoder.entries.size = e := by simp [entry, hentries]
    rw [this]
    exact .inr hhandle
  · rw [hstore] at hv
    exact (G.temporaries set id v hv).mono fun _ => .inl
  · rcases hnames n i hi with hi | rfl
    · exact .inl ⟨hi, hderived ▸ hmade⟩
    · exact absurd (G.made _ _ _ (hderived ▸ hmade)) (Nat.lt_irrefl _)
  · rintro c (hc | rfl)
    · exact .inl hc
    · exact .inr (Nat.le_refl _)

/-- A cell is made of a fulfilled entry, and remembered. If the entry belongs to a calm row, the
cell joins the region. -/
theorem aside_derive (G : Ground p C x) {index : Nat} {shape : Shape} {cell : Cell}
    (hindex : index < x.decoder.entries.size)
    (hnone : x.decoder.derived.lookup (index, shape) = none)
    (hstore : y.store = (x.store.alloc cell).2) (hoptions : y.decoder.options = x.decoder.options)
    (hentries : y.decoder.entries = x.decoder.entries) (hids : y.decoder.ids = x.decoder.ids)
    (hderived : y.decoder.derived = ((index, shape), .cell x.store.cells.size) :: x.decoder.derived)
    (hgrows : ∀ c, C c → C' c) (hfresh : ∀ c, C' c → C c ∨ c = x.store.cells.size)
    (hmade : C' x.store.cells.size → ∀ v ∈ cell.parts, v.Inside C)
    (hcalm : ∀ n, p.calm n → x.decoder.ids.lookup n = some index → C' x.store.cells.size ∧ ∃ w,
      (x.decoder.entry index).state = .fulfilled w ∧ x.store.shaped shape w = .ok cell) :
    Ground p C' y ∧ Aside (fun _ => True) C C' x y := by
  have hentry : ∀ i, y.decoder.entry i = x.decoder.entry i :=
    fun i => by rw [entry, entry, hentries]
  have hkeeps : ∀ K, x.store.Keeps K y.store := fun K => hstore ▸ Store.keeps_alloc K x.store cell
  have hnew : y.store.cell? x.store.cells.size = some cell := by
    rw [hstore]
    exact Store.cell?_alloc_new x.store cell
  have L : ∀ K, Later K x y := fun K => by
    refine ⟨hoptions, fun n i hi => hids ▸ hi, fun i v hv => hentry i ▸ hv,
      fun i _ => by rw [hentry], fun key v hv => ?_, hkeeps K⟩
    have hne : key ≠ (index, shape) := by
      rintro rfl
      rw [hnone] at hv
      cases hv
    rw [hderived, List.lookup_cons, beq_false_of_ne hne]
    exact hv
  have hlookup : ∀ key v, y.decoder.derived.lookup key = some v →
      key = (index, shape) ∧ v = .cell x.store.cells.size ∨
        x.decoder.derived.lookup key = some v := by
    intro key v hv
    rw [hderived, List.lookup_cons] at hv
    split at hv
    · rename_i hkey
      exact .inl ⟨eq_of_beq hkey, (Option.some.inj hv).symm⟩
    · exact .inr hv
  have R : y.store.Region C' := by
    intro c hc
    rcases hfresh c hc with hc' | rfl
    · obtain ⟨old, hold, hparts⟩ := G.region.keeps (hkeeps C) c hc'
      exact ⟨old, hold, fun v hv => (hparts v hv).mono hgrows⟩
    · exact ⟨cell, hnew, fun v hv => (hmade hc v hv).mono hgrows⟩
  refine ⟨G.later (L C) hgrows R (G.handled.restate (by rw [hentries])
      (fun i _ => by rw [hentry]; exact ⟨rfl, rfl⟩)
      fun i hi q hq => hstore ▸ Store.stays_alloc C x.store cell _ q (G.handles i hi) hq) ?_
        (fun i shape' v hv => ?_) ?_ (fun set id v hv => ?_) ?_
          (fun n i hn hi shape' made hv => ?_),
    L _, Nat.le_of_eq (by rw [hentries]), by simp [hstore,
      Store.alloc], fun i => by rw [hentry], fun i => by rw [hentry],
    fun i t h path shape cyclic => by rw [hentry], fun t h => tally_congr (by
      rw [hentries]) (fun i => by rw [hentry]) _,
    fun n i h => .inl (hids ▸ h), hgrows, fun c hc => (hfresh c hc).imp_right fun h =>
      Nat.le_of_eq h.symm⟩
  · rw [hids, hentries]
    exact G.named
  · rw [hentries]
    rcases hlookup _ v hv with ⟨hkey, -⟩ | hv
    · injection hkey with hi
      exact hi ▸ hindex
    · exact G.made i shape' v hv
  · exact fun i hi hge => absurd (hentries ▸ hi) (Nat.not_lt.mpr hge)
  · rw [hstore] at hv
    exact (G.temporaries set id v hv).mono hgrows
  · exact fun n i v _ hi hv => .inl ⟨hids ▸ hi, hentry i ▸ hv⟩
  · rw [hids] at hi
    rcases hlookup _ made hv with ⟨hkey, rfl⟩ | hv
    · injection hkey with hindex hshape
      subst hindex hshape
      obtain ⟨hin, w, hw, hshaped⟩ := hcalm n hn hi
      refine .inr ⟨hin, w, cell, by rw [hentry, hw], ?_, hnew⟩
      exact (Store.shaped_keeps G.region (hkeeps C) (G.values n i w hn hi hw) hshaped).1
    · exact .inl ⟨hi, hv⟩

/-- A stream begins to wait for an entry. -/
theorem aside_listen (G : Ground p C x) (j id : Nat) :
    Ground p C
      { x with decoder := x.decoder.modifyEntry j fun e =>
          { e with watchers := e.watchers ++ [.stream id] } } ∧
      Aside (fun _ => True) C C x
        { x with decoder := x.decoder.modifyEntry j fun e =>
            { e with watchers := e.watchers ++ [.stream id] } } := by
  let f : Entry → Entry := fun e => { e with watchers := e.watchers ++ [.stream id] }
  have hentry := entry_modifyEntry x.decoder j f
  have hfield : ∀ {α : Type} (g : Entry → α), (∀ e, g (f e) = g e) → ∀ i,
      g ((x.decoder.modifyEntry j f).entry i) = g (x.decoder.entry i) := fun g hg i => by
    rw [hentry]
    split
    · exact hg _
    · rfl
  have hstate := hfield (·.state) fun _ => rfl
  have L : ∀ K, Later K x { x with decoder := x.decoder.modifyEntry j f } := fun K =>
    ⟨rfl, fun _ _ h => h, fun i v hv => (hstate i).trans hv, fun i _ => hfield (·.handle)
      (fun _ => rfl) i, fun _ _ h => h, .refl K _⟩
  have hsize := size_modifyEntry x.decoder j f
  refine ⟨G.restate (L C) (fun _ h => h) G.region (fun _ _ _ h => h) hsize rfl rfl hstate
    G.temporaries, L _, Nat.le_of_eq hsize.symm,
    Nat.le_refl _, hstate, hfield (·.draft) fun _ => rfl, fun i t h path shape cyclic => ?_,
      fun t h => ?_, fun _ _ => .inl,
    fun _ h => h, fun _ => .inl⟩
  · exact iff_of_eq (hfield (.hole t h path shape cyclic ∈ ·.watchers) (fun e => by simp [f]) i)
  · simp only [tally]
    rw [hsize]
    refine congrArg List.sum (List.map_congr_left fun i _ => ?_)
    exact hfield (·.watchers.countP (Watcher.isAt t h)) (fun e => by simp [f, Watcher.isAt]) i

namespace DecodeM

/-- **The entry of an id**, a new one if need be. -/
theorem entryOf_aside (G : Ground p C x) (hopen : x.decoder.closed = none) (id : Nat) :
    Ensures (· = x) (entryOf id) fun i y => ∃ C', Ground p C' y ∧ Aside (fun _ => True) C C' x y ∧
      y.decoder.ids.lookup id = some i := by
  rintro x rfl
  cases h : x.decoder.ids.lookup id with
  | some i =>
    rw [entryOf_of_some h]
    exact ⟨C, G, .refl _ _ _, h⟩
  | none =>
    rw [entryOf_of_none h hopen]
    obtain ⟨G', A⟩ := aside_push (y := ⟨{ x.decoder with
      entries := x.decoder.entries.push { state := .pending, handle := x.store.newPromise.1 }
      ids := (id, x.decoder.entries.size) :: x.decoder.ids }, x.store.newPromise.2⟩) G
        (isBlank_pending _) rfl rfl rfl rfl
      (fun n i hi => lookup_cons_of_lookup h hi)
        (fun n i hi => (lookup_of_lookup_cons hi).imp_right And.right) rfl
    exact ⟨_, G', A, List.lookup_cons_self⟩

/-- A new entry without a name. -/
theorem newEntry_aside (G : Ground p C x) :
    Ensures (· = x) (newEntry .pending) fun _ y => ∃ C', Ground p C' y ∧
      Aside (fun _ => True) C C' x y := by
  rintro x rfl
  exact ⟨_, aside_push (y := ⟨{ x.decoder with
    entries := x.decoder.entries.push { state := .pending, handle := x.store.newPromise.1 } },
      x.store.newPromise.2⟩) G
    (isBlank_pending _) rfl rfl rfl rfl (fun _ _ h => h) (fun _ _ => .inl) rfl⟩

/-- **A module is loaded.** What it leads to joins the region. -/
theorem loadModule_aside (G : Ground p C x) (payload : Bytes) :
    Ensures (· = x) (loadModule payload) fun o y => ∃ C', Ground p C' y ∧
      Aside (fun _ => True) C C' x y ∧ ∀ v, o = .ok v → v.Inside C' := by
  unfold loadModule
  split
  · exact .pure fun y hy => ⟨C, hy ▸ G, hy ▸ .refl _ _ _, by rintro _ ⟨⟩⟩
  split
  · exact .pure fun y hy => ⟨C, hy ▸ G, hy ▸ .refl _ _ _, by rintro _ ⟨⟩⟩
  rename_i m _
  have load : ∀ z : Decoding, z.decoder = x.decoder → z.store.cells = x.store.cells →
      z.store.temporaries = x.store.temporaries → ∃ C',
      Ground p C' { z with store := (x.decoder.options.loader.load m z.store).2 } ∧
      Aside (fun _ => True) C C' x { z with store := (x.decoder.options.loader.load m z.store).2 } ∧
      ∀ v, (x.decoder.options.loader.load m z.store).1 = .ok v → v.Inside C' := by
    intro z hz hcells htemporaries
    have H := G.loader
    let C' : CellId → Prop := fun c => C c ∨ z.store.cells.size ≤ c ∧ c <
      (x.decoder.options.loader.load m z.store).2.cells.size
    have S : SameEntries x.decoder z.decoder := hz ▸ .refl _
    have hold : ∀ c cell, x.store.cell? c = some cell →
        (x.decoder.options.loader.load m z.store).2.cell? c = some cell :=
      fun c cell hcell => H.keeps m z.store c cell (by rw [Store.cell?, hcells]; exact hcell)
    have hkeeps : ∀ K, x.store.Keeps K (x.decoder.options.loader.load m z.store).2 :=
      fun K c cell _ hcell => ⟨cell, hold c cell hcell, .same cell⟩
    have hhost : ∀ c, (p.host c ∨ z.store.cells.size ≤ c ∧ c <
        (x.decoder.options.loader.load m z.store).2.cells.size) → C' c :=
      fun c => Or.imp_left (G.host c)
    refine ⟨C', G.store S (hkeeps C) (fun c q _ hq => hold c _ hq) (fun _ => .inl) ?_
      fun set id v hv => ?_, .store S (hcells ▸ H.cells m z.store) (hkeeps _) (fun _ => .inl)
        fun c hc => hc.imp_right fun h => hcells ▸ h.1,
      fun v hv => (H.value m z.store v hv).mono hhost⟩
    · refine (G.region.keeps (hkeeps C)).union fun c hc => ?_
      obtain ⟨cell, hcell, hparts⟩ := H.closed m z.store c hc
      exact ⟨cell, hcell, fun u hu => (hparts u hu).mono hhost⟩
    · rw [Store.temporary?, Store.temporarySet, H.temporaries, htemporaries] at hv
      exact (G.temporaries set id v hv).mono fun _ => .inl
  refine .bind .decoder fun d => ?_
  dsimp only
  split
  · refine .bind (Q := fun _ z => z.decoder = x.decoder ∧ z.store.cells = x.store.cells ∧
      z.store.temporaries = x.store.temporaries ∧ d = x.decoder) (.modifyStore ?_)
        fun _ => .onStore ?_
    · rintro y ⟨rfl, rfl⟩
      exact ⟨rfl, rfl, rfl, rfl⟩
    · rintro z ⟨hz, hcells, htemporaries, rfl⟩
      exact load z hz hcells htemporaries
  · refine .onStore ?_
    rintro y ⟨rfl, rfl⟩
    exact load y rfl rfl rfl

/-- **A reference to a fulfilled entry** leads to a value, or fails; the cell it makes of a calm row
joins the region. -/
theorem resolve_aside (G : Ground p C x) {index : Nat} {w : Value}
    (hw : (x.decoder.entry index).state = .fulfilled w) {path : List String} {shape : Shape}
    (hpath : shape ≠ .plain → path = []) :
    Ensures (· = x) (resolve index w path shape) fun r y => ∃ C', Ground p C' y ∧
      Aside (fun _ => True) C C' x y ∧
      ∀ v id, r = .ok v → p.calm id → x.decoder.ids.lookup id = some index →
        y.decoder.Leads y.store id path shape v ∧ v.Inside C' := by
  have same : Aside (fun _ => True) C C x x :=
    .refl _ _ _
  unfold resolve
  refine .bind .store fun s => ?_
  split
  · exact .pure fun y hy => ⟨C, hy.1 ▸ G, hy.1 ▸ same, by rintro _ _ ⟨⟩⟩
  rename_i u hwalk
  split
  · rename_i hplain
    refine .pure ?_
    rintro y ⟨rfl, rfl⟩
    refine ⟨C, G, same, fun v id hv hid hlookup => ?_⟩
    obtain rfl := Except.ok.inj hv
    have hinside := G.values id index w hid hlookup hw
    refine ⟨⟨index, w, hlookup, hw, ?_⟩, (Store.walk_keeps G.region (.refl _ _) hinside hwalk).2⟩
    rw [if_pos (by simpa using hplain), hwalk]
  rename_i hplain
  have hshape : shape ≠ .plain := by simpa using hplain
  obtain rfl := hpath hshape
  obtain rfl : w = u := Except.ok.inj hwalk
  refine .bind .decoder fun d => ?_
  split
  · rename_i made hmade
    refine .pure ?_
    rintro y ⟨⟨rfl, rfl⟩, rfl⟩
    refine ⟨C, G, same, fun v id hv hid hlookup => ?_⟩
    obtain rfl := Except.ok.inj hv
    obtain ⟨hin, w', c, hw', hc, hcell⟩ := G.derived id index hid hlookup shape made hmade
    obtain rfl : w = w' := by simpa [hw] using hw'
    exact ⟨⟨index, w, hlookup, hw, by rw [if_neg hshape]; exact ⟨hmade, c, hc, hcell⟩⟩, hin⟩
  rename_i hnone
  refine .bind .store fun s' => ?_
  split
  · exact .pure fun y hy => ⟨C, hy.1.1.1 ▸ G, hy.1.1.1 ▸ same, by rintro _ _ ⟨⟩⟩
  rename_i c hc
  rintro y ⟨⟨⟨rfl, -⟩, rfl⟩, rfl⟩
  let C' : CellId → Prop := fun k => C k ∨ k = y.store.cells.size ∧ ∃ n, p.calm n ∧
    y.decoder.ids.lookup n = some index
  have hinside : ∀ n, p.calm n → y.decoder.ids.lookup n = some index → ∀ v ∈ c.parts, v.Inside C :=
    fun n hn hlookup => (Store.shaped_keeps G.region (.refl _ _)
      (G.values n index w hn hlookup hw) hc).2
  have hmade : C' y.store.cells.size → ∀ v ∈ c.parts, v.Inside C := by
    rintro (hk | ⟨-, n, hn, hlookup⟩)
    · exact absurd (G.region.lt_size hk) (Nat.lt_irrefl _)
    · exact hinside n hn hlookup
  obtain ⟨G', A⟩ := aside_derive (y := ⟨{ y.decoder with
      derived := ((index, shape), (y.store.make c).1) :: y.decoder.derived }, (y.store.make c).2⟩) G
    (lt_size_of_isTerminal _ (by rw [hw]; rfl)) hnone rfl rfl rfl rfl rfl (fun _ => .inl)
    (fun k hk => hk.imp_right And.left)
    hmade fun n hn hlookup => ⟨.inr ⟨rfl, n, hn, hlookup⟩, w, hw, hc⟩
  refine ⟨C', G', A, fun v id hv hid hlookup => ?_⟩
  obtain rfl : (y.store.make c).1 = v := Except.ok.inj hv
  refine ⟨⟨index, w, hlookup, hw, ?_⟩, .inr ⟨rfl, id, hid, hlookup⟩⟩
  rw [if_neg hshape]
  have hin := G.values id index w hid hlookup hw
  exact ⟨List.lookup_cons_self, c, (Store.shaped_keeps G.region
    (Store.keeps_alloc C y.store c) hin hc).1, Store.cell?_alloc_new y.store c⟩

/-- A temporary reference stands for what the host has given its name to, or for something new. -/
theorem temporary_aside (G : Ground p C x) (set : Nat) (id : String) :
    Ensures (· = x) (onStore (·.resolveTemporary set id)) fun v y => ∃ C', Ground p C' y ∧
      Aside (fun _ => True) C C' x y ∧ v.Inside C' := by
  refine .onStore ?_
  rintro x rfl
  unfold Store.resolveTemporary
  split
  · rename_i v hv
    exact ⟨C, G, .refl _ _ _, G.temporaries set id v hv⟩
  · obtain ⟨-, h⟩ := aside_alloc (y := { x with store := (x.store.make (.temporary id)).2 })
      G rfl (.refl _)
    obtain ⟨G', A⟩ := h (by rintro _ ⟨⟩)
    refine ⟨_, G'.store (.refl _) (fun _ cell _ h => ⟨cell, h, .same cell⟩) (fun _ _ _ h => h)
      (fun _ h => h) G'.region fun set' id' v hv => ?_,
      .store (.refl _) A.cells (A.later.keeps) A.grows A.fresh, .inr rfl⟩
    -- the name is new in its set, and the other names stand for what they stood for
    have hset : (((x.store.make (.temporary id)).2.registerTemporary
        set (x.store.make (.temporary id)).1 id).2.temporarySet set').values =
        (x.store.temporarySet set').values ∨
      (((x.store.make (.temporary id)).2.registerTemporary set (x.store.make (.temporary id)).1
        id).2.temporarySet set').values =
        Json.setField id (.cell x.store.cells.size) (x.store.temporarySet set').values := by
      change (((x.store.temporaries.modify set _)[set']?).getD {}).values = _ ∨
        (((x.store.temporaries.modify set _)[set']?).getD {}).values = _
      rw [Array.getElem?_modify]
      split
      · cases h : x.store.temporaries[set']? with
        | none => exact .inl (by simp [Store.temporarySet, h])
        | some old => exact .inr (by simp [Store.temporarySet, h, Store.make])
      · exact .inl rfl
    change (Store.temporarySet _ set').values.lookup id' = some v at hv
    rcases hset with hset | hset
    · rw [hset] at hv
      exact (G.temporaries set' id' v hv).mono fun _ => .inl
    · rw [hset] at hv
      by_cases hid : id' = id
      · subst hid
        rw [Json.lookup_setField_self] at hv
        obtain rfl := Option.some.inj hv
        exact .inr rfl
      · rw [Json.lookup_setField_ne _ _ hid] at hv
        exact (G.temporaries set' id' v hv).mono fun _ => .inl

end DecodeM

end GraphRows
