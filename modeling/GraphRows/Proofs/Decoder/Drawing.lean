import GraphRows.Proofs.Decoder.Asides

/-!
# Reading a row draws it

While a row is read, its arrays and objects become new cells, and where a reference has to wait a
watcher is left. All of it happens in new cells: what was in the store before is not written to, and
nobody else's watchers change. `Draws` says so of a part of the reading, `t` being the entry whose
row is read and `Q` the places the part is to draw.

A reference that has to wait leaves a hole that counts, unless it closes a circle. From a calm row
no circle can be closed: the edges between drafts are references between rows, so an edge back would
make one.

## Main results

* `DecodeM.reference_draws`: a reference is a finished place or a hole
* `DecodeM.revive_draws`: the values of a row, for every JSON value
-/

namespace GraphRows

open Decoder

variable {d : Decoder} {h hole : Hole} {Q : Hole → Prop} {path : List String} {id index : Nat}
    {shape : Shape} {s : Store} {v : Value}

/-- What the calm rows have in common: their references lead to calm rows, and never back. -/
structure Script.Fits (p : Script) (refers : Nat → Nat → Prop) : Prop where
  closed : ∀ n m, p.calm n → refers n m → p.calm m
  acyclic : ∀ n, p.calm n → ¬ Relation.TransGen refers n n
  distinct : ∀ n j, p.model n = some j → j.Distinct

/-- The hole is in a cell that is not there yet. -/
def Hole.Fresh (s : Store) (h : Hole) : Prop := ∃ c, h.cell? = some c ∧ s.cells.size ≤ c

theorem Hole.Fresh.mono {s' : Store} (hs : s.cells.size ≤ s'.cells.size) (hf : h.Fresh s') :
    h.Fresh s := by
  obtain ⟨c, hc, hle⟩ := hf
  exact ⟨c, hc, Nat.le_trans hs hle⟩

/-- What a part of reading the row of `t` does, that draws the places with `Q`. -/
structure Draws (p : Script) (running : List (Nat × Watcher)) (t : Nat) (Q : Hole → Prop)
    (C C' : CellId → Prop) (x y : Decoding) : Prop where
  later : Later (fun _ => True) x y
  entries : x.decoder.entries.size ≤ y.decoder.entries.size
  cells : x.store.cells.size ≤ y.store.cells.size
  state : ∀ i, (y.decoder.entry i).state = (x.decoder.entry i).state
  value : ∀ i, (y.decoder.entry i).draft.value = (x.decoder.entry i).draft.value
  names : ∀ n i, y.decoder.ids.lookup n = some i → x.decoder.ids.lookup n = some i ∨
    x.decoder.entries.size ≤ i
  kept : ∀ i t' h path shape cyclic, x.decoder.Stands running i (.hole t' h path shape cyclic) →
    y.decoder.Stands running i (.hole t' h path shape cyclic)
  stands : ∀ i t' h path shape cyclic, y.decoder.Stands running i (.hole t' h path shape cyclic) →
    x.decoder.Stands running i (.hole t' h path shape cyclic) ∨ t' = t ∧
      (shape ≠ .plain → path = []) ∧
      (∀ n, p.calm n → x.decoder.ids.lookup n = some t → cyclic = false) ∧ (Q h ∨ h.Fresh x.store) ∧
      ∀ c, h.cell? = some c → c < y.store.cells.size ∧ ¬ C' c
  openings : ∀ t' h, (t' = t → ¬ Q h ∧ ¬ h.Fresh x.store) →
    y.decoder.openings running t' h = x.decoder.openings running t' h
  single : ∀ h, Q h ∨ h.Fresh x.store → y.decoder.openings running t h ≤ 1
  grows : ∀ c, C c → C' c
  fresh : ∀ c, C' c → C c ∨ x.store.cells.size ≤ c

/-- The places with `Q`, and all new cells, are there for `t` to draw. -/
structure Blank (running : List (Nat × Watcher)) (t : Nat) (Q : Hole → Prop) (C : CellId → Prop)
    (x : Decoding) : Prop where
  clear : ∀ h, Q h ∨ h.Fresh x.store → x.decoder.openings running t h = 0
  below : ∀ h c, Q h → h.cell? = some c → c < x.store.cells.size ∧ ¬ C c

variable {p : Script} {running : List (Nat × Watcher)} {t : Nat} {Q Q' : Hole → Prop}
  {C C' C'' : CellId → Prop} {x y z : Decoding}

theorem Blank.mono (B : Blank running t Q C x) (hQ : ∀ h, Q' h → Q h) : Blank running t Q' C x :=
  ⟨fun h hh => B.clear h (hh.imp_left (hQ h)), fun h c hh => B.below h c (hQ h hh)⟩

theorem Blank.aside {K : CellId → Prop} (B : Blank running t Q C x) (A : Aside K C C' x y) :
    Blank running t Q C' y := by
  refine ⟨fun h hh => ?_, fun h c hh hc => ?_⟩
  · rw [Decoder.openings, A.tally]
    exact B.clear h (hh.imp_right (Hole.Fresh.mono A.cells))
  · obtain ⟨hlt, hC⟩ := B.below h c hh hc
    exact ⟨Nat.lt_of_lt_of_le hlt A.cells, fun hC' => (A.fresh c hC').elim hC fun hle =>
      absurd hlt (Nat.not_lt.mpr hle)⟩

/-- The whole draft of an entry that no row has come for is there to draw. -/
theorem blank_root (hopenings : ∀ h, x.decoder.openings running t h = 0) :
    Blank running t (· = .root) C x :=
  ⟨fun h _ => hopenings h, by rintro _ c rfl ⟨⟩⟩

theorem openings_eq_zero : d.openings running t h = 0 ↔ ¬ d.Opened running t h :=
  ⟨fun h ho => absurd (openings_pos ho) (by omega), fun h => Nat.eq_zero_of_not_pos fun hpos =>
    h (opened_of_openings_pos hpos)⟩

namespace Draws

/-- Nothing is drawn. -/
theorem aside (A : Aside (fun _ => True) C C' x y) (B : Blank running t Q C x) :
    Draws p running t Q C C' x y := by
  have hopenings : ∀ t' h, y.decoder.openings running t' h = x.decoder.openings running t' h :=
      fun t' h => by
    rw [Decoder.openings, Decoder.openings, A.tally]
  refine ⟨A.later, A.entries, A.cells, A.state,
    fun i => by rw [A.draft], A.names, fun i t' h path shape cyclic hs => A.stands.mpr hs,
    fun i t' h path shape cyclic hs => .inl (A.stands.mp hs), fun t' h _ => hopenings t' h,
      fun h hh => ?_, A.grows, A.fresh⟩
  rw [hopenings, B.clear h hh]
  exact Nat.zero_le 1

theorem refl (B : Blank running t Q C x) : Draws p running t Q C C x x :=
  aside (.refl _ _ _) B

/-- One part is drawn after the other. -/
theorem trans (h : Draws p running t Q C C' x y) (h' : Draws p running t Q' C' C'' y z) :
    Draws p running t (fun k => Q k ∨ Q' k) C C'' x z := by
  have fresh : ∀ {k : Hole}, k.Fresh y.store → k.Fresh x.store := fun hk => hk.mono h.cells
  refine ⟨h.later.trans h'.later h.entries, Nat.le_trans h.entries h'.entries,
    Nat.le_trans h.cells h'.cells,
    fun i => (h'.state i).trans (h.state i), fun i => (h'.value i).trans (h.value i),
      fun n i hi => ?_,
    fun i t' k path shape cyclic hs => h'.kept _ _ _ _ _ _ (h.kept _ _ _ _ _ _ hs),
      fun i t' k path shape cyclic hs => ?_, fun t' k hk => ?_, fun k hk => ?_,
    fun c hc => h'.grows c (h.grows c hc), fun c hc => ?_⟩
  · rcases h'.names n i hi with hi | hi
    · exact h.names n i hi
    · exact .inr (Nat.le_trans h.entries hi)
  · rcases h'.stands i t' k path shape cyclic hs with hs | ⟨ht, hpath, hcyclic, hQ, hcell⟩
    · refine (h.stands i t' k path shape cyclic hs).imp_right
        fun ⟨ht, hpath, hcyclic, hQ, hcell⟩ => ?_
      refine ⟨ht, hpath, hcyclic, hQ.imp_left .inl, fun c hc => ?_⟩
      obtain ⟨hlt, hC⟩ := hcell c hc
      exact ⟨Nat.lt_of_lt_of_le hlt h'.cells, fun hC' => (h'.fresh c hC').elim hC fun hle =>
        absurd hlt (Nat.not_lt.mpr hle)⟩
    · exact .inr ⟨ht, hpath, fun n hn hlookup => hcyclic n hn (h.later.ids n t hlookup),
        hQ.imp .inr fresh, hcell⟩
  · refine (h'.openings t' k fun ht => ?_).trans (h.openings t' k fun ht => ?_)
    · exact ⟨fun hQ => (hk ht).1 (.inr hQ), fun hf => (hk ht).2 (fresh hf)⟩
    · exact ⟨fun hQ => (hk ht).1 (.inl hQ), (hk ht).2⟩
  · by_cases hk' : Q' k ∨ k.Fresh y.store
    · exact h'.single k hk'
    · rw [not_or] at hk'
      rw [h'.openings t k fun _ => hk']
      exact h.single k (hk.imp_left fun hQ => hQ.resolve_right hk'.1)
  · rcases h'.fresh c hc with hc | hc
    · exact h.fresh c hc
    · exact .inr (Nat.le_trans h.cells hc)

/-- Places in new cells need not be named. -/
theorem mono (h : Draws p running t Q C C' x y) (hQ : ∀ k, Q k → Q' k ∨ k.Fresh x.store)
    (B : Blank running t Q' C x) : Draws p running t Q' C C' x y := by
  refine { h with
    stands := fun i t' k path shape cyclic hs => ?_
    openings := fun t' k hk => ?_
    single := fun k hk => ?_ }
  · refine (h.stands i t' k path shape cyclic hs).imp_right
      fun ⟨ht, hpath, hcyclic, hk, hcell⟩ => ?_
    exact ⟨ht, hpath, hcyclic, hk.elim (hQ k) .inr, hcell⟩
  · exact h.openings t' k fun ht => ⟨fun hk' => (hQ k hk').elim (hk ht).1 (hk ht).2, (hk ht).2⟩
  · by_cases hk' : Q k ∨ k.Fresh x.store
    · exact h.single k hk'
    · rw [not_or] at hk'
      rw [h.openings t k fun _ => hk', B.clear k hk]
      exact Nat.zero_le 1

/-- The same places are drawn in two steps. -/
theorem trans_self (h : Draws p running t Q C C' x y) (h' : Draws p running t Q C' C'' y z)
    (B : Blank running t Q C x) : Draws p running t Q C C'' x z :=
  (h.trans h').mono (fun _ hk => .inl (hk.elim id id)) B

/-- A cell is written to that was not there in the beginning. -/
theorem write (h : Draws p running t Q C C' x y) {c : CellId} (hc : x.store.cells.size ≤ c)
    (cell : Cell) : Draws p running t Q C C' x { y with store := y.store.write c cell } := by
  have hsize : (y.store.write c cell).cells.size = y.store.cells.size := by simp [Store.write]
  refine { h with
    later := { h.later with keeps := fun k old _ hk => ?_ }
    cells := hsize ▸ h.cells
    stands := hsize ▸ h.stands }
  obtain ⟨old', hold', halike⟩ := h.later.keeps k old trivial hk
  have hne : c ≠ k := Nat.ne_of_gt (Nat.lt_of_lt_of_le (Store.cell?_lt_size hk) hc)
  exact ⟨old', (Store.cell?_write_ne _ _ hne).trans hold', halike⟩

/-- What is still to be drawn is as blank as before. -/
theorem blank (h : Draws p running t Q C C' x y) (B : Blank running t (fun k => Q k ∨ Q' k) C x)
    (hdisjoint : ∀ k, Q' k → ¬ Q k) : Blank running t Q' C' y := by
  refine ⟨fun k hk => ?_, fun k c hk hc => ?_⟩
  · by_cases hQ : Q k ∨ k.Fresh x.store
    · refine openings_eq_zero.mpr fun ho => ?_
      obtain ⟨i, path, shape, cyclic, hs⟩ := opened_iff.mp ho
      -- it was drawn in a cell that was there, so the place is not among the new ones
      have hold : ¬ x.decoder.Opened running t k :=
        openings_eq_zero.mp (B.clear k (hQ.imp_left .inl))
      obtain ⟨-, -, -, -, hcell⟩ := (h.stands i t k path shape cyclic hs).resolve_left
        fun hs => hold (opened_iff.mpr ⟨i, path, shape, cyclic, hs⟩)
      rcases hk with hk | ⟨c, hc, hle⟩
      · obtain ⟨c, hc, hle⟩ := hQ.resolve_left (hdisjoint k hk)
        exact absurd (B.below k c (.inr hk) hc).1 (Nat.not_lt.mpr hle)
      · exact absurd (hcell c hc).1 (Nat.not_lt.mpr hle)
    · rw [not_or] at hQ
      rw [h.openings t k fun _ => hQ]
      exact B.clear k (hk.imp .inr (Hole.Fresh.mono h.cells))
  · obtain ⟨hlt, hC⟩ := B.below k c (.inr hk) hc
    exact ⟨Nat.lt_of_lt_of_le hlt h.cells, fun hC' => (h.fresh c hC').elim hC fun hle =>
      absurd hlt (Nat.not_lt.mpr hle)⟩

/-- A place that was not to be drawn is as open as before. -/
theorem opened (h : Draws p running t Q C C' x y) {k : Hole} (hk : ¬ Q k ∧ ¬ k.Fresh x.store) :
    y.decoder.Opened running t k ↔ x.decoder.Opened running t k := by
  rw [← not_iff_not, ← openings_eq_zero, ← openings_eq_zero, h.openings t k fun _ => hk]

end Draws

/-! ### Pictures in new cells -/

/-- A cell that was drawn between `x` and `y` and is nobody else's, at a place that is no hole. -/
def Inked (running : List (Nat × Watcher)) (t : Nat) (C : CellId → Prop) (x y : Decoding) (h : Hole)
    (c : CellId) : Prop :=
  x.store.cells.size ≤ c ∧ c < y.store.cells.size ∧ ¬ C c ∧ ¬ y.decoder.Opened running t h

theorem Drafted.draws (G : Ground p C' y) (h : Draws p running t Q C' C'' y z) {k : Hole}
    (hk : ¬ Q k ∧ ¬ k.Fresh y.store) {j : Json} (hleaf : Drafted p C' running y t k j v) :
    Drafted p C'' running z t k j v := by
  rcases hleaf with ⟨text, token, id, path, shape, i, cyclic, rfl, hparse, href, hcalm, hid, hs,
    rfl⟩ | ⟨ho, hset⟩
  · exact .inl ⟨text, token, id, path, shape, i, cyclic, rfl, hparse, href, hcalm,
      h.later.ids id i hid, h.kept _ _ _ _ _ _ hs, rfl⟩
  · exact .inr ⟨fun ho' => ho ((h.opened hk).mp ho'), hset.later G
      (h.later.mono fun _ _ => trivial) h.grows⟩

/-- What was drawn stays when something else is drawn. -/
theorem Draws.spares (G : Ground p C' y) (h : Draws p running t Q C' C'' y z)
    (hQ : ∀ k c, Q k → k.cell? = some c → c < x.store.cells.size) :
    Spares (fun k => ¬ Q k ∧ ¬ k.Fresh y.store) (Drafted p C' running y t)
      (Drafted p C'' running z t)
      (Inked running t C' x y) (Inked running t C'' x z) y.store z.store where
  below k c _ hc k' hk' := by
    refine ⟨fun hQ' => absurd (hQ k' c hQ' hk') (Nat.not_lt.mpr hc.1), ?_⟩
    rintro ⟨c', hc', hle⟩
    obtain rfl := Option.some.inj (hk'.symm.trans hc')
    exact absurd hc.2.1 (Nat.not_lt.mpr hle)
  leaves k j v hk hleaf := hleaf.draws G h hk
  nodes k c hk hc := by
    obtain ⟨hge, hlt, hC, ho⟩ := hc
    refine ⟨hge, Nat.lt_of_lt_of_le hlt h.cells, fun hC' => ?_, fun ho' =>
      ho ((h.opened hk).mp ho')⟩
    exact (h.fresh c hC').elim hC fun hle => absurd hlt (Nat.not_lt.mpr hle)
  cells k c _ _ cell hcell := h.later.keeps.cell? trivial hcell

/-- What was drawn stays when the cell it belongs to is written. -/
theorem spares_write (G : Ground p C y) {array : CellId} (harray : ¬ C array) (cell : Cell) :
    Spares (fun _ => True) (Drafted p C running y t)
      (Drafted p C running { y with store := y.store.write array cell } t)
      (fun k c => Inked running t C x y k c ∧ c ≠ array)
        (Inked running t C x { y with store := y.store.write array cell })
      y.store (y.store.write array cell) where
  below _ _ _ _ _ _ := trivial
  leaves k j v _ hleaf := by
    refine hleaf.imp id fun ⟨ho, hset⟩ => ⟨ho, hset.later G ?_ fun _ h => h⟩
    exact SameEntries.later (.refl _) (Store.keeps_write harray cell)
  nodes k c _ hc := by
    obtain ⟨⟨hge, hlt, hC, ho⟩, -⟩ := hc
    exact ⟨hge, by simpa [Store.write] using hlt, hC, ho⟩
  cells k c _ hc old hold _ _ := (Store.cell?_write_ne _ _ (Ne.symm hc.2)).trans hold

namespace DecodeM

/-! ### References -/

theorem tally_append {d' : Decoder} {w : Watcher} (hsize : d'.entries.size = d.entries.size)
    (hindex : index < d.entries.size)
    (hw : ∀ i, (d'.entry i).watchers = if index = i then (d.entry i).watchers ++
      [w] else (d.entry i).watchers)
    (q : Watcher → Bool) : d'.tally q = d.tally q + if q w then 1 else 0 := by
  have := sum_range_changed (f := fun i => (d.entry i).watchers.countP q)
    (g := fun i => (d'.entry i).watchers.countP q) hindex
    fun i hi => by rw [hw, if_neg (Ne.symm hi)]
  simp only [hw, if_pos, List.countP_append, List.countP_singleton] at this
  simp only [tally, hsize, hw]
  omega

/-- A watcher for a hole of `t` is put on an entry. Before that, the draft of `t` may have counted
it. -/
theorem draws_watch (G : Ground p C x) (B : Blank running t (· = hole) C x)
    (hindex : index < x.decoder.entries.size) (hpath : shape ≠ .plain → path = []) {cyclic : Bool}
    (hcyclic : ∀ n, p.calm n → x.decoder.ids.lookup n = some t → cyclic = false)
    (hoptions : d.options = x.decoder.options) (hsize : d.entries.size = x.decoder.entries.size)
    (hids : d.ids = x.decoder.ids) (hderived : d.derived = x.decoder.derived)
    (hentry : ∀ i, (d.entry i).state = (x.decoder.entry i).state ∧ (d.entry i).draft.value =
      (x.decoder.entry i).draft.value ∧ (d.entry i).handle = (x.decoder.entry i).handle ∧
      (d.entry i).watchers = (x.decoder.entry i).watchers)
    (hy : y = ⟨d.modifyEntry index
      fun e => { e with watchers := e.watchers ++ [.hole t hole path shape cyclic] }, x.store⟩) :
    Ground p C y ∧ Draws p running t (· = hole) C C x y ∧ ∀ i w, y.decoder.Stands running i w ↔
      x.decoder.Stands running i w ∨ i = index ∧ w = .hole t hole path shape cyclic := by
  have hchanged := changed_modifyEntry (hsize.symm ▸ hindex) fun e =>
    { e with watchers := e.watchers ++ [.hole t hole path shape cyclic] }
  obtain ⟨hysize, hyids, hyderived, hystore⟩ : y.decoder.entries.size = x.decoder.entries.size ∧
      y.decoder.ids = x.decoder.ids ∧
      y.decoder.derived = x.decoder.derived ∧ y.store = x.store := by
    subst hy
    exact ⟨hchanged.size.trans hsize, hids, hderived, rfl⟩
  have hyentry : ∀ i, (y.decoder.entry i).state = (x.decoder.entry i).state ∧
      (y.decoder.entry i).draft.value = (x.decoder.entry i).draft.value ∧
      (y.decoder.entry i).handle = (x.decoder.entry i).handle := by
    subst hy
    exact fun i => ⟨(hchanged.field (·.state) rfl i).trans (hentry i).1,
      (hchanged.field (·.draft.value) rfl i).trans (hentry i).2.1,
        (hchanged.field (·.handle) rfl i).trans (hentry i).2.2.1⟩
  have hwatchers : ∀ i, (y.decoder.entry i).watchers = if index = i then
        (x.decoder.entry i).watchers ++ [.hole t hole path shape cyclic]
      else (x.decoder.entry i).watchers := by
    subst hy
    intro i
    rw [← (hentry i).2.2.2, hchanged.entry]
    split <;> rfl
  have hopenings : ∀ t' h, y.decoder.openings running t' h = x.decoder.openings running t' h +
      if (Watcher.hole t hole path shape cyclic).isAt t' h then 1 else 0 := fun t' h => by
    rw [Decoder.openings, Decoder.openings, tally_append hysize hindex hwatchers]
    omega
  have hstands : ∀ i w, y.decoder.Stands running i w ↔ x.decoder.Stands running i w ∨
      i = index ∧ w = .hole t hole path shape cyclic := by
    intro i w
    rw [Stands, Stands, hwatchers]
    by_cases hi : index = i
    · subst hi
      simp [or_right_comm]
    · simp [hi, Ne.symm hi]
  have L : ∀ K, Later K x y :=
    fun K => ⟨by subst hy; exact hoptions, fun n i hi => hyids ▸ hi,
      fun i v hv => (hyentry i).1.trans hv,
    fun i _ => (hyentry i).2.2, fun key v hv => hyderived ▸ hv, hystore ▸ .refl K _⟩
  have G' : Ground p C y :=
    G.restate (L C) (fun _ h => h) (hystore ▸ G.region) (hystore ▸ fun _ _ _ h => h) hysize hyids
      hyderived (fun i => (hyentry i).1) (hystore ▸ G.temporaries)
  refine ⟨G', ⟨L _, Nat.le_of_eq hysize.symm, Nat.le_of_eq (by rw [hystore]), fun i =>
    (hyentry i).1, fun i => (hyentry i).2.1,
    fun n i hi => .inl (hyids ▸ hi), fun i t' h path' shape' cyclic' hs =>
      (hstands _ _).mpr (.inl hs),
    fun i t' h path' shape' cyclic' hs => ?_, fun t' h hh => ?_, fun h hh => ?_, fun _ h => h,
      fun _ h => .inl h⟩,
    hstands⟩
  · refine ((hstands _ _).mp hs).imp_right fun hnew => ?_
    injection hnew.2 with ht hh hp hs hc
    subst ht hh hp hs hc
    exact ⟨rfl, hpath, hcyclic, .inl rfl, fun c hc => hystore ▸ B.below _ c rfl hc⟩
  · rw [hopenings, if_neg fun hat => ?_, Nat.add_zero]
    obtain ⟨_, _, _, hw⟩ := Watcher.isAt_iff.mp hat
    injection hw with ht hhole
    exact (hh ht.symm).1 hhole.symm
  · rw [hopenings, B.clear h hh]
    split <;> omega

/-- **A hole is left**, and a watcher for it. -/
theorem leaveHole_draws (G : Ground p C x) (B : Blank running t (· = hole) C x)
    (hindex : index < x.decoder.entries.size) (hpath : shape ≠ .plain → path = [])
    {cyclic : Bool} (hcyclic : ∀ n, p.calm n → x.decoder.ids.lookup n = some t → cyclic = false) :
    Ensures (· = x) (leaveHole t index path shape hole cyclic) fun r y => Ground p C y ∧
      Draws p running t (· = hole) C C x y ∧ r = .ok .undefined ∧ y.decoder.ids = x.decoder.ids ∧
      ∀ i w, y.decoder.Stands running i w ↔
        x.decoder.Stands running i w ∨ i = index ∧ w = .hole t hole path shape cyclic := by
  rintro x rfl
  cases cyclic with
  | true =>
    obtain ⟨G', W, hs⟩ := draws_watch G B hindex hpath hcyclic (d := x.decoder) rfl rfl rfl rfl
      (fun i => ⟨rfl, rfl, rfl, rfl⟩) rfl
    exact ⟨G', W, rfl, rfl, hs⟩
  | false =>
    obtain ⟨G', W, hs⟩ := draws_watch G B hindex hpath hcyclic
      (d := x.decoder.modifyDraft t fun e =>
      { e with holes := e.holes + 1, waitingOn := e.waitingOn ++ [index] }) rfl
        (size_modifyEntry ..) rfl rfl
      (fun i => by rw [modifyDraft, entry_modifyEntry]; split <;> exact ⟨rfl, rfl, rfl, rfl⟩) rfl
    exact ⟨G', W, rfl, rfl, hs⟩

variable {a : Affairs} {N : Nat → Prop}

/-- **A circle of references** does not pass through a calm row that refers to where it began. -/
theorem not_waitsOn (F : p.Fits a.refers) (T : Tidy a d) {m : Nat}
    (hid : d.ids.lookup id = some index) (hm : ∀ n, d.ids.lookup n = some t → a.refers n id)
    (hcalm : p.calm m) (hmem : m = id ∨ d.ids.lookup m = some t) : d.waitsOn index t = false := by
  refine Bool.eq_false_iff.mpr fun hwaits => ?_
  obtain ⟨n, hn, hpath⟩ := T.waits.refers_of_edges hid (edges_of_waitsOn hwaits)
  rcases hmem with rfl | hmem
  · exact F.acyclic m hcalm (hpath.tail (hm n hn))
  · obtain rfl := T.orderly.distinct _ _ _ hn hmem
    exact F.acyclic n hcalm (.head (hm n hn) hpath)

/-- What a reference came to, at a place of the draft of `t`: a hole, or where it leads. -/
def Referred (p : Script) (C : CellId → Prop) (running : List (Nat × Watcher)) (y : Decoding)
    (t : Nat) (hole : Hole) (id : Nat) (path : List String) (shape : Shape) (v : Value) : Prop :=
  (∃ i cyclic, (p.calm id ∨ i = t) ∧ y.decoder.ids.lookup id = some i ∧
    y.decoder.Stands running i (.hole t hole path shape cyclic) ∧ v = .undefined) ∨
  ¬ y.decoder.Opened running t hole ∧ p.calm id ∧ y.decoder.Leads y.store id path shape v ∧
    v.Inside C

/-- No place but those with `Q` has become a hole of `t`. -/
def Opens (running : List (Nat × Watcher)) (t : Nat) (Q : Hole → Prop) (x y : Decoding) : Prop :=
  ∀ h, y.decoder.Opened running t h → x.decoder.Opened running t h ∨ Q h

theorem Opens.trans {Q' : Hole → Prop} (h : Opens running t Q x y) (h' : Opens running t Q' y z) :
    Opens running t (fun k => Q k ∨ Q' k) x z := by
  intro k hk
  rcases h' k hk with hk | hk
  · exact (h k hk).imp_right .inl
  · exact .inr (.inr hk)

theorem Opens.mono {Q' : Hole → Prop} (h : Opens running t Q x y) (hQ : ∀ k, Q k → Q' k) :
    Opens running t Q' x y :=
  fun k hk => (h k hk).imp_right (hQ k)

theorem opens_aside {K : CellId → Prop} (A : Aside K C C' x y) : Opens running t Q x y :=
  fun h hh => by
  simp only [opened_iff, A.stands] at hh
  exact .inl (opened_iff.mpr hh)

/-- **A reference** is a finished place or a hole. -/
theorem reference_draws (hclosed : a.closed = none) (F : p.Fits a.refers) (hwanted : a.wanted id)
    (hrefers : ∀ k, N k → a.refers k id) (R : Reading a N t x.decoder) (G : Ground p C x)
    (B : Blank running t (· = hole) C x) (hpath : shape ≠ .plain → path = []) :
    Ensures (· = x) (reference t id path shape hole) fun r y => ∃ C', Ground p C' y ∧
      Draws p running t (· = hole) C C' x y ∧ Opens running t (· = hole) x y ∧
      ∀ v, r = .ok v → p.calm id ∨ x.decoder.ids.lookup id = some t →
        Referred p C' running y t hole id path shape v := by
  have hentry : Ensures (· = x) (entryOf id) fun index z =>
      (∃ C₁, Ground p C₁ z ∧ Draws p running t (· = hole) C C₁ x z ∧
      Opens running t (fun _ => False) x z ∧ Blank running t (· = hole) C₁ z ∧
        z.decoder.ids.lookup id = some index) ∧ Reading a N t z.decoder := by
    rintro x rfl
    obtain ⟨C₁, G₁, A, hlookup⟩ := entryOf_aside G (R.tidy.orderly.alive.1.trans hclosed) id x rfl
    exact ⟨⟨C₁, G₁, .aside A B, opens_aside A, B.aside A, hlookup⟩,
      (entryOf_ensures hclosed (fun x hx => hx.tidy) hwanted reading_newRow x R).1⟩
  unfold reference
  refine .bind hentry fun index => .bind .decoder fun d => ?_
  have left : ∀ z C₁ cyclic, Ground p C₁ z → Draws p running t (· = hole) C C₁ x z →
      Opens running t (fun _ => False) x z → Blank running t (· = hole) C₁ z →
        z.decoder.ids.lookup id = some index →
          (∀ n, p.calm n → z.decoder.ids.lookup n = some t → cyclic = false) →
      ∃ C', Ground p C' (leaveHole t index path shape hole cyclic z).2 ∧
        Draws p running t (· = hole) C C' x (leaveHole t index path shape hole cyclic z).2 ∧
        Opens running t (· = hole) x (leaveHole t index path shape hole cyclic z).2 ∧
        ∀ v, (leaveHole t index path shape hole cyclic z).1 = .ok v → p.calm id ∨
          x.decoder.ids.lookup id = some t →
          Referred p C' running (leaveHole t index path shape hole cyclic z).2 t
            hole id path shape v := by
    intro z C₁ cyclic G₁ W O B₁ hlookup hcyclic
    obtain ⟨G', W', hr, hids, hs⟩ := leaveHole_draws G₁ B₁ (G₁.named id index hlookup)
      hpath hcyclic z rfl
    have O' : Opens running t (· = hole) z (leaveHole t index path shape hole cyclic z).2 := by
      intro h hh
      obtain ⟨i, path', shape', cyclic', hh⟩ := opened_iff.mp hh
      refine ((hs _ _).mp hh).imp (fun hh => opened_iff.mpr ⟨_, _, _, _, hh⟩) fun hnew => ?_
      injection hnew.2
    refine ⟨C₁, G', W.trans_self W' B, (O.trans O').mono fun _ hk => hk.elim False.elim fun h => h,
      fun v hv hid => .inl ⟨index, cyclic, hid.imp_right fun hid => ?_, hids ▸ hlookup,
        (hs _ _).mpr (.inr ⟨rfl, rfl⟩), ?_⟩⟩
    · exact Option.some.inj (hlookup.symm.trans (W.later.ids id t hid))
    · exact (Except.ok.inj (hr.symm.trans hv)).symm
  split
  · rename_i w hw
    rintro z ⟨⟨⟨C₁, G₁, W, O, B₁, hlookup⟩, R₁⟩, rfl⟩
    obtain ⟨C₂, G₂, A, hleads⟩ := resolve_aside G₁ hw hpath z rfl
    refine ⟨C₂, G₂, W.trans_self (.aside A B₁) B, (O.trans (opens_aside A)).mono fun _ hk =>
      hk.elim False.elim fun h => h, fun v hv hid => .inr ⟨?_, ?_⟩⟩
    · rw [← openings_eq_zero, Decoder.openings, A.tally]
      exact B₁.clear hole (.inl rfl)
    · rcases hid with hid | hid
      · exact ⟨hid, hleads v id hv hid hlookup⟩
      · obtain rfl := Option.some.inj (hlookup.symm.trans (W.later.ids id t hid))
        exact absurd (hw.symm.trans R₁.state) (by rintro ⟨⟩)
  · rintro z ⟨⟨⟨C₁, G₁, W, O, -, -⟩, -⟩, rfl⟩
    exact ⟨C₁, G₁, W, O.mono fun _ => False.elim, by rintro _ ⟨⟩⟩
  · rename_i hstate
    rintro z ⟨⟨⟨C₁, G₁, W, O, B₁, hlookup⟩, R₁⟩, rfl⟩
    refine left z C₁ true G₁ W O B₁ hlookup fun n hn hlookup' => ?_
    -- only the row that is read is being read, so it refers to itself
    obtain rfl : index = t := Option.some.inj
      ((R₁.tidy.orderly.reviving _ hstate).symm.trans (R₁.tidy.orderly.reviving _ R₁.state))
    obtain rfl := R₁.tidy.orderly.distinct _ _ _ hlookup hlookup'
    exact absurd (.single (hrefers id (R₁.names id hlookup))) (F.acyclic id hn)
  · rintro z ⟨⟨⟨C₁, G₁, W, O, B₁, hlookup⟩, R₁⟩, rfl⟩
    exact left z C₁ false G₁ W O B₁ hlookup fun _ _ _ => rfl
  · rename_i hstate
    refine .bind .decoder fun d' => ?_
    split
    · rename_i hwaits
      refine .bind ((habit_ensures _).partialValue? index path shape hole) fun o => ?_
      split
      · refine .pure ?_
        rintro z ⟨⟨⟨⟨C₁, G₁, W, O, B₁, hlookup⟩, R₁⟩, rfl⟩, rfl⟩
        refine ⟨C₁, G₁, W, O.mono fun _ => False.elim, fun v hv hid => ?_⟩
        rcases hid with hid | hid
        · exact absurd hwaits (by
            simp [not_waitsOn F R₁.tidy hlookup (fun n hn => hrefers n (R₁.names n hn))
              hid (.inl rfl)])
        · obtain rfl := Option.some.inj (hlookup.symm.trans (W.later.ids id t hid))
          exact absurd (hstate.symm.trans R₁.state) (by rintro ⟨⟩)
      · rintro z ⟨⟨⟨⟨C₁, G₁, W, O, B₁, hlookup⟩, R₁⟩, rfl⟩, rfl⟩
        refine left z C₁ true G₁ W O B₁ hlookup fun n hn hlookup' => absurd hwaits ?_
        simp [not_waitsOn F R₁.tidy hlookup (fun n hn => hrefers n (R₁.names n hn)) hn
          (.inr hlookup')]
    · rintro z ⟨⟨⟨⟨C₁, G₁, W, O, B₁, hlookup⟩, R₁⟩, rfl⟩, rfl⟩
      exact left z C₁ false G₁ W O B₁ hlookup fun _ _ _ => rfl

/-! ### Values -/

theorem drafted_of_referred {token : Token} {text : String} (hparse : Token.parse text = .ok token)
    (href : token.reference? = some (id, path, shape))
    (h : Referred p C running y t hole id path shape v) :
    Drafted p C running y t hole (.str text) v := by
  rcases h with ⟨i, cyclic, hid, hlookup, hs, rfl⟩ | ⟨ho, hid, hleads, hv⟩
  · exact .inl ⟨text, token, id, path, shape, i, cyclic, rfl, hparse, href, hid, hlookup, hs, rfl⟩
  · refine .inr ⟨ho, ⟨token, hparse, (Token.means_of_reference? href).mpr hleads⟩, hv,
      fun n hn => ?_⟩
    obtain ⟨token', path', shape', hparse', href'⟩ := exists_token_of_mem_referents hn
    obtain rfl := Except.ok.inj (hparse.symm.trans hparse')
    obtain ⟨rfl, -⟩ := Prod.mk.inj (Option.some.inj (href.symm.trans href'))
    exact hid

/-- A place that is no hole and refers to nothing is finished. -/
theorem drafted_of_saying {j : Json} (B : Blank running t (· = hole) C y)
    (hsaying : j.Says y.decoder y.store v) (hv : v.Inside C) (hj : j.referents = []) :
    Drafted p C running y t hole j v :=
  .inr ⟨openings_eq_zero.mp (B.clear hole (.inl rfl)), hsaying, hv, by simp [hj]⟩

/-- **The value of a token** is a finished place or a hole. -/
theorem reviveToken_draws (hclosed : a.closed = none) (F : p.Fits a.refers) {token : Token}
    (hwanted : ∀ n, token.row? = some n → a.wanted n)
    (hrefers : ∀ n, token.referent? = some n → ∀ k, N k → a.refers k n)
    (R : Reading a N t x.decoder) (G : Ground p C x) (B : Blank running t (· = hole) C x)
    {text : String} (hparse : Token.parse text = .ok token) :
    Ensures (· = x) (reviveToken t hole token) fun r y => ∃ C', Ground p C' y ∧
      Draws p running t (· = hole) C C' x y ∧ Opens running t (· = hole) x y ∧
      ∀ v, r = .ok v → (∀ n, token.referent? = some n → p.calm n ∨ x.decoder.ids.lookup n =
        some t) → Drafted p C' running y t hole (.str text) v := by
  have hnone : token.reference? = none → (Json.str text).referents = [] := by
    intro h
    simp [Json.referents, hparse, Except.toOption, Token.referent?_eq, h]
  have still : ∀ {v : Value}, token.reference? = none → token.Means x.decoder x.store v →
      v.Inside C → Ensures (· = x) (Pure.pure (.ok v) : DecodeM Outcome) fun r y => ∃ C',
        Ground p C' y ∧ Draws p running t (· = hole) C C' x y ∧ Opens running t (· = hole) x y ∧
        ∀ v, r = .ok v → (∀ n, token.referent? = some n → p.calm n ∨
          x.decoder.ids.lookup n = some t) → Drafted p C' running y t hole (.str text) v := by
    intro v href hmeans hv
    refine .pure ?_
    rintro x rfl
    refine ⟨C, G, .refl B, fun h => .inl, fun u hu _ => ?_⟩
    obtain rfl := Except.ok.inj hu
    exact drafted_of_saying B ⟨token, hparse, hmeans⟩ hv (hnone href)
  have follow : ∀ {id path shape}, token.reference? = some (id, path, shape) →
      Ensures (· = x) (reference t id path shape hole) fun r y => ∃ C', Ground p C' y ∧
        Draws p running t (· = hole) C C' x y ∧ Opens running t (· = hole) x y ∧
        ∀ v, r = .ok v → (∀ n, token.referent? = some n → p.calm n ∨
          x.decoder.ids.lookup n = some t) → Drafted p C' running y t hole (.str text) v := by
    intro id path shape href
    have hid : token.referent? = some id := by rw [token.referent?_eq, href]; rfl
    refine (reference_draws hclosed F (hwanted id (Token.row?_of_referent? hid))
      (hrefers id hid) R G B (Token.path_eq_nil href)).post ?_
    rintro r y ⟨C', G', W, O, h⟩
    exact ⟨C', G', W, O, fun v hv hgood => drafted_of_referred hparse href (h v hv (hgood id hid))⟩
  cases token with
  | text s => exact still rfl rfl trivial
  | undefined => exact still rfl rfl trivial
  | number n => exact still rfl rfl trivial
  | symbol name => exact still rfl rfl trivial
  | date d => exact still rfl rfl trivial
  | bigint n => exact still rfl rfl trivial
  | promise id =>
    refine .bind (entryOf_aside G (R.tidy.orderly.alive.1.trans hclosed) id) fun i => .bind .decoder
      fun d => .pure ?_
    rintro y ⟨⟨C', G', A, hlookup⟩, rfl⟩
    refine ⟨C', G', .aside A B, opens_aside A, fun v hv _ => ?_⟩
    obtain rfl := Except.ok.inj hv
    exact drafted_of_saying (B.aside A) ⟨_, hparse, i, hlookup, rfl⟩
      (G'.handles i (G'.named id i hlookup)) (hnone rfl)
  | temporary id =>
    refine .bind .decoder fun d => ?_
    split
    · refine .bind ((temporary_aside G _ id).pre fun y hy => hy.1) fun u => .pure ?_
      rintro y ⟨C', G', A, hu⟩
      refine ⟨C', G', .aside A B, opens_aside A, fun v hv _ => ?_⟩
      obtain rfl := Except.ok.inj hv
      exact drafted_of_saying (B.aside A) ⟨_, hparse, trivial⟩ hu (hnone rfl)
    · refine .pure ?_
      rintro y ⟨rfl, -⟩
      exact ⟨C, G, .refl B, fun h => .inl, by rintro _ ⟨⟩⟩
  | row r => exact follow rfl
  | derived kind id => exact follow rfl
  | binary kind id => exact follow rfl

/-- What reading a part of the row of `t` came to: the places with `Q` are drawn, and all holes are
in their places. -/
def Sketched {α : Type} (p : Script) (running : List (Nat × Watcher)) (t : Nat) (Q : Hole → Prop)
    (C : CellId → Prop) (x : Decoding) (good : Prop) (shown : (CellId → Prop) → Decoding → α → Prop)
    (r : Except Rejection α) (y : Decoding) : Prop :=
  ∃ C', Ground p C' y ∧ Draws p running t Q C C' x y ∧
    ∀ v, r = .ok v → Opens running t (fun h => Q h ∨ h.Sited y.store) x y ∧ (good → shown C' y v)

/-- What was drawn later was drawn since, and in no cell that was there then. -/
theorem spares_inked {leaf : Hole → Json → Value → Prop} {z : Decoding}
    (hcells : x.store.cells.size ≤ z.store.cells.size) {array : CellId}
    (harray : array < z.store.cells.size) :
    Spares (fun _ => True) leaf leaf (Inked running t C z y) (fun k c => Inked running t C x y k c ∧
      c ≠ array) s s where
  below _ _ _ _ _ _ := trivial
  leaves _ _ _ _ h := h
  nodes _ _ _ hc := ⟨⟨Nat.le_trans hcells hc.1, hc.2⟩, Nat.ne_of_gt
    (Nat.lt_of_lt_of_le harray hc.1)⟩
  cells _ _ _ _ _ h _ _ := h

theorem spares_since {leaf : Hole → Json → Value → Prop} {z : Decoding}
    (hcells : x.store.cells.size ≤ z.store.cells.size) :
    Spares (fun _ => True) leaf leaf (Inked running t C z y) (Inked running t C x y) s s where
  below _ _ _ _ _ _ := trivial
  leaves _ _ _ _ h := h
  nodes _ _ _ hc := ⟨Nat.le_trans hcells hc.1, hc.2⟩
  cells _ _ _ _ _ h _ _ := h

/-- A hole stays in its place when a cell is written that has no places yet. -/
theorem sited_write {c : CellId} (hs : h.Sited s)
    (hcell : ∀ fields, s.cell? c = some (.object fields) → fields = []) (cell : Cell) :
    h.Sited (s.write c cell) := by
  cases h with
  | field object key =>
    obtain ⟨fields, hfields, hkey⟩ := hs
    have hne : c ≠ object := by
      rintro rfl
      obtain rfl := hcell fields hfields
      cases hkey
    exact ⟨fields, (Store.cell?_write_ne _ _ hne).trans hfields, hkey⟩
  | _ => trivial

/-- Below the place of an array or object, a new cell is there to draw. -/
theorem blank_below (G : Ground p C x) (B : Blank running t (· = hole) C x) (cell : Cell)
    (hQ : ∀ h, Q h → h.cell? = some x.store.cells.size) :
    Blank running t Q C { x with store := (x.store.alloc cell).2 } := by
  refine ⟨fun h hh => B.clear h (.inr ?_), fun h c hh hc => ?_⟩
  · rcases hh with hh | ⟨c, hc, hle⟩
    · exact ⟨_, hQ h hh, Nat.le_refl _⟩
    · exact ⟨c, hc, Nat.le_trans (by simp [Store.alloc]) hle⟩
  · obtain rfl := Option.some.inj ((hQ h hh).symm.trans hc)
    exact ⟨by simp [Store.alloc], fun hC => absurd (G.region.lt_size hC) (Nat.lt_irrefl _)⟩

section Nodes

variable {hole : Hole} {e : Cell}

/-- What is drawn below a place is drawn in a new cell. -/
theorem draws_below (G : Ground p C x) (B : Blank running t (· = hole) C x)
    (hQ : ∀ h, Q h → h.cell? = some x.store.cells.size)
    (W : Draws p running t Q C C' { x with store := (x.store.alloc e).2 } y) :
    Draws p running t (· = hole) C C' x y := by
  have A := (aside_alloc (y := { x with store := (x.store.alloc e).2 }) G rfl (.refl _)).1.2
  have B₀ : Blank running t (fun _ => False) C x :=
    ⟨fun h hh => B.clear h (hh.imp_left False.elim), fun _ _ h => h.elim⟩
  exact ((Draws.aside A B₀).trans W).mono
    (fun h hh => .inr ⟨_, hQ h (hh.resolve_left fun h => h), Nat.le_refl _⟩) B

/-- **An array or object is finished**: what is below it was drawn, and its cell is written. -/
theorem sketched_node (G : Ground p C x) (B : Blank running t (· = hole) C x)
    (hempty : ∀ fields, e = .object fields → fields = []) (hp : ∀ p, e ≠ .promise p)
    (hs : ∀ st, e ≠ .stream st) (hQ : ∀ h, Q h → h.cell? = some x.store.cells.size)
    (G' : Ground p C' y) (W : Draws p running t Q C C' { x with store := (x.store.alloc e).2 } y)
    (full : Cell) :
    ¬ C' x.store.cells.size ∧
      Ground p C' { y with store := y.store.write x.store.cells.size full } ∧
      Draws p running t (· = hole) C C' x
        { y with store := y.store.write x.store.cells.size full } ∧
      Inked running t C' x { y with store := y.store.write x.store.cells.size full }
        hole x.store.cells.size ∧
      (y.store.write x.store.cells.size full).cell? x.store.cells.size = some full ∧
      ∀ h : Hole, h.Sited y.store → h.Sited (y.store.write x.store.cells.size full) := by
  have hnew : (x.store.alloc e).2.cells.size = x.store.cells.size + 1 := by simp [Store.alloc]
  have hlt : x.store.cells.size < y.store.cells.size :=
    Nat.lt_of_lt_of_le (hnew ▸ Nat.lt_succ_self _) W.cells
  have hC : ¬ C' x.store.cells.size := fun h => (W.fresh _ h).elim
    (fun h => absurd (G.region.lt_size h) (Nat.lt_irrefl _)) fun h => absurd (hnew ▸ h)
    (Nat.not_succ_le_self _)
  have hcell : y.store.cell? x.store.cells.size = some e :=
    W.later.keeps.cell? trivial (Store.cell?_alloc_new x.store e) hp hs
  refine ⟨hC, ?_, (draws_below G B hQ W).write (Nat.le_refl _) full,
    ⟨Nat.le_refl _, by simpa [Store.write] using hlt, hC, ?_⟩,
    Store.cell?_write_self _ _ hlt, fun h hh => sited_write hh (fun fields hf => ?_) full⟩
  · exact G'.store (.refl _) (Store.keeps_write hC full) (Store.stays_write hC full) (fun _ h => h)
      (G'.region.keeps (Store.keeps_write hC full)) G'.temporaries
  · have hplace : ¬ Q hole ∧ ¬ hole.Fresh (x.store.alloc e).2 := by
      refine ⟨fun hh => absurd (B.below hole _ rfl (hQ hole hh)).1 (Nat.lt_irrefl _), ?_⟩
      rintro ⟨c, hc, hle⟩
      rw [hnew] at hle
      exact absurd (B.below hole c rfl hc).1 (Nat.not_lt.mpr (Nat.le_of_succ_le hle))
    exact fun ho => openings_eq_zero.mp (B.clear hole (.inl rfl)) ((W.opened hplace).mp ho)
  · exact hempty fields (Option.some.inj (hcell.symm.trans hf))

/-- **One place is drawn, and then the others.** -/
theorem sketched_cons {first : Hole} {C₁ C₂ : CellId → Prop} {y₁ y₂ : Decoding}
    (hQ : ∀ h, h = first ∨ Q' h → Q h) (hne : ¬ Q' first) (B : Blank running t Q C x)
    (G₁ : Ground p C₁ y₁) (W₁ : Draws p running t (· = first) C C₁ x y₁)
    (W₂ : Draws p running t Q' C₁ C₂ y₁ y₂)
    (O₁ : Opens running t (fun h => h = first ∨ h.Sited y₁.store) x y₁)
    (O₂ : Opens running t (fun h => Q' h ∨ h.Sited y₂.store) y₁ y₂) :
    Opens running t (fun h => Q h ∨ h.Sited y₂.store) x y₂ ∧ ∀ j v,
      Pictured (Drafted p C₁ running y₁ t) (Inked running t C₁ x y₁) y₁.store first j v →
      Pictured (Drafted p C₂ running y₂ t) (Inked running t C₂ x y₂) y₂.store first j v := by
  refine ⟨(O₁.trans O₂).mono fun h hh => ?_, fun j v hpic => ?_⟩
  · rcases hh with (hh | hh) | hh | hh
    · exact .inl (hQ h (.inl hh))
    · exact .inr (hh.keeps W₂.later.keeps fun _ _ => trivial)
    · exact .inl (hQ h (.inr hh))
    · exact .inr hh
  · refine hpic.mono (W₂.spares G₁ fun h c hh hc => (B.below h c (hQ h (.inr hh)) hc).1) ⟨hne, ?_⟩
    rintro ⟨c, hc, hle⟩
    exact absurd (Nat.lt_of_lt_of_le (B.below first c (hQ first (.inl rfl)) hc).1 W₁.cells)
      (Nat.not_lt.mpr hle)

end Nodes

/-- Every place gets a value. -/
theorem reviveEach_length (t : Nat) (ps : List (Hole × Json)) :
    Ensures (fun _ => True) (reviveEach t ps)
    fun r _ => ∀ vs, r = .ok vs → vs.length = ps.length := by
  induction ps with
  | nil => exact .pure fun _ _ vs hvs => by rw [← Except.ok.inj hvs]; rfl
  | cons q ps ih =>
    refine .orFail (R := fun _ _ => True) (fun _ _ => trivial) (fun _ _ _ _ h => by cases h)
      fun v => ih.orFail (fun _ _ _ _ h => by cases h) fun vs => .pure fun _ hlength us hus => ?_
    rw [← Except.ok.inj hus, List.length_cons, List.length_cons, hlength vs rfl]

/-- A place that nothing is done for. -/
theorem sketched_leaf (G : Ground p C x) (B : Blank running t (· = hole) C x) {good : Prop}
    {shown : (CellId → Prop) → Decoding → Value → Prop} (hshown : shown C x v) :
    Ensures (· = x) (Pure.pure (.ok v) : DecodeM Outcome)
      (Sketched p running t (· = hole) C x good shown) := by
  refine .pure ?_
  rintro x rfl
  refine ⟨C, G, .refl B, fun u hu => ⟨fun h => .inl, fun _ => ?_⟩⟩
  obtain rfl := Except.ok.inj hu
  exact hshown

/-- **The values at some places are drawn**, if each of them is. -/
theorem reviveEach_draws {ps : List (Hole × Json)} (hnodup : (ps.map Prod.fst).Nodup)
    (hreads : ∀ q ∈ ps, Ensures (fun x => Reading a N t x.decoder) (revive t q.1 q.2)
      fun _ x => Reading a N t x.decoder)
    (hdraws : ∀ q ∈ ps, ∀ {x : Decoding} {C : CellId → Prop}, Reading a N t x.decoder →
      Ground p C x → Blank running t (· = q.1) C x →
      Ensures (· = x) (revive t q.1 q.2) (Sketched p running t (· = q.1) C x (∀ n ∈ q.2.referents,
      p.calm n ∨ x.decoder.ids.lookup n = some t) fun C' y v =>
      Pictured (Drafted p C' running y t) (Inked running t C' x y) y.store q.1 q.2 v))
    {x : Decoding} {C : CellId → Prop} (R : Reading a N t x.decoder) (G : Ground p C x)
    (B : Blank running t (· ∈ ps.map Prod.fst) C x) :
    Ensures (· = x) (reviveEach t ps)
      (Sketched p running t (· ∈ ps.map Prod.fst) C x
        (∀ q ∈ ps, ∀ n ∈ q.2.referents, p.calm n ∨ x.decoder.ids.lookup n = some t)
        fun C' y vs => PicturedEach (Drafted p C' running y t) (Inked running t C' x y)
          y.store ps vs) := by
  induction ps generalizing x C with
  | nil =>
    refine .pure ?_
    rintro x rfl
    exact ⟨C, G, .refl B, fun u hu => ⟨fun h => .inl, fun _ => Except.ok.inj hu ▸ .nil⟩⟩
  | cons q ps ih =>
    obtain ⟨hnew, hnodup⟩ := List.nodup_cons.mp hnodup
    obtain ⟨hread, hreads⟩ := List.forall_mem_cons.mp hreads
    have hQ : ∀ h, h = q.1 ∨ h ∈ ps.map Prod.fst → h ∈ (q :: ps).map Prod.fst :=
      fun h => List.mem_cons.mpr
    refine .orFail
      (((hdraws q List.mem_cons_self R G (B.mono fun h hh => hQ h (.inl hh))).and hread).pre
      fun y hy => ⟨hy, hy ▸ R⟩) ?_ ?_
    · rintro r y ⟨⟨C', G', W, -⟩, -⟩
      exact ⟨C', G', W.mono (fun h hh => .inl (hQ h (.inl hh))) B, by rintro _ ⟨⟩⟩
    · rintro v y₁ ⟨⟨C₁, G₁, W₁, h₁⟩, R₁⟩
      obtain ⟨O₁, hpic₁⟩ := h₁ v rfl
      have B₁ : Blank running t (· ∈ ps.map Prod.fst) C₁ y₁ := W₁.blank (B.mono hQ) fun h hh he =>
        hnew (he ▸ hh)
      refine Ensures.orFail (ih hnodup hreads (fun q hq => hdraws q (List.mem_cons_of_mem _ hq)) R₁
        G₁ B₁) ?_ (fun vs => .pure ?_) y₁ rfl
      · rintro r y₂ ⟨C₂, G₂, W₂, -⟩
        exact ⟨C₂, G₂, (W₁.trans W₂).mono (fun h hh => .inl (hQ h hh)) B, by rintro _ ⟨⟩⟩
      · rintro y₂ ⟨C₂, G₂, W₂, h₂⟩
        obtain ⟨O₂, hpic₂⟩ := h₂ vs rfl
        obtain ⟨O, hfirst⟩ := sketched_cons hQ hnew B G₁ W₁ W₂ O₁ O₂
        refine ⟨C₂, G₂, (W₁.trans W₂).mono (fun h hh => .inl (hQ h hh)) B, fun us hus =>
          ⟨O, fun hgood => ?_⟩⟩
        obtain rfl := Except.ok.inj hus
        obtain ⟨hgood, hgoods⟩ := List.forall_mem_cons.mp hgood
        refine .cons (hfirst _ v (hpic₁ hgood)) ?_
        refine PicturedEach.mono (spares_since W₁.cells) (fun _ _ => trivial)
          (hpic₂ fun q hq n hn => ?_)
        exact (hgoods q hq n hn).imp_right (W₁.later.ids n t)

/-- **The values of a row are drawn**, for every row. -/
theorem revive_draws (hclosed : a.closed = none) (F : p.Fits a.refers) (j : Json) (hole : Hole)
    {x : Decoding} {C : CellId → Prop} (hdistinct : j.Distinct)
    (hwanted : ∀ n, j.Mentions n → a.wanted n)
    (hspoken : ∀ n ∈ j.referents, a.spoken n ∧ ∀ k, N k → a.refers k n)
    (R : Reading a N t x.decoder) (G : Ground p C x) (B : Blank running t (· = hole) C x) :
    Ensures (· = x) (revive t hole j)
      (Sketched p running t (· = hole) C x (∀ n ∈ j.referents, p.calm n ∨ x.decoder.ids.lookup n =
        some t) fun C' y v => Pictured (Drafted p C' running y t) (Inked running t C' x y)
        y.store hole j v) := by
  induction j using Json.parts_induction generalizing hole x C with
  | leaf j hj =>
    cases j with
    | str s =>
      unfold revive
      split
      · rename_i token hparse
        refine (reviveToken_draws hclosed F (fun n hn => hwanted n ⟨token, hparse, hn⟩)
          (fun n hn => (hspoken n (Json.mem_referents_str hparse hn)).2) R G B hparse).post ?_
        rintro r y ⟨C', G', W, O, h⟩
        exact ⟨C', G', W, fun v hv => ⟨O.mono fun _ => .inl, fun hgood =>
          h v hv fun n hn => hgood n (Json.mem_referents_str hparse hn)⟩⟩
      · refine .pure ?_
        rintro x rfl
        exact ⟨C, G, .refl B, by rintro _ ⟨⟩⟩
    | arr items => cases hj
    | obj fields => cases hj
    | _ =>
      unfold revive
      exact sketched_leaf G B (drafted_of_saying B rfl trivial rfl)
  | node j hj ih =>
    rw [revive_node t hole hj]
    have hQ : ∀ h, h ∈ (j.places x.store.cells.size).map Prod.fst →
        h.cell? = some x.store.cells.size := by
      intro h hh
      obtain ⟨q, hq, rfl⟩ := List.mem_map.mp hh
      exact Json.cell?_of_mem_places hq
    have G₁ := (aside_alloc (y := { x with store := (x.store.alloc (j.cellWith [])).2 }) G rfl
      (.refl _)).1.1
    have hsize : (x.store.alloc (j.cellWith [])).2.cells.size = x.store.cells.size + 1 := by
      simp [Store.alloc]
    have hwanted' := fun k (hk : k ∈ j.parts) n hn => hwanted n (Json.mentions_of_mem_parts hk hn)
    have hspoken' := fun k (hk : k ∈ j.parts) n hn =>
      hspoken n (Json.mem_referents_of_mem_parts hk hn)
    refine .bind (Q := fun c z => c = x.store.cells.size ∧
      z = { x with store := (x.store.alloc (j.cellWith [])).2 }) (.onStore ?_) fun c => ?_
    · rintro x rfl
      exact ⟨rfl, rfl⟩
    rintro z ⟨rfl, rfl⟩
    refine Ensures.orFail
      ((reviveEach_draws (x := { x with store := (x.store.alloc (j.cellWith [])).2 })
        (hdistinct.nodup _)
      (fun q hq => revive_ensures hclosed q.2 q.1 (hwanted' _ (Json.snd_mem_parts hq))
        (hspoken' _ (Json.snd_mem_parts hq)))
      (fun q hq _ _ R G B => ih q.2 (Json.snd_mem_parts hq) q.1
        (hdistinct.parts _ (Json.snd_mem_parts hq))
        (hwanted' _ (Json.snd_mem_parts hq)) (hspoken' _ (Json.snd_mem_parts hq)) R G B)
      R G₁ (blank_below G B _ hQ)).and (reviveEach_length t _)) ?_ ?_ _ ⟨rfl, trivial⟩
    · rintro r y ⟨⟨C', G', W, -⟩, -⟩
      exact ⟨C', G', draws_below G B hQ W, by rintro _ ⟨⟩⟩
    · rintro vs y ⟨⟨C', G', W, h⟩, hlength⟩
      obtain ⟨O, hpic⟩ := h vs rfl
      obtain ⟨hC, G'', W', hinked, hcell, hsited⟩ := sketched_node G B (j.eq_nil_of_cellWith_nil)
        (j.cellWith_ne_promise []) (j.cellWith_ne_stream []) hQ G' W (j.cellWith vs)
      refine ⟨C', G'', W', fun v hv => ⟨fun h hh => ?_, fun hgood => ?_⟩⟩
      · rcases O h hh with hh | hh | hh
        · exact .inl hh
        · obtain ⟨q, hq, rfl⟩ := List.mem_map.mp hh
          exact .inr (.inr (sited_of_mem_places hq hcell (hlength vs rfl)))
        · exact .inr (.inr (hsited h hh))
      · obtain rfl := Except.ok.inj hv
        refine (pictured_node hj).mpr ⟨_, vs, rfl, hinked, hcell, ?_⟩
        have hpic' := hpic fun q hq n hn => hgood n
          (Json.mem_referents_of_mem_parts (Json.snd_mem_parts hq) hn)
        exact PicturedEach.mono (spares_write G' hC (j.cellWith vs)) (fun _ _ => trivial)
          (PicturedEach.mono (spares_inked (by simp [hsize]) (by simp [hsize]))
            (fun _ _ => trivial) hpic')

end DecodeM

end GraphRows
