import GraphRows.Proofs.Store.Outcomes

/-!
# Passing outcomes on

A callback may pass the outcome it is given on to the promise behind a name. So settling one promise
may settle others, but only those that some callback leads to: `Store.PassesTo` says which these
are. While a promise settles callbacks only go away and names stay, so what nobody led to before
nobody leads to on the way.

Most of the work on a store settles nothing at all: it makes cells and writes to cells that hold no
promise. `Store.Steady` says that the promises of a store are as they were and that those made since
have no callbacks.

## Main results

* `Store.spares_settle`: a promise that nothing leads to keeps its outcome while another one settles
* `Store.Steady`: what all the rest leaves as it was
-/

namespace GraphRows.Store

variable {s s' s'' : Store} {o : Outcome} {c id : CellId}

/-- Some promise would pass its outcome on to the cell. -/
def PassesTo (s : Store) (c : CellId) : Prop :=
  ∃ id p label name, s.promise? id = some p ∧ Callback.observe label (some name) ∈ p.callbacks ∧
    (s.named? name).bind Value.identity? = some c

/-! ### Settling -/

/-- Callbacks only go away, names stay, and the promise in `c` is as it was. -/
structure Spares (c : CellId) (s s' : Store) : Prop where
  names : s'.names = s.names
  callbacks : ∀ id p', s'.promise? id = some p' → ∃ p, s.promise? id = some p ∧
    p'.callbacks ⊆ p.callbacks
  promise : s'.promise? c = s.promise? c

namespace Spares

theorem of_cells_eq (hcells : s'.cells = s.cells) (hnames : s'.names = s.names) : Spares c s s' :=
  ⟨hnames, fun id p' h => ⟨p', (promise?_congr hcells id).symm.trans h, fun _ h => h⟩,
    promise?_congr hcells c⟩

theorem refl (c : CellId) (s : Store) : Spares c s s := of_cells_eq rfl rfl

theorem trans (h : Spares c s s') (h' : Spares c s' s'') : Spares c s s'' := by
  refine ⟨h'.names.trans h.names, fun id p'' hp'' => ?_, h'.promise.trans h.promise⟩
  obtain ⟨p', hp', hsub'⟩ := h'.callbacks id p'' hp''
  obtain ⟨p, hp, hsub⟩ := h.callbacks id p' hp'
  exact ⟨p, hp, List.Subset.trans hsub' hsub⟩

/-- What is led to was led to before. -/
theorem passesTo (h : Spares c s s') {q : CellId} (hq : s'.PassesTo q) : s.PassesTo q := by
  obtain ⟨id, p', label, name, hp', hmem, hname⟩ := hq
  obtain ⟨p, hp, hsub⟩ := h.callbacks id p' hp'
  refine ⟨id, p, label, name, hp, hsub hmem, ?_⟩
  rw [named?, ← h.names]
  exact hname

/-- A promise settles, and its callbacks are taken. -/
theorem write (hc : id ≠ c) {p : Promise} (hp : s.promise? id = some p) (o : Outcome) :
    Spares c s (s.write id (.promise ⟨some o, [], []⟩)) := by
  have hnew : (s.write id (.promise ⟨some o, [], []⟩)).promise? id = some ⟨some o, [], []⟩ :=
    promise?_of_cell? (cell?_write_self s _ (cell?_lt_size (promise?_eq_some hp)))
  have hother : ∀ q, id ≠ q → (s.write id (.promise ⟨some o, [], []⟩)).promise? q = s.promise? q :=
      fun q hq => by
    simp only [promise?, cell?_write_ne s _ hq]
  refine ⟨rfl, fun q p' hp' => ?_, hother c hc⟩
  by_cases hq : id = q
  · subst hq
    obtain rfl := Option.some.inj (hnew.symm.trans hp')
    exact ⟨p, hp, List.nil_subset _⟩
  · exact ⟨p', (hother q hq).symm.trans hp', fun _ h => h⟩

end Spares

theorem names_post (s : Store) (mailbox : Nat) (p : Ping) : (s.post mailbox p).names = s.names := by
  unfold post
  split
  · rfl
  · dsimp only
    split <;> rfl

/-- A callback that does not lead to `c` runs. -/
theorem spares_callWith {settle : CellId → Outcome → Store → Store} {cb : Callback}
    (hcb : ∀ label name, cb = .observe label (some name) → (s.named? name).bind Value.identity? ≠
      some c)
    (hsettle : ∀ q t, Spares c s t → q ≠ c → Spares c t (settle q o t)) {t : Store}
    (ht : Spares c s t) : Spares c s (callWith settle cb o t) := by
  have hpost : ∀ mailbox p, Spares c s (t.post mailbox p) := fun mailbox p =>
    ht.trans (.of_cells_eq (post_eq t mailbox p).1 (names_post t mailbox p))
  unfold callWith
  split
  · exact hpost _ _
  · exact hpost _ _
  · exact hpost _ _
  · rename_i label forward
    dsimp only
    have hnote : Spares c s (t.note (.settled label (t.reportOutcome o))) :=
      ht.trans (.of_cells_eq rfl rfl)
    split
    · rename_i q hq
      refine hnote.trans (hsettle q _ hnote ?_)
      rintro rfl
      obtain ⟨name, rfl, hname⟩ := Option.bind_eq_some_iff.mp hq
      exact hcb label name rfl (by rw [named?, ← ht.names]; exact hname)
    · exact hnote

/-- **A promise that nothing leads to** keeps its outcome while another one settles. -/
theorem spares_settleWith (fuel : Nat) : ∀ (id : CellId) (s : Store), id ≠ c → ¬ s.PassesTo c →
    Spares c s (settleWith fuel id o s).2 := by
  induction fuel with
  | zero => exact fun _ s _ _ => .refl c s
  | succ fuel ih =>
    intro id s hid hc
    unfold settleWith
    split
    · rename_i callbacks bells hp
      -- the callbacks run one by one, and none of them leads to `c`
      have hcalls : ∀ (l : List Callback) (t : Store), l ⊆ callbacks → Spares c s t →
          Spares c s
            (l.foldl (fun s cb => callWith (fun q o s => (settleWith fuel q o s).2) cb o s) t) := by
        intro l
        induction l with
        | nil => exact fun t _ ht => ht
        | cons cb l ihl =>
          intro t hl ht
          refine ihl _ (List.subset_of_cons_subset hl) (spares_callWith ?_ (fun q t ht hq => ?_) ht)
          · rintro label name rfl hname
            exact hc ⟨id, _, label, name, hp, hl (List.mem_cons_self ..), hname⟩
          · exact ih q t hq fun h => hc (ht.passesTo h)
      have hbells : ∀ (l : List Nat) (t : Store), Spares c s t → Spares c s (l.foldl ring t) := by
        intro l
        induction l with
        | nil => exact fun t ht => ht
        | cons bell l ihl => exact fun t ht => ihl _ (ht.trans (.of_cells_eq rfl rfl))
      exact hbells bells _ (hcalls callbacks _ (List.Subset.refl _) (.write hid hp o))
    · exact .refl c s

theorem spares_settle (hid : id ≠ c) (hc : ¬ s.PassesTo c) (o : Outcome) :
    Spares c s (s.settle id o).2 :=
  spares_settleWith _ id s hid hc

/-! ### All the rest -/

/-- The promises are as they were, and those made since have no callbacks. -/
structure Steady (s s' : Store) : Prop where
  size : s.cells.size ≤ s'.cells.size
  promises : ∀ c < s.cells.size, s'.promise? c = s.promise? c
  fresh : ∀ c p, s.cells.size ≤ c → s'.promise? c = some p → p.callbacks = []
  names : s'.names = s.names

theorem promise?_eq_none_of_size_le (h : s.cells.size ≤ c) : s.promise? c = none := by
  simp [promise?, cell?, h]

namespace Steady

theorem of_promise?_eq (hsize : s'.cells.size = s.cells.size)
    (h : ∀ c, s'.promise? c = s.promise? c) (hnames : s'.names = s.names) : Steady s s' := by
  refine ⟨Nat.le_of_eq hsize.symm, fun c _ => h c, fun c p hc hp => ?_, hnames⟩
  rw [h, promise?_eq_none_of_size_le hc] at hp
  cases hp

theorem of_cells_eq (hcells : s'.cells = s.cells) (hnames : s'.names = s.names) : Steady s s' :=
  .of_promise?_eq (by rw [hcells]) (promise?_congr hcells) hnames

theorem refl (s : Store) : Steady s s := of_cells_eq rfl rfl

theorem trans (h : Steady s s') (h' : Steady s' s'') : Steady s s'' := by
  refine ⟨h.size.trans h'.size, fun c hc => ?_, fun c p hc hp => ?_, h'.names.trans h.names⟩
  · exact (h'.promises c (Nat.lt_of_lt_of_le hc h.size)).trans (h.promises c hc)
  · rcases Nat.lt_or_ge c s'.cells.size with hlt | hge
    · exact h.fresh c p hc ((h'.promises c hlt).symm.trans hp)
    · exact h'.fresh c p hge hp

/-- A cell is made, and no callback comes with it. -/
theorem alloc (s : Store) {cell : Cell} (hcell : ∀ p, cell = .promise p → p.callbacks = []) :
    Steady s (s.alloc cell).2 := by
  refine ⟨?_, fun c hc => ?_, fun c p hc hp => ?_, rfl⟩
  · simp [Store.alloc]
  · simp only [promise?, cell?_alloc_old s cell hc]
  · have hcell' := promise?_eq_some hp
    have hlt : c < s.cells.size + 1 := by simpa [Store.alloc] using cell?_lt_size hcell'
    obtain rfl : c = s.cells.size := by omega
    exact hcell p (Option.some.inj ((cell?_alloc_new s cell).symm.trans hcell'))

/-- A cell that holds no promise is written to. -/
theorem write (h : s.promise? id = none) {cell : Cell} (hcell : ∀ p, cell ≠ .promise p) :
    Steady s (s.write id cell) := by
  refine .of_promise?_eq (by simp [Store.write]) (fun c => ?_) rfl
  by_cases hc : id = c
  · subst hc
    rcases Nat.lt_or_ge id s.cells.size with hlt | hge
    · rw [h, promise?, cell?_write_self s cell hlt]
      split
      · rename_i p hp
        exact absurd (Option.some.inj hp) (hcell p)
      · rfl
    · rw [promise?_eq_none_of_size_le hge, promise?_eq_none_of_size_le
        (by simpa [Store.write] using hge)]
  · simp only [promise?, cell?_write_ne s cell hc]

/-- A promise made since settles, if nobody waits for it. -/
theorem settle (h : Steady s s') (hid : s.cells.size ≤ id)
    (hp : s'.cell? id = some (.promise ⟨none, [], []⟩)) (o : Outcome) :
    Steady s (s'.settle id o).2 := by
  rw [settle_of_pending hp]
  have hnew := promise?_of_cell? (cell?_write_self s' (.promise ⟨some o, [], []⟩)
    (cell?_lt_size hp))
  have hother : ∀ c, id ≠ c → (s'.write id (.promise ⟨some o, [], []⟩)).promise? c =
      s'.promise? c := fun c hc => by
    simp only [promise?, cell?_write_ne s' _ hc]
  refine ⟨by simpa [Store.write] using h.size, fun c hc => ?_, fun c p hc hp => ?_, h.names⟩
  · exact (hother c (Nat.ne_of_gt (Nat.lt_of_lt_of_le hc hid))).trans (h.promises c hc)
  · by_cases hne : id = c
    · subst hne
      obtain rfl := Option.some.inj (hnew.symm.trans hp)
      rfl
    · exact h.fresh c p hc ((hother c hne).symm.trans hp)

/-- What is led to was led to before. -/
theorem passesTo (h : Steady s s') (hc : s'.PassesTo c) : s.PassesTo c := by
  obtain ⟨id, p, label, name, hp, hmem, hname⟩ := hc
  rcases Nat.lt_or_ge id s.cells.size with hlt | hge
  · refine ⟨id, p, label, name, (h.promises id hlt).symm.trans hp, hmem, ?_⟩
    rw [named?, ← h.names]
    exact hname
  · rw [h.fresh id p hge hp] at hmem
    cases hmem

end Steady

theorem steady_push (s : Store) (id : CellId) (e : StreamEvent) : Steady s (s.push id e).2 := by
  refine .of_promise?_eq (quiet_push s id e).size (promise?_push s id e) ?_
  unfold push
  split
  · rfl
  · rename_i st hst
    dsimp only
    split
    · rfl
    · cases st.subscriber with
      | none => cases st.bell <;> rfl
      | some p => cases st.bell <;> exact names_post _ _ _

theorem steady_resolveTemporary (s : Store) (set : Nat) (name : String) :
    Steady s (s.resolveTemporary set name).2 := by
  unfold resolveTemporary
  split
  · exact .refl s
  · have hmade : Steady s (s.alloc (.temporary name)).2 := .alloc s (by rintro p ⟨⟩)
    exact hmade.trans (.of_cells_eq rfl rfl)

end GraphRows.Store
