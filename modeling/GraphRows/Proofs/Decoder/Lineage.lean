import GraphRows.Proofs.Decoder.Filling
import GraphRows.Proofs.Decoder.Origins
import GraphRows.Proofs.Store.Matching

/-!
# What becomes of a row

When all rows have come, the state of a row is what it says, as far as the rows it refers to allow.
A row that brings a value of its own has it. A row that carries a model is drawn in cells of its
own, and if it is rejected, one of its strings is to blame. `Lineage` says so at every moment in the
life of a decoder whose rows do not refer to each other in a circle.

It is an addition to `Portrait`, which tells the cells that may still change from those that may
not. Where both speak of one picture, they are joined: `Pictured.and`.

## Main results

* `Lineage.grow`, `Lineage.move`, `Lineage.fill`: what the changes of a decoder keep
* `DecodeM.runWatchers_lineage`: what the decoder keeps while watchers run
-/

namespace GraphRows

open Decoder

variable {f : Entry → Entry} {v : Value}

/-! ### What rows bring -/

/-- What a row or a module brings: a failure, or a value and the new cells that it is made of. These
may lead to each other, so they depend on the number that the first of them gets. -/
inductive Gift where
  | refusal
  | graph (cells : CellId → List Cell) (v : CellId → Value)

namespace Gift

/-- A value that needs no new cells. -/
abbrev value (v : Value) : Gift := .graph (fun _ => []) fun _ => v

/-- A single new cell. -/
abbrev cell (c : Cell) : Gift := .graph (fun _ => [c]) .cell

/-- The same value where `size` new cells are put from `k` on and where they are put from `k'` on: a
scalar, one of the first `n` cells, or a new cell. -/
inductive Moved (n size k k' : Nat) : Value → Value → Prop
  | scalar {v : Value} (h : v.identity? = none) : Moved n size k k' v v
  | host {c : CellId} (h : c < n) : Moved n size k k' (.cell c) (.cell c)
  | new {i : Nat} (h : i < size) : Moved n size k k' (.cell (k + i)) (.cell (k' + i))

/-- The gift is the same wherever its cells are put, and leads to none but these and the first `n`
cells. -/
def Uniform (n : Nat) : Gift → Prop
  | .refusal => True
  | .graph cells v => ∀ k k', Moved n (cells k).length k k' (v k) (v k') ∧
      List.Forall₂ (Cell.Agree (Moved n (cells k).length k k')) (cells k) (cells k')

/-- The gift is handed over in a store. Whoever refuses may have made cells that nobody gets to
see. -/
inductive Handed (n : Nat) (s : Store) : Gift → Outcome → Store → Prop
  | refusal {s' : Store} (lost : List Cell) (r : Rejection)
      (hcells : s'.cells = s.cells ++ lost.toArray)
      (hlost : ∀ c ∈ lost, ∀ u ∈ c.parts, u.Inside fun d => d < n ∨ s.cells.size ≤ d ∧
        d < s'.cells.size)
      (htemporaries : s'.temporaries = s.temporaries) : Handed n s .refusal (.error r) s'
  | graph {s' : Store} {cells : CellId → List Cell} {v : CellId → Value}
      (hcells : s'.cells = s.cells ++ (cells s.cells.size).toArray)
        (htemporaries : s'.temporaries = s.temporaries) :
      Handed n s (.graph cells v) (.ok (v s.cells.size)) s'

/-- Among cells that are put from `k` on, what can be reached from the `r`-th. -/
inductive Reaches (cells : List Cell) (k r : Nat) : Nat → Prop
  | root (h : r < cells.length) : Reaches cells k r r
  | part {i j : Nat} {c : Cell} (h : Reaches cells k r i) (hc : cells[i]? = some c)
      (hj : j < cells.length) (hu : .cell (k + j) ∈ c.parts) : Reaches cells k r j

/-- An outcome is what the gift says, its cells being new and of no known origin. -/
def Held (base : Store) (O : CellId → Option Origin) (x : Decoding) : Gift → Outcome → Prop
  | .refusal, o => ∃ r, o = .error r
  | .graph cells v, o => ∃ k, o = .ok (v k) ∧ base.cells.size ≤ k ∧ ∀ i c, (cells k)[i]? = some c →
      O (k + i) = none ∧ ∃ c', x.store.cell? (k + i) = some c' ∧ c.Alike c'

/-- What can be reached from the `r`-th of these cells stands in the store from `k` on, and was
brought for the entry `t`. -/
def Stands (O : CellId → Option Origin) (x : Decoding) (t k r : Nat) (cells : List Cell) : Prop :=
  ∀ i, Reaches cells k r i → O (k + i) = some (.brought t r i) ∧
    ∃ c c', cells[i]? = some c ∧ x.store.cell? (k + i) = some c' ∧ c.Alike c'

/-- A state is what the gift says, its cells having been brought for the entry `t`. -/
def Came (O : CellId → Option Origin) (x : Decoding) (t : Nat) : Gift → EntryState → Prop
  | .refusal, state => ∃ r, state = .rejected r
  | .graph cells v, state => ∃ k, state = .fulfilled (v k) ∧
    ∀ r, v k = .cell (k + r) → Stands O x t k r (cells k)

theorem Reaches.lt {cells : List Cell} {k r i : Nat} (h : Reaches cells k r i) :
    i < cells.length := by
  cases h with
  | root h => exact h
  | part _ _ h => exact h

theorem Moved.inside {n size k k' : Nat} {u u' : Value} (h : Moved n size k k' u u') :
    u.Inside fun c => c < n ∨ k ≤ c ∧ c < k + size := by
  cases h with
  | scalar h =>
    cases u with
    | cell c => cases h
    | _ => trivial
  | host h => exact .inl h
  | new h => exact .inr ⟨Nat.le_add_right k _, Nat.add_lt_add_left h k⟩

/-- What leads to the first `n` cells only does not move. -/
theorem moved_of_inside {n : Nat} (size k k' : Nat) {u : Value} (h : u.Inside (· < n)) :
    Moved n size k k' u u := by
  cases u with
  | cell c => exact .host h
  | _ => exact .scalar rfl

theorem uniform_value {n : Nat} {u : Value} (h : u.Inside (· < n)) : (value u).Uniform n :=
  fun k k' => ⟨moved_of_inside 0 k k' h, .nil⟩

theorem uniform_cell {n : Nat} {c : Cell} (h : ∀ u ∈ c.parts, u.Inside (· < n)) :
    (cell c).Uniform n :=
  fun k k' => ⟨.new (i := 0) Nat.one_pos, .cons ⟨rfl, List.forall₂_same.mpr fun u hu =>
    moved_of_inside 1 k k' (h u hu)⟩ .nil⟩

/-- The cells of a gift lead to none but themselves and the first `n`. -/
theorem Uniform.parts_inside {n k : Nat} {cells : CellId → List Cell} {v : CellId → Value}
    (h : (graph cells v).Uniform n) {c : Cell} (hc : c ∈ cells k) :
    ∀ u ∈ c.parts, u.Inside fun d => d < n ∨ k ≤ d ∧ d < k + (cells k).length := by
  intro u hu
  obtain ⟨i, hi⟩ := List.mem_iff_getElem?.mp hc
  obtain ⟨c', -, -, hparts⟩ := exists_getElem?_of_forall₂ (h k k).2 hi
  obtain ⟨l, hl⟩ := List.mem_iff_getElem?.mp hu
  obtain ⟨u', -, hmoved⟩ := exists_getElem?_of_forall₂ hparts hl
  exact hmoved.inside

end Gift

/-- A loader that answers every import always in the same way, whatever is in the store: it refuses,
or it makes the same value of new cells and of the first `n` ones. So a value that it keeps and
hands out again is one of the host's. -/
structure Loader.Steady (l : Loader) (loads : Import → Gift) (n : Nat) : Prop where
  handed : ∀ m s, (loads m).Handed n s (l.load m s).1 (l.load m s).2
  uniform : ∀ m, (loads m).Uniform n

/-- What an import brings. -/
def importGift (loads : Import → Gift) (payload : Bytes) : Gift :=
  match Json.readBytes payload with
  | .error _ => .refusal
  | .ok j =>
    match Import.ofJson j with
    | .error _ => .refusal
    | .ok m => loads m

/-- What binary data bring. -/
def binaryGift (kind : BinaryKind) (payload : Bytes) : Gift :=
  match Binary.make kind payload with
  | .error _ => .refusal
  | .ok data => .cell (.binary data)

/-- What a row brings of its own, if it is not a model that can be read. -/
def RowSort.gift? (loads : Import → Gift) (payload : Bytes) : RowSort → Option Gift
  | .model => if (Json.read (Utf8.decodeLossy payload)).toOption.isSome then none else some .refusal
  | .binary kind => some (binaryGift kind payload)
  | .tagged .text => some (.value (.string (Utf8.decodeLossy payload)))
  | .tagged .importing => some (importGift loads payload)
  | .tagged .error | .tagged .postpone => some .refusal
  | _ => none

/-- What a row brings of its own, if it brings a value and is not a model that can be read. -/
def RawRow.gift? (loads : Import → Gift) (row : RawRow) : Option Gift :=
  row.sort?.bind (RowSort.gift? loads row.payload)

/-- Cells are put behind those that are there. -/
theorem Store.cell?_append {s s' : Store} {cells : List Cell}
    (h : s'.cells = s.cells ++ cells.toArray) :
    s.Adds s' ∧ ∀ i, s'.cell? (s.cells.size + i) = cells[i]? := by
  refine ⟨fun c cell hc => ?_, fun i => ?_⟩
  · rw [Store.cell?, h, Array.getElem?_append_left (Store.cell?_lt_size hc)]
    exact hc
  · rw [Store.cell?, h, Array.getElem?_append_right (Nat.le_add_right ..), Nat.add_sub_cancel_left,
      List.getElem?_toArray]

/-- New cells that lead to each other and to `host` only are closed. -/
theorem Store.closed_append {s s' : Store} {cells : List Cell} {host : CellId → Prop}
    (hcells : s'.cells = s.cells ++ cells.toArray)
    (h : ∀ c ∈ cells, ∀ u ∈ c.parts,
      u.Inside fun d => host d ∨ s.cells.size ≤ d ∧ d < s'.cells.size) :
    Closed host (fun c => s.cells.size ≤ c ∧ c < s'.cells.size) s' := by
  rintro c ⟨hle, hlt⟩
  obtain ⟨i, rfl⟩ := Nat.exists_eq_add_of_le hle
  obtain ⟨cell, hcell⟩ := Store.cell?_isSome hlt
  have hi := ((Store.cell?_append hcells).2 i).symm.trans hcell
  exact ⟨cell, hcell, h cell (List.mem_of_getElem? hi)⟩

/-- A loader that always answers in the same way touches nothing but what it makes. -/
theorem Loader.Steady.tame {l : Loader} {loads : Import → Gift} {n : Nat} (S : l.Steady loads n) :
    l.Tame (· < n) := by
  refine ⟨fun m s => ?_, fun m s => ?_, fun m s => ?_, fun m s => ?_, fun m s v hv => ?_⟩
  all_goals
    have h := S.handed m s
    have hu := S.uniform m
    generalize loads m = g at h hu
    generalize (l.load m s).1 = o at *
    generalize (l.load m s).2 = s' at *
  · cases h with
    | refusal lost r hcells => exact (Store.cell?_append hcells).1.size
    | graph hcells => exact (Store.cell?_append hcells).1.size
  · cases h with
    | refusal lost r hcells => exact (Store.cell?_append hcells).1
    | graph hcells => exact (Store.cell?_append hcells).1
  · cases h with
    | refusal lost r _ _ ht => exact ht
    | graph _ ht => exact ht
  · cases h with
    | refusal lost r hcells hlost => exact Store.closed_append hcells hlost
    | graph hcells =>
      refine Store.closed_append hcells fun c hc u hpart => ?_
      rw [hcells, Array.size_append, List.size_toArray]
      exact hu.parts_inside hc u hpart
  · cases h with
    | refusal lost r => cases hv
    | graph hcells =>
      obtain rfl := Except.ok.inj hv
      rw [hcells, Array.size_append, List.size_toArray]
      exact (hu s.cells.size s.cells.size).1.inside

/-! ### Pictures side by side -/

section Joined

variable {leaf leaf' : Hole → Json → Value → Prop} {node node' : Hole → CellId → Prop} {s : Store}

/-- **Two pictures of one value are one picture.** -/
theorem Pictured.and {j : Json} {hole : Hole} {v : Value} (h : Pictured leaf node s hole j v)
    (h' : Pictured leaf' node' s hole j v) :
    Pictured (fun h j v => leaf h j v ∧ leaf' h j v) (fun h c => node h c ∧
      node' h c) s hole j v := by
  induction j using Json.parts_induction generalizing hole v with
  | leaf j hj =>
    rw [pictured_leaf hj] at h h' ⊢
    exact ⟨h, h'⟩
  | node j hj ih =>
    rw [pictured_node hj] at h h' ⊢
    obtain ⟨c, vs, rfl, hc, hcell, hvs⟩ := h
    obtain ⟨c', vs', heq, hc', hcell', hvs'⟩ := h'
    obtain rfl := Value.cell.inj heq
    obtain rfl : vs = vs' := by
      rw [← hvs.parts_cellWith hj, ← hvs'.parts_cellWith hj, Option.some.inj
        (hcell.symm.trans hcell')]
    refine ⟨c, vs, rfl, ⟨hc, hc'⟩, hcell, ?_⟩
    exact List.Forall₂.mp (fun _ _ h hv' => h hv')
      (hvs.imp fun p hp v hv hv' => ih p.2 (Json.snd_mem_parts hp) hv hv') hvs'

end Joined

/-! ### What stays -/

theorem Cell.Alike.symm {c c' : Cell} (h : c.Alike c') : c'.Alike c := by
  cases h with
  | same => exact .same _
  | promise p p' => exact .promise p' p
  | stream st st' => exact .stream st' st

/-- Stores that agree on a region agree both ways. -/
theorem Store.Keeps.symm {C : CellId → Prop} {s s' : Store} (K : s.Keeps C s') (R : s.Region C) :
    s'.Keeps C s := by
  intro c cell' hc hcell'
  obtain ⟨cell, hcell, -⟩ := R c hc
  obtain ⟨cell'', hcell'', halike⟩ := K c cell hc hcell
  obtain rfl := Option.some.inj (hcell'.symm.trans hcell'')
  exact ⟨cell, hcell, halike.symm⟩

section Lineage

variable {p : Script} {gift : Nat → Option Gift} {options : DecoderOptions} {base : Store}
  {O O' : CellId → Option Origin} {C C' : CellId → Prop}
  {D : Nat → CellId → Prop} {running rest : List (Nat × Watcher)} {x y : Decoding} {n t : Nat}

/-- Entries that are rejected stay rejected. -/
def StaysRejected (x y : Decoding) : Prop :=
  ∀ i r, (x.decoder.entry i).state = .rejected r → (y.decoder.entry i).state = .rejected r

/-- **A string that is to blame stays to blame.** -/
theorem Faulty.later (hcalm : ∀ n, p.calm n) (G : Ground p C x) (L : Later C x y)
    (hrejected : StaysRejected x y) {text : String} (h : Faulty x.decoder x.store text) :
    Faulty y.decoder y.store text := by
  rcases h with h | ⟨token, hparse, h⟩
  · exact .inl h
  refine .inr ⟨token, hparse, ?_⟩
  cases h with
  | temporary h => exact .temporary (L.options ▸ h)
  | rejected href hid hr => exact .rejected href (L.ids _ _ hid) (hrejected _ _ hr)
  | @unfit _ id i path shape w href hid hw h =>
    have hin := G.values id i w (hcalm id) hid hw
    have K := L.keeps.symm G.region
    have R := G.region.keeps L.keeps
    refine .unfit href (L.ids _ _ hid) (L.settled _ _ hw) fun u hu => ?_
    obtain ⟨hu', hin'⟩ := Store.walk_keeps R K hin hu
    obtain ⟨hshape, hnot⟩ := h u hu'
    exact ⟨hshape, fun c hc => hnot c (Store.shaped_keeps R K hin' hc).1⟩

/-- What is recorded of the row `n`, whose entry is `t`. -/
structure Recorded (p : Script) (gift : Nat → Option Gift) (O : CellId → Option Origin)
    (x : Decoding) (n t : Nat) : Prop where
  drawn : ∀ j v, p.model n = some j → ((x.decoder.entry t).state = .fulfilled v ∨
    (x.decoder.entry t).state = .blocked ∧ (x.decoder.entry t).draft.value = v) →
    Pictured (fun _ => Borrowed x) (fun h c => O c = some (.node t h)) x.store .root j v
  blamed : ∀ j r, p.model n = some j → (x.decoder.entry t).state = .rejected r →
    ∃ text ∈ j.texts, Faulty x.decoder x.store text
  came : ∀ g, gift n = some g → (x.decoder.entry t).state.isPending = false →
    g.Came O x t (x.decoder.entry t).state

/-- **What becomes of the rows**: the cells are filed, every watcher is there because some string
asks for it, and every row is as it says. -/
structure Lineage (p : Script) (gift : Nat → Option Gift) (options : DecoderOptions) (base : Store)
    (O : CellId → Option Origin) (running : List (Nat × Watcher)) (x : Decoding) : Prop where
  filed : Filed base O x
  options : x.decoder.options = options
  host : ∀ c < base.cells.size, p.host c
  asked : ∀ i w, x.decoder.Stands running i w → ∃ n t j, x.decoder.ids.lookup n = some t ∧
    p.model n = some j ∧ Asked (· ∈ j.texts) t i w x.decoder
  recorded : ∀ n t, x.decoder.ids.lookup n = some t → Recorded p gift O x n t

theorem Recorded.of_pending (h : (x.decoder.entry t).state.isPending) :
    Recorded p gift O x n t where
  drawn j v _ hv := by
    rcases hv with hv | ⟨hv, -⟩
    · rw [hv] at h
      cases h
    · rw [hv] at h
      cases h
  blamed j r _ hr := by
    rw [hr] at h
    cases h
  came g _ hp := by
    rw [h] at hp
    cases hp

/-- What can be reached from a cell of a region belongs to it. -/
theorem Gift.Stands.region {k r i : Nat} {cells : List Cell} (R : x.store.Region C)
    (hroot : C (k + r)) (h : Gift.Stands O x t k r cells) (hi : Gift.Reaches cells k r i) :
    C (k + i) := by
  induction hi with
  | root => exact hroot
  | @part i j c hi hc _ hu ih =>
    obtain ⟨-, c₁, c', hc₁, hcell, halike⟩ := h i hi
    obtain rfl := Option.some.inj (hc₁.symm.trans hc)
    obtain ⟨c'', hcell', hparts⟩ := R _ ih
    obtain rfl := Option.some.inj (hcell'.symm.trans hcell)
    exact hparts (.cell (k + j)) (halike.parts_eq ▸ hu)

/-- What a row has brought stays. -/
theorem Gift.Came.later (hcalm : ∀ n, p.calm n) (G : Ground p C x) (L : Later C x y)
    (hO : ∀ c o, O c = some o → O' c = some o) (hn : x.decoder.ids.lookup n = some t) {g : Gift}
    (hstate : (y.decoder.entry t).state = (x.decoder.entry t).state)
    (h : g.Came O x t (x.decoder.entry t).state) : g.Came O' y t (y.decoder.entry t).state := by
  rw [hstate]
  cases g with
  | refusal => exact h
  | graph cells v =>
    obtain ⟨k, hk, hstands⟩ := h
    refine ⟨k, hk, fun r hr i hi => ?_⟩
    obtain ⟨ho, c, c', hc, hcell, halike⟩ := hstands r hr i hi
    have hroot : C (k + r) := G.values n t _ (hcalm n) hn (hk.trans (congrArg _ hr))
    obtain ⟨c'', hcell', halike'⟩ := L.keeps _ c' ((hstands r hr).region G.region hroot hi) hcell
    exact ⟨hO _ _ ho, c, c'', hc, hcell', halike.trans halike'⟩

/-- What is recorded of a row stays true, if its picture stays. -/
theorem Recorded.later (hcalm : ∀ n, p.calm n) (G : Ground p C x) (L : Later C x y)
    (hrejected : StaysRejected x y) (hO : ∀ c o, O c = some o → O' c = some o)
    (hn : x.decoder.ids.lookup n = some t)
    (hstate : (y.decoder.entry t).state = (x.decoder.entry t).state)
    (hdrawn : ∀ j v, p.model n = some j → ((x.decoder.entry t).state =
      .fulfilled v ∨ (x.decoder.entry t).state = .blocked ∧ (y.decoder.entry t).draft.value = v) →
      Pictured (fun _ => Borrowed y) (fun h c => O' c = some (.node t h)) y.store .root j v)
    (h : Recorded p gift O x n t) : Recorded p gift O' y n t where
  drawn j v hj hv := by
    rw [hstate] at hv
    exact hdrawn j v hj hv
  blamed j r hj hr := by
    obtain ⟨text, htext, hfaulty⟩ := h.blamed j r hj (hstate ▸ hr)
    exact ⟨text, htext, hfaulty.later hcalm G L hrejected⟩
  came g hg hp := (h.came g hg (hstate ▸ hp)).later hcalm G L hO hn hstate

/-- A picture stays when no cell is written. -/
theorem Pictured.lined {j : Json} {t : Nat}
    (h : Pictured (fun _ => Borrowed x) (fun h c => O c = some (.node t h)) x.store .root j v)
    (hoptions : y.decoder.options = x.decoder.options)
    (htemporaries : ∀ set id v, x.store.temporary? set id = some v → y.store.temporary? set id =
      some v)
    (hkeeps : x.store.Keeps (fun _ => True) y.store) (hO : ∀ c o, O c = some o → O' c = some o) :
    Pictured (fun _ => Borrowed y) (fun h c => O' c = some (.node t h)) y.store .root j v :=
  h.mono (Q := fun _ => True) ⟨fun _ _ _ _ _ _ => trivial, fun _ _ _ _ hleaf =>
    hleaf.mono hoptions htemporaries,
    fun _ c _ hc => hO c _ hc, fun _ _ _ _ _ hcell => hkeeps.cell? trivial hcell⟩ trivial

/-- **Something is added** beside what was there. -/
theorem Lineage.grow {T : String → Prop} {s : Nat} (hcalm : ∀ n, p.calm n)
    (N : Lineage p gift options base O running x) (G : Ground p C x) (L : Later (fun _ => True) x y)
    (W : Grows T s O O' x y) (F : Filed base O' y)
    (hvalue : ∀ i, (y.decoder.entry i).draft.value = (x.decoder.entry i).draft.value)
    (hnames : ∀ n i, y.decoder.ids.lookup n = some i → x.decoder.ids.lookup n =
      some i ∨ x.decoder.entries.size ≤ i)
    (hasked : ∀ i w, Asked T s i w y.decoder → ∃ n t j, y.decoder.ids.lookup n =
      some t ∧ p.model n = some j ∧ Asked (· ∈ j.texts) t i w y.decoder) :
    Lineage p gift options base O' running y := by
  refine ⟨F, W.options.trans N.options, N.host, fun i w hs => ?_, fun n t hn => ?_⟩
  · have old : x.decoder.Stands running i w → ∃ n t j, y.decoder.ids.lookup n = some t ∧
        p.model n = some j ∧ Asked (· ∈ j.texts) t i w y.decoder := fun hs => by
      obtain ⟨n, t, j, hn, hj, h⟩ := N.asked i w hs
      exact ⟨n, t, j, W.ids n t hn, hj, h.mono (fun _ h => h) W.ids⟩
    rcases hs with hs | hs
    · exact (W.watchers i w hs).elim (fun hs => old (.inl hs)) (hasked i w)
    · exact old (.inr hs)
  · rcases hnames n t hn with hn | hle
    · refine (N.recorded n t hn).later hcalm G (L.mono fun _ _ => trivial)
        (fun i r hr => (W.state i).trans hr) W.kept hn (W.state t) fun j v hj hv => ?_
      rw [hvalue] at hv
      exact ((N.recorded n t hn).drawn j v hj hv).lined W.options W.temporaries L.keeps W.kept
    · refine .of_pending ?_
      rw [W.state, entry_of_size_le _ hle]
      rfl

/-- Nothing is filed anew, and the cells stay as they were but for promises and streams. -/
theorem Filed.quiet (F : Filed base O x) (Q : x.store.Quiet y.store)
    (hsize : y.decoder.entries.size = x.decoder.entries.size)
    (hoptions : y.decoder.options = x.decoder.options)
    (hderived : y.decoder.derived = x.decoder.derived)
    (hhandle : ∀ i, (y.decoder.entry i).handle = (x.decoder.entry i).handle) : Filed base O y := by
  have htemporary : ∀ set id, y.store.temporary? set id = x.store.temporary? set id :=
      fun set id => by
    rw [Store.temporary?, Store.temporary?, Store.temporarySet, Store.temporarySet, Q.temporaries]
  refine ⟨F.hosted.trans (Q.keeps.mono fun _ _ => trivial), Q.size ▸ F.cells, Q.size ▸ F.bound,
    fun i hi => ?_, fun i shape v hv => F.derived i shape v (hderived ▸ hv),
    fun set hset => ?_, fun set id v hv => (htemporary set id).trans (F.given set id v hv),
      fun set id v hv => ?_⟩
  · rw [hhandle]
    exact F.handles i (hsize ▸ hi)
  · rw [Q.temporaries]
    exact F.sets set (hoptions ▸ hset)
  · rw [htemporary] at hv
    refine (F.temporaries set id v hv).imp_right ?_
    rintro ⟨c, rfl, hc, hcell⟩
    exact ⟨c, rfl, hc, Q.keeps.cell? trivial hcell (fun _ h => by cases h) (fun _ h => by cases h)⟩

/-- An entry that is rejected is left as it is when it moves on. -/
theorem Moves.staysRejected (M : Moves t f x y)
    (h : ∀ r, (x.decoder.entry t).state = .rejected r → (f (x.decoder.entry t)).state =
      .rejected r) : StaysRejected x y := by
  intro i r hr
  by_cases hi : i = t
  · subst hi
    rw [M.changed.self]
    exact h r hr
  · rw [M.changed.other hi, hr]

theorem Moves.temporary? (M : Moves t f x y) {set : Nat} {id : String}
    (hv : x.store.temporary? set id = some v) : y.store.temporary? set id = some v := by
  rw [Store.temporary?, Store.temporarySet, M.quiet.temporaries]
  exact hv

/-- **An entry moves on.** What is recorded of its own row has to be shown. -/
theorem Lineage.move (hcalm : ∀ n, p.calm n) (N : Lineage p gift options base O running x)
    (G : Ground p C x) (M : Moves t f x y) (hrejected : StaysRejected x y)
    (hrecorded : ∀ n, x.decoder.ids.lookup n = some t → Recorded p gift O y n t) :
    Lineage p gift options base O running y := by
  have hids : ∀ n i, y.decoder.ids.lookup n = some i ↔ x.decoder.ids.lookup n = some i :=
    fun n i => by rw [M.changed.ids]
  refine ⟨N.filed.quiet M.quiet M.changed.size M.options M.derived
    (M.changed.field (·.handle) M.handle),
    M.options.trans N.options, N.host, fun i w hs => ?_, fun n i hn => ?_⟩
  · obtain ⟨n, t, j, hn, hj, h⟩ := N.asked i w (M.stands.mp hs)
    exact ⟨n, t, j, (hids n t).mpr hn, hj, h.mono (fun _ h => h) fun n i => (hids n i).mpr⟩
  · rw [hids] at hn
    by_cases hi : i = t
    · subst hi
      exact hrecorded n hn
    · have hentry := M.changed.other hi
      refine (N.recorded n i hn).later hcalm G (M.later C) hrejected (fun _ _ h => h) hn
        (by rw [hentry]) fun j v hj hv => ?_
      rw [hentry] at hv
      exact ((N.recorded n i hn).drawn j v hj hv).lined M.options (fun _ _ _ => M.temporary?)
        M.quiet.keeps fun _ _ h => h

/-- A draft changes, but not its value. -/
theorem Lineage.redraft (hcalm : ∀ n, p.calm n) (N : Lineage p gift options base O running x)
    (G : Ground p C x) (M : Moves t f x y)
    (hstate : (f (x.decoder.entry t)).state = (x.decoder.entry t).state)
    (hvalue : (f (x.decoder.entry t)).draft.value = (x.decoder.entry t).draft.value) :
    Lineage p gift options base O running y := by
  have hrejected : StaysRejected x y := M.staysRejected fun r hr => hstate.trans hr
  refine N.move hcalm G M hrejected fun n hn => ?_
  have hstate' := M.changed.field (·.state) hstate t
  have hvalue' := M.changed.field (·.draft.value) hvalue t
  refine (N.recorded n t hn).later hcalm G (M.later C) hrejected (fun _ _ h => h) hn hstate'
    fun j v hj hv => ?_
  rw [hvalue'] at hv
  exact ((N.recorded n t hn).drawn j v hj hv).lined M.options (fun _ _ _ => M.temporary?)
    M.quiet.keeps fun _ _ h => h

/-- The watchers that are about to run may be fewer. -/
theorem Lineage.consume {i : Nat} {w : Watcher}
    (N : Lineage p gift options base O ((i, w) :: rest) x) : Lineage p gift options base O rest x :=
  { N with asked := fun k w' hs => N.asked k w' (stands_of_cons hs) }

/-! ### Filling a hole -/

section Fill

variable {i : Nat} {h : Hole} {path : List String} {shape : Shape} {cyclic : Bool}

/-- What a token refers to is not a temporary reference. -/
theorem borrowed_of_reference? {text : String} {token : Token}
    (hparse : Token.parse text = .ok token) {id : Nat}
    (href : token.reference? = some (id, path, shape)) (v : Value) : Borrowed x (.str text) v := by
  refine borrowed_of_ne fun text' id' htext hparse' => ?_
  obtain rfl := Json.str.inj htext
  obtain rfl := Except.ok.inj (hparse.symm.trans hparse')
  cases href

/-- **A hole is filled, and its watcher is gone.** -/
theorem Lineage.fill (hcalm : ∀ n, p.calm n) (hdistinct : ∀ n j, p.model n = some j → j.Distinct)
    (N : Lineage p gift options base O ((i, .hole t h path shape cyclic) :: rest) x)
    (P : Portrait p C D ((i, .hole t h path shape cyclic) :: rest) x)
    (M : Puts t h v cyclic x y) : Lineage p gift options base O rest y := by
  have hstand : x.decoder.Stands ((i, .hole t h path shape cyclic) :: rest) i
      (.hole t h path shape cyclic) :=
    .inr List.mem_cons_self
  have hopen : x.decoder.Opened ((i, .hole t h path shape cyclic) :: rest) t h :=
    opened_iff.mpr ⟨i, path, shape, cyclic, hstand⟩
  have hcell := ((P.parts t).placed _ _ _ _ _ hstand).2.2
  have state := M.state
  have keeps : ∀ {K : CellId → Prop}, (∀ c, h.cell? = some c → ¬ K c) → x.store.Keeps K y.store :=
    fun hK => M.store ▸ Store.keeps_fill hK
  have LC : Later C x y := M.later fun c hc => (hcell c hc).2.1
  have hsize : y.store.cells.size = x.store.cells.size := M.store ▸ Store.size_fill
  have htemporary : ∀ set id, y.store.temporary? set id = x.store.temporary? set id :=
      fun set id => by
    rw [Store.temporary?, Store.temporary?, Store.temporarySet, Store.temporarySet, M.store,
      Store.temporaries_fill]
  have borrowed : ∀ {j u}, Borrowed x j u → Borrowed y j u :=
    fun h => h.mono M.options fun set id v hv => (htemporary set id).trans hv
  have F : Filed base O y := by
    refine ⟨N.filed.hosted.trans (LC.keeps.mono fun c hc => P.ground.host c (N.host c hc)),
      hsize ▸ N.filed.cells, hsize ▸ N.filed.bound, fun k hk => ?_, fun k shape v hv =>
        N.filed.derived k shape v (M.derived ▸ hv),
      fun set hset => ?_, fun set id v hv => (htemporary set id).trans (N.filed.given set id v hv),
        fun set id v hv => ?_⟩
    · rw [M.changed.field (·.handle) rfl]
      exact N.filed.handles k (M.changed.size ▸ hk)
    · rw [M.store, Store.temporaries_fill]
      exact N.filed.sets set (M.options ▸ hset)
    · rw [htemporary] at hv
      refine (N.filed.temporaries set id v hv).imp_right ?_
      rintro ⟨c, rfl, hc, hcell⟩
      exact ⟨c, rfl, hc, LC.keeps.cell? (P.ground.temporaries set id _ hv) hcell
        (fun _ h => by cases h) (fun _ h => by cases h)⟩
  refine ⟨F, M.options.trans N.options, N.host, fun k w hs => ?_, fun n t' hn => ?_⟩
  · obtain ⟨n, s, j, hn, hj, hasked⟩ := N.asked k w
      (stands_of_cons ((stands_congr M.watchers).mp hs))
    exact ⟨n, s, j, M.changed.ids ▸ hn, hj, hasked.mono (fun _ h => h) fun n i hn =>
      M.changed.ids ▸ hn⟩
  rw [M.changed.ids] at hn
  have K := (P.parts t').calm n (hcalm n) hn
  have elsewhere : ∀ {leaf : Hole → Json → Value → Prop} {node : Hole → CellId → Prop}
      {j : Json} {u : Value}, (∀ c, (∃ k, node k c) → h.cell? ≠ some c) →
      Pictured (fun k j v => Borrowed x j v ∧ leaf k j v) (fun k c => O c = some (.node t' k) ∧
        node k c) x.store .root j u →
      Pictured (fun _ => Borrowed y) (fun k c => O c = some (.node t' k)) y.store .root j u :=
        fun hnode hpic =>
    hpic.mono (Q := fun _ => True) ⟨fun _ _ _ _ _ _ => trivial, fun _ _ _ _ hleaf =>
      borrowed hleaf.1, fun _ _ _ hc => hc.1,
      fun k c _ hc _ hold => (keeps (K := (· = c)) fun c' hc' heq => hnode c ⟨k, hc.2⟩
        (heq ▸ hc')).cell? rfl hold⟩ trivial
  refine (N.recorded n t' hn).later hcalm P.ground LC (fun k r hr => (state k).trans hr)
    (fun _ _ h => h) hn (state t') fun j u hj hu => ?_
  rcases hu with hu | ⟨hb, rfl⟩
  · refine elsewhere (fun c hc heq => ?_) (((N.recorded n t' hn).drawn j u hj (.inl hu)).and
      (K.fulfilled u hu j hj))
    obtain ⟨_, hc⟩ := hc
    exact (hcell c heq).2.1 hc
  obtain ⟨j', hj', hpic⟩ := K.blocked hb
  obtain rfl := Option.some.inj (hj.symm.trans hj')
  have joined := ((N.recorded n t' hn).drawn j _ hj (.inr ⟨hb, rfl⟩)).and hpic
  by_cases ht : t' = t
  · subst ht
    rw [M.changed.self, M.store]
    refine Pictured.fill (⟨(K.sited hb h hopen).1, fun k j u _ hleaf => ?_, fun j u hleaf => ?_,
      fun k c hc => ⟨?_, hc.1⟩⟩ :
      Fills h v _ (fun _ => Borrowed y) _ (fun k c => O c = some (.node t' k)) _) (hdistinct
        n j hj) joined
    · exact borrowed hleaf.1
    · rcases hleaf.2 with ⟨text, token, id, path', shape', k, cyclic', rfl, hparse,
        href, -⟩ | ⟨ho, -⟩
      · exact borrowed_of_reference? hparse href v
      · exact absurd hopen ho
    · rintro rfl
      exact hc.2.2 hopen
  · rw [M.changed.other ht]
    refine elsewhere (fun c hc heq => ?_) joined
    obtain ⟨_, hc, -⟩ := hc
    exact ht ((hcell c heq).2.2 t' hc)

end Fill

/-- Some lineage of the rows. -/
def Descends (p : Script) (gift : Nat → Option Gift) (options : DecoderOptions) (base : Store)
    (running : List (Nat × Watcher)) (x : Decoding) : Prop :=
  ∃ O, Lineage p gift options base O running x

end Lineage

/-! ### Running watchers -/

namespace DecodeM

variable {p : Script} {gift : Nat → Option Gift} {options : DecoderOptions} {base : Store}
  {O : CellId → Option Origin} {C : CellId → Prop}
  {D : Nat → CellId → Prop} {rest : List (Nat × Watcher)} {x y : Decoding} {a : Affairs}
    {i t : Nat} {h : Hole}
  {path : List String} {shape : Shape} {cyclic : Bool}

/-- **An entry fails** because a hole of it cannot be filled. -/
theorem fail_lineage (hcalm : ∀ n, p.calm n) (hgift : ∀ n j, p.model n = some j → gift n = none)
    (ht : t < x.decoder.entries.size) (G : Ground p C x) (N : Lineage p gift options base O rest x)
    (hcause : ∀ n, x.decoder.ids.lookup n = some t → ∃ j, p.model n = some j ∧ ∃ text ∈ j.texts,
      Faulty x.decoder x.store text)
    (r : Rejection) :
    Descends p gift options base rest ((do
        modifyDecoder (·.modifyDraft t ({ · with failed := true }))
        settleEntry t (.error r) : DecodeM Unit) x).2 := by
  let y : Decoding := { x with decoder := x.decoder.modifyDraft t ({ · with failed := true }) }
  have M : Moves t (fun e => { e with draft := { e.draft with failed := true } }) x y :=
    moves_modifyEntry ht (fun _ => rfl) (fun _ => rfl) rfl
  have hstate : (y.decoder.entry t).state = (x.decoder.entry t).state :=
    M.changed.field (·.state) rfl t
  have N' := N.redraft hcalm G M rfl rfl
  have G' : Ground p C y := M.ground G (fun _ h => h) G.region fun n v hn hlookup hv =>
    G.values n t v hn hlookup hv
  change Descends p gift options base rest (settleEntry t (.error r) y).2
  cases hterminal : (x.decoder.entry t).state.isTerminal with
  | true =>
    rw [settleEntry_of_terminal (by rw [hstate, hterminal])]
    exact ⟨O, N'⟩
  | false =>
    have M' := settleEntry_moves (x := y) (M.changed.size ▸ ht)
      (by rw [hstate, hterminal]) (.error r)
    have hrejected : StaysRejected y (settleEntry t (.error r) y).2 :=
        M'.staysRejected fun r hr => by
      rw [← hstate, hr] at hterminal
      cases hterminal
    have hself : ((settleEntry t (.error r) y).2.decoder.entry t).state = .rejected r :=
      congrArg (·.state) M'.changed.self
    refine ⟨O, N'.move hcalm G' M' hrejected fun n hn => ?_⟩
    obtain ⟨j, hj, text, htext, hfaulty⟩ := hcause n (M.changed.ids ▸ hn)
    refine ⟨fun j v _ hv => ?_, fun j' _ hj' _ => ?_, fun g hg => ?_⟩
    · rw [hself] at hv
      rcases hv with hv | ⟨hv, -⟩ <;> cases hv
    · obtain rfl := Option.some.inj (hj.symm.trans hj')
      exact ⟨text, htext, (hfaulty.later hcalm G (M.later C) (M.staysRejected fun _ h => h)).later
        hcalm G' (M'.later C) hrejected⟩
    · rw [hgift n j hj] at hg
      cases hg

/-- **The last hole is filled**, and the entry is fulfilled with its draft. -/
theorem finish_lineage (hcalm : ∀ n, p.calm n) (hgift : ∀ n j, p.model n = some j → gift n = none)
    (G : Ground p C x) (N : Lineage p gift options base O rest x)
    (hmodel : ∀ n, x.decoder.ids.lookup n = some t → ∃ j, p.model n = some j)
    (hstate : (x.decoder.entry t).state = .blocked) :
    Descends p gift options base rest
      (settleEntry t (.ok (x.decoder.entry t).draft.value) x).2 := by
  have ht : t < x.decoder.entries.size := lt_size_of_not_isPending _ (by rw [hstate]; rfl)
  have M := settleEntry_moves ht (by rw [hstate]; rfl) (.ok (x.decoder.entry t).draft.value)
  have hself : ((settleEntry t (.ok (x.decoder.entry t).draft.value) x).2.decoder.entry t).state =
      .fulfilled (x.decoder.entry t).draft.value := congrArg (·.state) M.changed.self
  refine ⟨O, N.move hcalm G M (M.staysRejected fun r hr => absurd (hstate.symm.trans hr)
    (by rintro ⟨⟩)) fun n hn => ?_⟩
  obtain ⟨j, hj⟩ := hmodel n hn
  refine ⟨fun j v hj hv => ?_, fun j r _ hr => absurd (hself.symm.trans hr) (by rintro ⟨⟩),
    fun g hg => ?_⟩
  · obtain rfl : (x.decoder.entry t).draft.value = v := by
      rw [hself] at hv
      rcases hv with hv | ⟨hv, -⟩
      · exact EntryState.fulfilled.inj hv
      · cases hv
    exact ((N.recorded n t hn).drawn j _ hj (.inr ⟨hstate, rfl⟩)).lined M.options
      (fun _ _ _ => M.temporary?) M.quiet.keeps fun _ _ h => h
  · rw [hgift n j hj] at hg
    cases hg

/-- **A hole is filled, or its entry fails with it.** -/
theorem fillHole_lineage (ha : a.running = (i, .hole t h path shape cyclic) :: rest)
    (F : p.Fits a.refers) (hcalm : ∀ n, p.calm n)
    (hgift : ∀ n j, p.model n = some j → gift n = none) :
    Ensures (fun x => (Tidy a x.decoder ∧ Painted p ((i, .hole t h path shape cyclic) :: rest) x) ∧
        Descends p gift options base ((i, .hole t h path shape cyclic) :: rest) x)
      (fillHole i t h path shape cyclic) fun _ => Descends p gift options base rest := by
  -- the string that left the hole is in the payload of its row, whatever the row is called
  have asks : ∀ {O x}, Tidy a x.decoder →
      Lineage p gift options base O ((i, .hole t h path shape cyclic) :: rest) x →
      ∀ n, x.decoder.ids.lookup n = some t → ∃ j, p.model n = some j ∧ ∃ text ∈ j.texts, ∃ token id,
        Token.parse text = .ok token ∧
        token.reference? = some (id, path, shape) ∧ x.decoder.ids.lookup id = some i := by
    intro O x T N n hn
    obtain ⟨n', t', j, hn', hj, h', path', shape', cyclic', text, token, id, hw, htext,
        hparse, href, hid⟩ :=
      N.asked i (.hole t h path shape cyclic) (.inr List.mem_cons_self)
    cases hw
    obtain rfl := T.orderly.distinct n n' t hn hn'
    exact ⟨j, hj, text, htext, token, id, hparse, href, hid⟩
  unfold fillHole
  refine .bind .decoder fun d => .bind .decoder fun d' => ?_
  dsimp only
  split
  · rename_i r hready hr
    rintro x ⟨⟨⟨⟨T, C, D, P⟩, O, N⟩, rfl⟩, rfl⟩
    have ht : t < x.decoder.entries.size := T.waits.taken_lt (ha ▸ List.mem_cons_self) rfl
    refine fail_lineage hcalm hgift ht P.ground N.consume (fun n hn => ?_) r
    obtain ⟨j, hj, text, htext, token, id, hparse, href, hid⟩ := asks T N n hn
    exact ⟨j, hj, text, htext, .inr ⟨token, hparse, .rejected href hid hr⟩⟩
  · rename_i w hready hw
    rintro x ⟨⟨⟨⟨T, C, D, P⟩, O, N⟩, rfl⟩, rfl⟩
    have hopen : cyclic = false → (x.decoder.entry t).state.isTerminal = false := fun h => by
      simpa [h] using (Bool.and_eq_true_iff.mp hready).2
    refine (Ensures.bind (R := fun _ => Descends p gift options base rest)
      ((resolve_painted T P hw hopen).and (resolve_files N.filed (fun _ => False) t i w path shape))
      fun r => ?_) x ⟨rfl, rfl⟩
    rintro y ⟨⟨C', T', A, P', hlead⟩, O', F', W, hfail⟩
    have N' : Lineage p gift options base O' ((i, .hole t h path shape cyclic) :: rest) y :=
      N.grow hcalm P.ground A.later W F' (fun k => by rw [A.draft]) A.names (by
        rintro k w ⟨_, _, _, _, _, _, _, _, hfalse, _⟩
        exact hfalse.elim)
    have ht : t < y.decoder.entries.size := T'.waits.taken_lt (ha ▸ List.mem_cons_self) rfl
    cases r with
    | error r =>
      refine fail_lineage hcalm hgift ht P'.ground N'.consume (fun n hn => ?_) r
      obtain ⟨j, hj, text, htext, token, id, hparse, href, hid⟩ := asks T' N' n hn
      exact ⟨j, hj, text, htext, .inr ⟨token, hparse, .unfit href hid ((A.state i).trans hw)
        (hfail r rfl)⟩⟩
    | ok v =>
      refine put_elim ht fun z M => ?_
      have L := N'.fill hcalm F.distinct P' M
      refine ⟨⟨O', L⟩, fun _ hstate _ => finish_lineage hcalm hgift
        (P'.fill F.distinct M (hlead v rfl)).ground L (fun n hn => ?_) hstate⟩
      obtain ⟨j, hj, -⟩ := asks T' N' n (M.changed.ids ▸ hn)
      exact ⟨j, hj⟩
  · refine .pure ?_
    rintro x ⟨⟨⟨-, O, N⟩, rfl⟩, rfl⟩
    exact ⟨O, N.consume⟩

/-- One watcher runs. -/
theorem runWatcher_lineage {w : Watcher} (ha : a.running = (i, w) :: rest) (F : p.Fits a.refers)
    (hcalm : ∀ n, p.calm n) (hgift : ∀ n j, p.model n = some j → gift n = none) :
    Ensures (fun x => (Tidy a x.decoder ∧ Painted p ((i, w) :: rest) x) ∧
      Descends p gift options base ((i, w) :: rest) x)
      (runWatcher i w) fun _ => Descends p gift options base rest := by
  cases w with
  | hole target place path shape cyclic => exact fillHole_lineage ha F hcalm hgift
  | stream id =>
    -- nobody waits for a stream
    rintro x ⟨-, O, N⟩
    obtain ⟨_, _, _, _, _, _, _, _, _, _, _, _, hw, _⟩ := N.asked i (.stream id)
      (.inr List.mem_cons_self)
    cases hw

/-- The watchers of an entry are taken off, and are about to run. -/
theorem takeOff_lineage {k : Nat} {left : List Nat} (hk : k < x.decoder.entries.size)
    (hcalm : ∀ n, p.calm n) (G : Ground p C x) (N : Lineage p gift options base O [] x) :
    Lineage p gift options base O ((x.decoder.entry k).watchers.map (k, ·))
      ⟨takeOff x.decoder k left, x.store⟩ := by
  have hchanged := changed_takeOff hk left
  have hstate := hchanged.field (·.state) rfl
  have L : ∀ K, Later K x ⟨takeOff x.decoder k left, x.store⟩ := fun K =>
    ⟨rfl, fun _ _ h => h, fun j v hv => (hstate j).trans hv, fun j _ => hchanged.field (·.handle)
      rfl j, fun _ _ h => h, .refl K _⟩
  refine ⟨N.filed.quiet (.refl _) hchanged.size rfl rfl (hchanged.field (·.handle) rfl), N.options,
    N.host, fun j w hs => ?_, fun n t hn => ?_⟩
  · refine N.asked j w (.inl ?_)
    rcases hs with hs | hs
    · rw [hchanged.entry] at hs
      split at hs
      · cases hs
      · exact hs
    · obtain ⟨w', hw', heq⟩ := List.mem_map.mp hs
      cases heq
      exact hw'
  · refine (N.recorded n t hn).later hcalm G (L C) (fun j r hr => (hstate j).trans hr)
      (fun _ _ h => h) hn (hstate t) fun j v hj hv => ?_
    have hvalue : ((takeOff x.decoder k left).entry t).draft.value =
        (x.decoder.entry t).draft.value :=
      hchanged.field (·.draft.value) rfl t
    rw [hvalue] at hv
    exact (N.recorded n t hn).drawn j v hj hv

/-- **One turn.** -/
theorem turn_lineage (hloose : a.loose = none) (hrunning : a.running = []) (F : p.Fits a.refers)
    (hcalm : ∀ n, p.calm n) (hgift : ∀ n j, p.model n = some j → gift n = none) {k : Nat}
    {left : List Nat} (T : Tidy a x.decoder) (hwake : x.decoder.wake = k :: left)
    (hpainted : Painted p [] x) (hx : Descends p gift options base [] x) :
    Descends p gift options base [] (turn k left x).2 := by
  have hk := lt_size_of_isTerminal _ (T.waits.wake k (hwake ▸ List.mem_cons_self))
  let I : List Watcher → Decoding → Prop := fun ws y =>
    (Tidy { a with running := ws.map (k, ·) } y.decoder ∧ Painted p (ws.map (k, ·)) y) ∧
      Descends p gift options base (ws.map (k, ·)) y
  have loop : Ensures (I (x.decoder.entry k).watchers)
      ((x.decoder.entry k).watchers.forM (runWatcher k)) fun _ => I [] := by
    refine Ensures.forM (I := I) (fun w rest' y hy => ?_) _
    exact ⟨⟨runWatcher_ensures (a := { a with running := (k, w) :: rest'.map (k, ·) })
      hloose rfl y hy.1.1, runWatcher_painted
        (a := { a with running := (k, w) :: rest'.map (k, ·) }) rfl F y hy.1⟩,
      runWatcher_lineage (a := { a with running := (k, w) :: rest'.map (k, ·) }) rfl F
        hcalm hgift y hy⟩
  obtain ⟨O, N⟩ := hx
  obtain ⟨C, D, P⟩ := hpainted
  exact (loop ⟨takeOff x.decoder k left, x.store⟩
    ⟨⟨takeOff_tidy hrunning T hwake, takeOff_painted hk ⟨C, D, P⟩⟩, O, takeOff_lineage hk hcalm
      P.ground N⟩).2

/-- **Every watcher runs.** -/
theorem runWatchersWith_lineage (hloose : a.loose = none) (hrunning : a.running = [])
    (F : p.Fits a.refers) (hcalm : ∀ n, p.calm n)
    (hgift : ∀ n j, p.model n = some j → gift n = none) (fuel : Nat) :
    Ensures (fun x => (Tidy a x.decoder ∧ Painted p [] x) ∧ Descends p gift options base [] x)
      (runWatchersWith fuel) fun _ => Descends p gift options base [] := by
  induction fuel with
  | zero => exact .pure fun x hx => hx.2
  | succ fuel ih =>
    rintro x ⟨⟨T, hpainted⟩, hx⟩
    cases hwake : x.decoder.wake with
    | nil =>
      rw [runWatchersWith_nil hwake]
      exact hx
    | cons k left =>
      rw [runWatchersWith_cons hwake]
      exact ih _ ⟨⟨(turn_ensures hloose hrunning T hwake).1, turn_painted hloose hrunning F T
        hwake hpainted⟩, turn_lineage hloose hrunning F hcalm hgift T hwake hpainted hx⟩

theorem runWatchers_lineage (hloose : a.loose = none) (hrunning : a.running = [])
    (F : p.Fits a.refers) (hcalm : ∀ n, p.calm n)
    (hgift : ∀ n j, p.model n = some j → gift n = none) :
    Ensures (fun x => (Tidy a x.decoder ∧ Painted p [] x) ∧ Descends p gift options base [] x)
      runWatchers fun _ => Descends p gift options base [] :=
  .bind .decoder fun _ => (runWatchersWith_lineage hloose hrunning F hcalm hgift _).pre
    fun _ hx => hx.1

end DecodeM

end GraphRows
