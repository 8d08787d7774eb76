import Mathlib
import GraphRows.Decoder.Revive

/-!
# Regions of a store

A region is a set of cells that nothing leads out of: whatever a reader finds in a cell of the
region is a scalar or names another cell of it. So walking along a path, and making a map or a set
of what is found there, only ever looks at the region the walk began in, and comes to the same end
in every store that agrees on the region.

Promises and streams are the exception that keeps this simple. They change while everything else is
settled, but nobody reads through them; they have no parts, and two of them count as alike.

## Main results

* `Store.walk_keeps`, `Store.shaped_keeps`: what is read in a region is there to stay
* `Store.quiet_settle`, `Store.quiet_push`: settling and pushing change promises and streams only
-/

namespace GraphRows

variable {cell : Cell} {c id : CellId} {shape : Shape} {α : Type}

namespace Cell

/-- What a reader finds in the cell. -/
def parts : Cell → List Value
  | .array items | .set items => items
  | .object fields | .form fields => fields.map (·.2)
  | .map entries => entries.flatMap fun e => [e.1, e.2]
  | .server _ bound => bound.toList
  | _ => []

/-- What may become of a cell that is not written to. -/
inductive Alike : Cell → Cell → Prop
  | same (c : Cell) : Alike c c
  | promise (p p' : Promise) : Alike (.promise p) (.promise p')
  | stream (st st' : Stream) : Alike (.stream st) (.stream st')

namespace Alike

variable {c c' c'' : Cell}

theorem trans (h : Alike c c') (h' : Alike c' c'') : Alike c c'' := by
  cases h with
  | same => exact h'
  | promise p p' =>
    cases h' with
    | same => exact .promise p p'
    | promise _ p'' => exact .promise p p''
  | stream st st' =>
    cases h' with
    | same => exact .stream st st'
    | stream _ st'' => exact .stream st st''

theorem parts_eq (h : Alike c c') : c'.parts = c.parts := by
  cases h <;> rfl

/-- Only promises and streams change. -/
theorem eq (h : Alike c c') (hp : ∀ p, c ≠ .promise p) (hs : ∀ st, c ≠ .stream st) : c' = c := by
  cases h with
  | same => rfl
  | promise p => exact absurd rfl (hp p)
  | stream st => exact absurd rfl (hs st)

end Alike

end Cell

/-- The value names no cell outside `C`. -/
def Value.Inside (C : CellId → Prop) : Value → Prop
  | .cell c => C c
  | _ => True

theorem Value.Inside.mono {C C' : CellId → Prop} {v : Value} (h : v.Inside C)
    (hC : ∀ c, C c → C' c) : v.Inside C' := by
  cases v with
  | cell c => exact hC c h
  | _ => trivial

namespace Store

variable {C C' : CellId → Prop} {s s' s'' : Store} {v u : Value}

theorem cell?_lt_size (h : s.cell? c = some cell) : c < s.cells.size :=
  (Array.getElem?_eq_some_iff.mp h).1

theorem cell?_isSome (h : c < s.cells.size) : ∃ cell, s.cell? c = some cell := by
  simp [cell?, h]

/-- The cells with `C` are as they were, but for promises and streams. -/
def Keeps (C : CellId → Prop) (s s' : Store) : Prop :=
  ∀ c cell, C c → s.cell? c = some cell → ∃ cell', s'.cell? c = some cell' ∧ cell.Alike cell'

namespace Keeps

theorem refl (C : CellId → Prop) (s : Store) : Keeps C s s :=
  fun _ cell _ h => ⟨cell, h, .same cell⟩

theorem trans (h : Keeps C s s') (h' : Keeps C s' s'') : Keeps C s s'' := by
  intro c cell hc hcell
  obtain ⟨cell', hcell', halike⟩ := h c cell hc hcell
  obtain ⟨cell'', hcell'', halike'⟩ := h' c cell' hc hcell'
  exact ⟨cell'', hcell'', halike.trans halike'⟩

theorem mono (h : Keeps C s s') (hC : ∀ c, C' c → C c) : Keeps C' s s' :=
  fun c cell hc => h c cell (hC c hc)

/-- A cell that is no promise and no stream stays as it is. -/
theorem cell? (h : Keeps C s s') (hc : C c) (hcell : s.cell? c = some cell)
    (hp : ∀ p, cell ≠ .promise p) (hs : ∀ st, cell ≠ .stream st) : s'.cell? c = some cell := by
  obtain ⟨cell', hcell', halike⟩ := h c cell hc hcell
  rw [hcell', halike.eq hp hs]

theorem cellOf? (h : Keeps C s s') (hv : v.Inside C) (hcell : s.cellOf? v = some cell)
    (hp : ∀ p, cell ≠ .promise p) (hs : ∀ st, cell ≠ .stream st) : s'.cellOf? v = some cell := by
  cases v with
  | cell c => exact h.cell? hv hcell hp hs
  | _ => cases hcell

end Keeps

/-- Nothing leads out of `C`. -/
def Region (C : CellId → Prop) (s : Store) : Prop :=
  ∀ c, C c → ∃ cell, s.cell? c = some cell ∧ ∀ v ∈ cell.parts, v.Inside C

namespace Region

theorem lt_size (R : Region C s) (hc : C c) : c < s.cells.size := by
  obtain ⟨cell, hcell, -⟩ := R c hc
  exact cell?_lt_size hcell

theorem keeps (R : Region C s) (K : Keeps C s s') : Region C s' := by
  intro c hc
  obtain ⟨cell, hcell, hparts⟩ := R c hc
  obtain ⟨cell', hcell', halike⟩ := K c cell hc hcell
  exact ⟨cell', hcell', halike.parts_eq ▸ hparts⟩

theorem parts (R : Region C s) (hv : v.Inside C) (hcell : s.cellOf? v = some cell) :
    ∀ u ∈ cell.parts, u.Inside C := by
  cases v with
  | cell c =>
    obtain ⟨cell', hcell', hparts⟩ := R c hv
    obtain rfl := Option.some.inj (hcell.symm.trans hcell')
    exact hparts
  | _ => cases hcell

/-- Cells whose parts are in the region or among themselves join it. -/
theorem union {D : CellId → Prop} (R : Region C s)
    (hD : ∀ c, D c → ∃ cell, s.cell? c = some cell ∧ ∀ v ∈ cell.parts, v.Inside
      fun c => C c ∨ D c) : Region (fun c => C c ∨ D c) s := by
  rintro c (hc | hc)
  · obtain ⟨cell, hcell, hparts⟩ := R c hc
    exact ⟨cell, hcell, fun v hv => (hparts v hv).mono fun _ => .inl⟩
  · exact hD c hc

/-- A new cell whose parts are in the region joins it. -/
theorem insert (R : Region C s) (hcell : s.cell? c = some cell)
    (hparts : ∀ v ∈ cell.parts, v.Inside C) : Region (fun k => C k ∨ k = c) s := by
  refine R.union ?_
  rintro _ rfl
  exact ⟨cell, hcell, fun v hv => (hparts v hv).mono fun _ => .inl⟩

end Region

/-! ### Reading -/

/-- One step of a walk. -/
def step? (s : Store) (v : Value) (key : String) : Option Value :=
  match s.cellOf? v with
  | some (.object fields) => fields.lookup key
  | some (.array items) => (Integer.index? key).bind (items[·]?)
  | _ => none

theorem walk_cons (s : Store) (v : Value) (key : String) (rest : List String) :
    s.walk v (key :: rest) =
      match s.step? v key with
      | some u => s.walk u rest
      | none => .error (.badPath key (s.typeName v)) := rfl

theorem mem_map_snd_of_lookup {β : Type} [BEq α] [LawfulBEq α] {fields : List (α × β)} {k : α}
    {b : β} (h : fields.lookup k = some b) : b ∈ fields.map (·.2) := by
  obtain ⟨l₁, l₂, rfl, -⟩ := List.lookup_eq_some_iff.mp h
  simp

theorem step?_keeps (R : Region C s) (K : Keeps C s s') (hv : v.Inside C) {key : String}
    (h : s.step? v key = some u) : s'.step? v key = some u ∧ u.Inside C := by
  unfold step? at h ⊢
  split at h
  · rename_i fields hcell
    rw [K.cellOf? hv hcell (fun _ => nofun) (fun _ => nofun)]
    exact ⟨h, R.parts hv hcell u (mem_map_snd_of_lookup h)⟩
  · rename_i items hcell
    rw [K.cellOf? hv hcell (fun _ => nofun) (fun _ => nofun)]
    obtain ⟨i, -, hi⟩ := Option.bind_eq_some_iff.mp h
    exact ⟨h, R.parts hv hcell u (List.mem_of_getElem? hi)⟩
  · cases h

/-- **A walk stays in its region** and comes to the same end later. -/
theorem walk_keeps (R : Region C s) (K : Keeps C s s') {path : List String} :
    ∀ {v : Value}, v.Inside C →
    s.walk v path = .ok u → s'.walk v path = .ok u ∧ u.Inside C := by
  induction path with
  | nil =>
    intro v hv h
    obtain rfl := Except.ok.inj h
    exact ⟨rfl, hv⟩
  | cons key rest ih =>
    intro v hv h
    rw [walk_cons] at h ⊢
    cases hstep : s.step? v key with
    | none => simp [hstep] at h
    | some w =>
      obtain ⟨hstep', hw⟩ := step?_keeps R K hv hstep
      rw [hstep] at h
      rw [hstep']
      exact ih hw h

theorem itemsBehind_keeps (R : Region C s) (K : Keeps C s s') (hv : v.Inside C) {items : List Value}
    (h : s.itemsBehind shape v = .ok items) :
    s'.itemsBehind shape v = .ok items ∧ ∀ u ∈ items, u.Inside C := by
  unfold itemsBehind at h ⊢
  split at h
  · rename_i hcell
    obtain rfl := Except.ok.inj h
    rw [K.cellOf? hv hcell (fun _ => nofun) (fun _ => nofun)]
    exact ⟨rfl, R.parts hv hcell⟩
  · cases h

theorem item?_keeps (R : Region C s) (K : Keeps C s s') (hv : v.Inside C) {i : Nat}
    (h : s.item? v i = some u) : s'.item? v i = some u ∧ u.Inside C := by
  unfold item? at h ⊢
  split at h
  · rename_i hcell
    rw [K.cellOf? hv hcell (fun _ => nofun) (fun _ => nofun)]
    exact ⟨h, R.parts hv hcell u (List.mem_of_getElem? h)⟩
  · rename_i hcell
    rw [K.cellOf? hv hcell (fun _ => nofun) (fun _ => nofun)]
    exact ⟨h, R.parts hv hcell u (List.mem_of_getElem? h)⟩
  · cases h

theorem pairBehind_keeps (R : Region C s) (K : Keeps C s s') (hv : v.Inside C) {p : Value × Value}
    (h : s.pairBehind shape v = .ok p) :
    s'.pairBehind shape v = .ok p ∧ p.1.Inside C ∧ p.2.Inside C := by
  unfold pairBehind at h ⊢
  cases h₀ : s.item? v 0 with
  | none => simp [h₀] at h
  | some k =>
    cases h₁ : s.item? v 1 with
    | none => simp [h₀, h₁] at h
    | some w =>
      obtain ⟨h₀', hk⟩ := item?_keeps R K hv h₀
      obtain ⟨h₁', hw⟩ := item?_keeps R K hv h₁
      rw [h₀, h₁] at h
      obtain rfl := Except.ok.inj h
      rw [h₀', h₁']
      exact ⟨rfl, hk, hw⟩

theorem formEntryBehind_keeps (R : Region C s) (K : Keeps C s s') (hv : v.Inside C)
    {p : String × Value} (h : s.formEntryBehind shape v = .ok p) :
    s'.formEntryBehind shape v = .ok p ∧ p.2.Inside C := by
  unfold formEntryBehind at h ⊢
  cases hpair : s.pairBehind shape v with
  | error f =>
    rw [hpair] at h
    cases h
  | ok q =>
    obtain ⟨hpair', -, hq⟩ := pairBehind_keeps R K hv hpair
    rw [hpair] at h
    rw [hpair']
    obtain ⟨k, w⟩ := q
    cases k with
    | string k =>
      obtain rfl := Except.ok.inj h
      exact ⟨rfl, hq⟩
    | _ => cases h

/-- What is made of each item of a list. -/
theorem mapM_keeps {f g : Value → Except Fault α} {Q : α → Prop} :
    ∀ {items : List Value} {as : List α}, (∀ v ∈ items, ∀ a, f v = .ok a → g v = .ok a ∧ Q a) →
      items.mapM f = .ok as → items.mapM g = .ok as ∧ ∀ a ∈ as, Q a
  | [], as, _, h => by
    obtain rfl := Except.ok.inj h
    exact ⟨rfl, by simp⟩
  | v :: items, as, hf, h => by
    rw [List.mapM_cons] at h ⊢
    cases hv : f v with
    | error e =>
      rw [hv] at h
      cases h
    | ok a =>
      cases hrest : items.mapM f with
      | error e =>
        rw [hv, hrest] at h
        cases h
      | ok rest =>
        obtain ⟨hv', ha⟩ := hf v List.mem_cons_self a hv
        obtain ⟨hrest', hQ⟩ := mapM_keeps (fun w hw => hf w (List.mem_cons_of_mem _ hw)) hrest
        rw [hv, hrest] at h
        rw [hv', hrest']
        obtain rfl := Except.ok.inj h
        refine ⟨rfl, fun b hb => ?_⟩
        rcases List.mem_cons.mp hb with rfl | hb
        · exact ha
        · exact hQ b hb

theorem blobParts?_keeps (K : Keeps C s s') {items : List Value} (hitems : ∀ u ∈ items, u.Inside C)
    {p : String × Bytes} (h : blobParts? s items = some p) : blobParts? s' items = some p := by
  unfold blobParts? at h ⊢
  split at h
  · rename_i mime data rest
    split at h
    · rename_i hcell
      rw [K.cellOf? (hitems data (by simp)) hcell (fun _ => nofun) (fun _ => nofun)]
      exact h
    · cases h
  · cases h

theorem field?_keeps (R : Region C s) (K : Keeps C s s') (hv : v.Inside C) {key : String}
    (h : s.field? v key = some u) :
    (∀ other, s'.field? v other = s.field? v other) ∧ ∀ other w, s.field? v other = some w →
      w.Inside C := by
  unfold field? at h
  split at h
  · rename_i fields hcell
    have hcell' := K.cellOf? hv hcell (fun _ => nofun) (fun _ => nofun)
    refine ⟨fun other => by rw [field?, field?, hcell, hcell'], fun other w hw => ?_⟩
    rw [field?, hcell] at hw
    exact R.parts hv hcell w (mem_map_snd_of_lookup hw)
  · cases h

theorem inside_of_boundArguments {o : Option Value} (ho : ∀ w, o = some w → w.Inside C) :
    ∀ w ∈ (boundArguments o).toList, w.Inside C := by
  intro w hw
  refine ho w ?_
  unfold boundArguments at hw
  split at hw
  · cases hw
  · cases hw
  · simpa using hw

theorem bind_eq_ok {ε β : Type} {x : Except ε α} {f : α → Except ε β} {b : β} :
    x >>= f = .ok b ↔ ∃ a, x = .ok a ∧ f a = .ok b := by
  cases x with
  | error e => exact ⟨nofun, fun ⟨_, h, _⟩ => nomatch h⟩
  | ok a => exact ⟨fun h => ⟨a, rfl, h⟩, fun ⟨_, h, hf⟩ => Except.ok.inj h ▸ hf⟩

theorem shaped_map {c : Cell} :
    s.shaped (.derived .map) v = .ok c ↔ ∃ items, s.itemsBehind (.derived .map) v = .ok items ∧
    ∃ pairs, items.mapM (s.pairBehind (.derived .map)) = .ok pairs ∧ Cell.map pairs = c := by
  simp only [shaped, bind_eq_ok, pure, Except.pure, Except.ok.injEq]

theorem shaped_form {c : Cell} :
    s.shaped (.derived .form) v = .ok c ↔ ∃ items, s.itemsBehind (.derived .form) v = .ok items ∧
    ∃ entries, items.mapM (s.formEntryBehind (.derived .form)) = .ok entries ∧
      Cell.form entries = c := by
  simp only [shaped, bind_eq_ok, pure, Except.pure, Except.ok.injEq]

theorem shaped_set {c : Cell} :
    s.shaped (.derived .set) v = .ok c ↔ ∃ items, s.itemsBehind (.derived .set) v = .ok items ∧
    Cell.set items = c := by
  simp only [shaped, bind_eq_ok, pure, Except.pure, Except.ok.injEq]

theorem shaped_blob {c : Cell} :
    s.shaped (.derived .blob) v = .ok c ↔ ∃ items, s.itemsBehind (.derived .blob) v = .ok items ∧
    ∃ p, blobParts? s items = some p ∧ Cell.blob p.1 p.2 = c := by
  simp only [shaped, bind_eq_ok]
  refine exists_congr fun items => and_congr_right fun _ => ?_
  cases blobParts? s items with
  | none => simp
  | some p => simp [pure, Except.pure]

theorem shaped_server {c : Cell} :
    s.shaped (.derived .server) v = .ok c ↔ ∃ id, s.field? v "id" = some (.string id) ∧
    Cell.server id (boundArguments (s.field? v "bound")) = c := by
  unfold shaped
  dsimp only
  split
  · rename_i id hid
    simp [hid]
  · rename_i hid
    exact ⟨nofun, fun ⟨id, h, _⟩ => (hid id h).elim⟩

theorem shaped_binary {kind : BinaryKind} {c : Cell} :
    s.shaped (.binary kind) v = .ok c ↔
    ∃ data, s.cellOf? v = some (.binary data) ∧ ∃ view, data.view kind = .ok view ∧
      Cell.binary view = c := by
  unfold shaped
  dsimp only
  split
  · rename_i data hdata
    cases hview : data.view kind <;> simp [hdata, hview, Except.map]
  · rename_i hdata
    exact ⟨nofun, fun ⟨data, h, _⟩ => (hdata data h).elim⟩

/-- **What a reference makes of a value** it makes of it later too, and its parts are in the
region. -/
theorem shaped_keeps (R : Region C s) (K : Keeps C s s') (hv : v.Inside C) {c : Cell}
    (h : s.shaped shape v = .ok c) : s'.shaped shape v = .ok c ∧ ∀ u ∈ c.parts, u.Inside C := by
  cases shape with
  | plain => cases h
  | binary kind =>
    obtain ⟨data, hcell, view, hview, rfl⟩ := shaped_binary.mp h
    have hcell' := K.cellOf? hv hcell (fun _ => nofun) (fun _ => nofun)
    exact ⟨shaped_binary.mpr ⟨data, hcell', view, hview, rfl⟩, nofun⟩
  | derived kind =>
    cases kind with
    | server =>
      obtain ⟨id, hid, rfl⟩ := shaped_server.mp h
      obtain ⟨hfields, hinside⟩ := field?_keeps R K hv hid
      refine ⟨shaped_server.mpr ⟨id, (hfields _).trans hid, by rw [hfields]⟩, ?_⟩
      exact inside_of_boundArguments fun w hw => hinside _ w hw
    | set =>
      obtain ⟨items, hitems, rfl⟩ := shaped_set.mp h
      obtain ⟨hitems', hinside⟩ := itemsBehind_keeps R K hv hitems
      exact ⟨shaped_set.mpr ⟨items, hitems', rfl⟩, hinside⟩
    | blob =>
      obtain ⟨items, hitems, p, hp, rfl⟩ := shaped_blob.mp h
      obtain ⟨hitems', hinside⟩ := itemsBehind_keeps R K hv hitems
      exact ⟨shaped_blob.mpr ⟨items, hitems', p, blobParts?_keeps K hinside hp, rfl⟩, nofun⟩
    | map =>
      obtain ⟨items, hitems, pairs, hpairs, rfl⟩ := shaped_map.mp h
      obtain ⟨hitems', hinside⟩ := itemsBehind_keeps R K hv hitems
      obtain ⟨hpairs', hQ⟩ := mapM_keeps (g := s'.pairBehind (.derived .map))
        (fun w hw p hp => pairBehind_keeps R K (hinside w hw) hp) hpairs
      refine ⟨shaped_map.mpr ⟨items, hitems', pairs, hpairs', rfl⟩, fun u hu => ?_⟩
      obtain ⟨p, hp, hu⟩ := List.mem_flatMap.mp hu
      rcases List.mem_cons.mp hu with rfl | hu
      · exact (hQ p hp).1
      · exact List.mem_singleton.mp hu ▸ (hQ p hp).2
    | form =>
      obtain ⟨items, hitems, entries, hentries, rfl⟩ := shaped_form.mp h
      obtain ⟨hitems', hinside⟩ := itemsBehind_keeps R K hv hitems
      obtain ⟨hentries', hQ⟩ := mapM_keeps (g := s'.formEntryBehind (.derived .form))
        (fun w hw p hp => formEntryBehind_keeps R K (hinside w hw) hp) hentries
      refine ⟨shaped_form.mpr ⟨items, hitems', entries, hentries', rfl⟩, fun u hu => ?_⟩
      obtain ⟨p, hp, rfl⟩ := List.mem_map.mp hu
      exact hQ p hp

/-! ### Changing -/

theorem keeps_alloc (C : CellId → Prop) (s : Store) (c : Cell) : Keeps C s (s.alloc c).2 :=
  fun _ cell _ h =>
  ⟨cell, (cell?_alloc_old s c (cell?_lt_size h)).trans h, .same cell⟩

theorem keeps_write (hc : ¬ C c) (cell : Cell) : Keeps C s (s.write c cell) := by
  intro id cell' hid h
  have hne : c ≠ id := by
    rintro rfl
    exact hc hid
  exact ⟨cell', (cell?_write_ne s cell hne).trans h, .same cell'⟩

/-- The promises of `C` are as they were. -/
def Stays (C : CellId → Prop) (s s' : Store) : Prop :=
  ∀ c p, C c → s.cell? c = some (.promise p) → s'.cell? c = some (.promise p)

theorem stays_alloc (C : CellId → Prop) (s : Store) (c : Cell) : Stays C s (s.alloc c).2 :=
  fun _ _ _ h =>
  (cell?_alloc_old s c (cell?_lt_size h)).trans h

theorem stays_write (hc : ¬ C c) (cell : Cell) : Stays C s (s.write c cell) := by
  intro id p hid h
  refine (cell?_write_ne s cell ?_).trans h
  rintro rfl
  exact hc hid

/-- Cells that are no promises may be written to. -/
theorem stays_write_of_cell? {old : Cell} (hc : s.cell? c = some old) (hold : ∀ p, old ≠ .promise p)
    (cell : Cell) : Stays C s (s.write c cell) := by
  intro id p _ h
  refine (cell?_write_ne s cell ?_).trans h
  rintro rfl
  exact hold p (Option.some.inj (hc.symm.trans h))

theorem stays_of_cells_eq (h : s'.cells = s.cells) : Stays C s s' := fun c p _ hc => by
  rw [Store.cell?, h]
  exact hc

theorem Stays.trans (h : Stays C s s') (h' : Stays C s' s'') : Stays C s s'' :=
  fun c p hc hp => h' c p hc (h c p hc hp)

/-- A change that only promises, streams and the parties outside the cells notice. -/
structure Quiet (s s' : Store) : Prop where
  size : s'.cells.size = s.cells.size
  keeps : Keeps (fun _ => True) s s'
  temporaries : s'.temporaries = s.temporaries

namespace Quiet

theorem refl (s : Store) : Quiet s s := ⟨rfl, .refl _ s, rfl⟩

theorem trans (h : Quiet s s') (h' : Quiet s' s'') : Quiet s s'' :=
  ⟨h'.size.trans h.size, h.keeps.trans h'.keeps, h'.temporaries.trans h.temporaries⟩

theorem of_cells_eq (hcells : s'.cells = s.cells) (htemporaries : s'.temporaries = s.temporaries) :
    Quiet s s' :=
  ⟨by rw [hcells], fun _ cell _ h => ⟨cell, by rw [Store.cell?, hcells]; exact h, .same cell⟩,
    htemporaries⟩

/-- A cell is written to and stays alike. -/
theorem write {cell' : Cell} (h : s.cell? c = some cell) (halike : cell.Alike cell') :
    Quiet s (s.write c cell') := by
  refine ⟨by simp [Store.write], fun id old _ hold => ?_, rfl⟩
  by_cases hid : c = id
  · subst hid
    obtain rfl := Option.some.inj (h.symm.trans hold)
    exact ⟨cell', cell?_write_self s cell' (cell?_lt_size h), halike⟩
  · exact ⟨old, (cell?_write_ne s cell' hid).trans hold, .same old⟩

theorem foldl {f : Store → α → Store} (hf : ∀ s a, Quiet s (f s a)) (as : List α) (s : Store) :
    Quiet s (as.foldl f s) := by
  induction as generalizing s with
  | nil => exact .refl s
  | cons a as ih => exact (hf s a).trans (ih (f s a))

end Quiet

theorem quiet_note (s : Store) (e : Event) : Quiet s (s.note e) := .of_cells_eq rfl rfl

theorem quiet_ring (s : Store) (bell : Nat) : Quiet s (s.ring bell) := .of_cells_eq rfl rfl

theorem post_eq (s : Store) (mailbox : Nat) (p : Ping) :
    (s.post mailbox p).cells = s.cells ∧ (s.post mailbox p).temporaries = s.temporaries := by
  unfold post
  split
  · exact ⟨rfl, rfl⟩
  · dsimp only
    split
    · exact ⟨rfl, rfl⟩
    · exact ⟨rfl, rfl⟩

theorem quiet_post (s : Store) (mailbox : Nat) (p : Ping) : Quiet s (s.post mailbox p) :=
  .of_cells_eq (s.post_eq mailbox p).1 (s.post_eq mailbox p).2

theorem quiet_callWith {settle : CellId → Outcome → Store → Store}
    (hsettle : ∀ id o s, Quiet s (settle id o s)) (c : Callback) (o : Outcome) (s : Store) :
    Quiet s (callWith settle c o s) := by
  unfold callWith
  split
  · exact quiet_post s _ _
  · exact quiet_post s _ _
  · exact quiet_post s _ _
  · dsimp only
    split
    · exact (quiet_note s _).trans (hsettle _ _ _)
    · exact quiet_note s _

theorem promise?_eq_some {p : Promise} (h : s.promise? id = some p) :
    s.cell? id = some (.promise p) := by
  unfold promise? at h
  split at h
  · obtain rfl := Option.some.inj h
    assumption
  · cases h

theorem stream?_eq_some {st : Stream} (h : s.stream? id = some st) :
    s.cell? id = some (.stream st) := by
  unfold stream? at h
  split at h
  · obtain rfl := Option.some.inj h
    assumption
  · cases h

theorem quiet_settleWith (fuel : Nat) :
    ∀ (id : CellId) (o : Outcome) (s : Store), Quiet s (settleWith fuel id o s).2 := by
  induction fuel with
  | zero => exact fun _ _ s => .refl s
  | succ fuel ih =>
    intro id o s
    unfold settleWith
    split
    · rename_i callbacks bells hp
      have hwrite : Quiet s (s.write id (.promise ⟨some o, [], []⟩)) := .write (promise?_eq_some hp)
        (.promise _ _)
      exact (hwrite.trans (.foldl (fun s c => quiet_callWith ih c o s) callbacks _)).trans
        (.foldl quiet_ring bells _)
    · exact .refl s

/-- **Settling a promise** changes promises only. -/
theorem quiet_settle (s : Store) (id : CellId) (o : Outcome) : Quiet s (s.settle id o).2 :=
  quiet_settleWith _ id o s

/-- Pushing to a stream writes to its cell, if at all, and tells the parties outside. -/
theorem push_eq (s : Store) (id : CellId) (e : StreamEvent) :
    (s.push id e).2 = s ∨ ∃ st st', s.cell? id = some (.stream st) ∧
    (s.push id e).2.cells = (s.write id (.stream st')).cells ∧
      (s.push id e).2.temporaries = s.temporaries := by
  unfold push
  split
  · exact .inl rfl
  · rename_i st hst
    split
    · exact .inl rfl
    · refine .inr
        ⟨st, { st with buffer := st.buffer ++ [e], finished := e.isTerminal, bell := none },
          stream?_eq_some hst, ?_⟩
      dsimp only
      split
      · split
        · exact post_eq _ _ _
        · exact ⟨rfl, rfl⟩
      · split
        · exact post_eq _ _ _
        · exact ⟨rfl, rfl⟩

/-- **Pushing to a stream** changes streams only. -/
theorem quiet_push (s : Store) (id : CellId) (e : StreamEvent) : Quiet s (s.push id e).2 := by
  obtain heq | ⟨st, st', hst, hcells, htemporaries⟩ := s.push_eq id e
  · exact heq.symm ▸ .refl s
  · exact (Quiet.write hst (.stream _ st')).trans (.of_cells_eq hcells htemporaries)

theorem stays_push (C : CellId → Prop) (s : Store) (id : CellId) (e : StreamEvent) :
    Stays C s (s.push id e).2 := by
  obtain heq | ⟨st, st', hst, hcells, -⟩ := s.push_eq id e
  · exact heq.symm ▸ fun _ _ _ h => h
  · exact (stays_write_of_cell? hst (fun _ => nofun) _).trans (stays_of_cells_eq hcells)

/-- A pending promise that nobody waits for settles, and that is all. -/
theorem settle_of_pending (h : s.cell? id = some (.promise ⟨none, [], []⟩)) (o : Outcome) :
    (s.settle id o).2 = s.write id (.promise ⟨some o, [], []⟩) := by
  simp [settle, settleWith, promise?, h]

end Store

end GraphRows
