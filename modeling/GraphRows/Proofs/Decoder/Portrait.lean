import GraphRows.Proofs.Decoder.Onward
import GraphRows.Proofs.Decoder.Pictures

/-!
# What a decoder has drawn so far

Some rows are calm: no circle of references starts from them. What was drawn for a calm row is
finished when its entry is fulfilled, and it stays as it is. That is not obvious, because the
decoder keeps writing to cells: holes of other drafts are filled, and what is drawn for one row may
be reached from another. So the cells are kept apart.

* `C` is the region of what is finished: the values of calm rows, the handles, what the host has
  brought in. Nothing leads out of it, and nobody writes to it.
* `D t` are the cells of the draft of `t`, as long as it has holes. Only the watchers of `t` write
  to them.

`Portrait` says that all this is so, one `Part` for each entry. It is kept by every step of a
decoder, and every step is an instance of one rule: a change that concerns some entries only leaves
the parts of all others alone.

## Main results

* `Portrait.frame`: what was drawn for others stays
* `Portrait.aside`: nothing that was drawn is concerned
* `Portrait.idle`, `Portrait.block`, `Portrait.fulfil`: an entry is read or fails, is blocked, or is
  fulfilled
-/

namespace GraphRows

open Decoder

variable {c : CellId} {d : Decoder} {h : Hole} {i t : Nat} {shape : Shape} {v : Value} {w : Watcher}

namespace Watcher

/-- The watcher stands for the hole `h` of `t`. -/
def isAt (t : Nat) (h : Hole) : Watcher → Bool
  | .hole target place _ _ _ => target == t && place == h
  | .stream _ => false

theorem isAt_iff : w.isAt t h ↔ ∃ path shape cyclic, w = .hole t h path shape cyclic := by
  cases w with
  | hole target place path shape cyclic => simp [isAt]
  | stream id => simp [isAt]

end Watcher

namespace Decoder

/-- A watcher stands on an entry, or was taken off it and is about to run. -/
def Stands (d : Decoder) (running : List (Nat × Watcher)) (i : Nat) (w : Watcher) : Prop :=
  w ∈ (d.entry i).watchers ∨ (i, w) ∈ running

/-- A watcher for the hole stands somewhere. -/
def Opened (d : Decoder) (running : List (Nat × Watcher)) (t : Nat) (h : Hole) : Prop :=
  ∃ i w, d.Stands running i w ∧ w.isAt t h

/-- How many watchers for the hole stand somewhere. -/
def openings (d : Decoder) (running : List (Nat × Watcher)) (t : Nat) (h : Hole) : Nat :=
  d.tally (Watcher.isAt t h) + running.countP (Watcher.isAt t h ·.2)

theorem openings_pos {running : List (Nat × Watcher)} (ho : d.Opened running t h) :
    0 < d.openings running t h := by
  obtain ⟨i, w, hw | hw, hat⟩ := ho
  · exact Nat.add_pos_left (tally_pos hw hat) _
  · exact Nat.add_pos_right _ (List.countP_pos_iff.mpr ⟨(i, w), hw, hat⟩)

theorem opened_of_openings_pos {running : List (Nat × Watcher)}
    (ho : 0 < d.openings running t h) : d.Opened running t h := by
  rcases Nat.pos_iff_ne_zero.mp ho |> (fun h => Nat.add_pos_iff_pos_or_pos.mp
    (Nat.pos_of_ne_zero h)) with ho | ho
  · obtain ⟨_, hmem, hcount⟩ := List.sum_pos_iff_exists_pos_nat.mp ho
    obtain ⟨i, -, rfl⟩ := List.mem_map.mp hmem
    obtain ⟨w, hw, hat⟩ := List.countP_pos_iff.mp hcount
    exact ⟨i, w, .inl hw, hat⟩
  · obtain ⟨⟨i, w⟩, hw, hat⟩ := List.countP_pos_iff.mp ho
    exact ⟨i, w, .inr hw, hat⟩

end Decoder

/-! ### What is known for good -/

/-- What is known of the rows and of the host: which rows are calm, what models they bring, which
have come, and which cells the host had before. -/
structure Script where
  calm : Nat → Prop
  model : Nat → Option Json
  came : Nat → Prop
  host : CellId → Prop

/-- A loader that touches nothing but what it makes: its modules lead to new cells and to cells of
the host. -/
structure Loader.Tame (l : Loader) (host : CellId → Prop) : Prop where
  cells : ∀ m s, s.cells.size ≤ (l.load m s).2.cells.size
  keeps : ∀ m (s : Store) c cell, s.cell? c = some cell → (l.load m s).2.cell? c = some cell
  temporaries : ∀ m s, (l.load m s).2.temporaries = s.temporaries
  closed : ∀ m s, Closed host (fun c => s.cells.size ≤ c ∧ c < (l.load m s).2.cells.size)
    (l.load m s).2
  value : ∀ m s v, (l.load m s).1 = .ok v →
    v.Inside fun c => host c ∨ s.cells.size ≤ c ∧ c < (l.load m s).2.cells.size

/-- The outcome of a state. -/
def EntryState.outcome? : EntryState → Option Outcome
  | .fulfilled v => some (.ok v)
  | .rejected r => some (.error r)
  | _ => none

theorem EntryState.outcome?_of_not_isTerminal {st : EntryState} (h : st.isTerminal = false) :
    st.outcome? = none := by
  cases st <;> first | rfl | cases h

theorem EntryState.outcome?_eq_ok {st : EntryState} (h : st.outcome? = some (.ok v)) :
    st = .fulfilled v := by
  cases st with
  | fulfilled w =>
    cases h
    rfl
  | _ => cases h

/-- Every entry has a promise for a handle, which nobody else has, and it is settled as the entry
is. -/
structure Handled (x : Decoding) : Prop where
  promise : ∀ i < x.decoder.entries.size,
    x.store.cell? (x.decoder.entry i).handle =
      some (.promise ⟨(x.decoder.entry i).state.outcome?, [], []⟩)
  distinct : ∀ i < x.decoder.entries.size, ∀ j < x.decoder.entries.size,
    (x.decoder.entry i).handle = (x.decoder.entry j).handle → i = j

/-- `C` is a region that holds what is known for good. -/
structure Ground (p : Script) (C : CellId → Prop) (x : Decoding) : Prop where
  named : ∀ n i, x.decoder.ids.lookup n = some i → i < x.decoder.entries.size
  made : ∀ i shape v, x.decoder.derived.lookup (i, shape) = some v → i < x.decoder.entries.size
  loader : x.decoder.options.loader.Tame p.host
  host : ∀ c, p.host c → C c
  region : x.store.Region C
  handled : Handled x
  handles : ∀ i < x.decoder.entries.size, C (x.decoder.entry i).handle
  temporaries : ∀ set id v, x.store.temporary? set id = some v → v.Inside C
  values : ∀ n i v, p.calm n → x.decoder.ids.lookup n = some i →
    (x.decoder.entry i).state = .fulfilled v → v.Inside C
  derived : ∀ n i, p.calm n → x.decoder.ids.lookup n = some i → ∀ shape made,
    x.decoder.derived.lookup (i, shape) = some made → made.Inside C ∧ ∃ w c,
      (x.decoder.entry i).state = .fulfilled w ∧
      x.store.shaped shape w = .ok c ∧ x.store.cellOf? made = some c

/-- What was said before can still be said, as far as it is about `C`. -/
structure Later (C : CellId → Prop) (x y : Decoding) : Prop where
  options : y.decoder.options = x.decoder.options
  ids : ∀ n i, x.decoder.ids.lookup n = some i → y.decoder.ids.lookup n = some i
  settled : ∀ i v, (x.decoder.entry i).state = .fulfilled v →
    (y.decoder.entry i).state = .fulfilled v
  handle : ∀ i < x.decoder.entries.size, (y.decoder.entry i).handle = (x.decoder.entry i).handle
  derived : ∀ key v, x.decoder.derived.lookup key = some v → y.decoder.derived.lookup key = some v
  keeps : x.store.Keeps C y.store

theorem Store.shaped_isData {s : Store} {c : Cell} (h : s.shaped shape v = .ok c) :
    (∀ p, c ≠ .promise p) ∧ ∀ st, c ≠ .stream st := by
  cases shape with
  | plain => cases h
  | binary kind =>
    obtain ⟨_, _, _, _, rfl⟩ := shaped_binary.mp h
    exact ⟨fun _ h => (by cases h), fun _ h => by cases h⟩
  | derived kind =>
    cases kind with
    | map =>
      obtain ⟨_, _, _, _, rfl⟩ := shaped_map.mp h
      exact ⟨fun _ h => (by cases h), fun _ h => by cases h⟩
    | set =>
      obtain ⟨_, _, rfl⟩ := shaped_set.mp h
      exact ⟨fun _ h => (by cases h), fun _ h => by cases h⟩
    | form =>
      obtain ⟨_, _, _, _, rfl⟩ := shaped_form.mp h
      exact ⟨fun _ h => (by cases h), fun _ h => by cases h⟩
    | blob =>
      obtain ⟨_, _, _, _, rfl⟩ := shaped_blob.mp h
      exact ⟨fun _ h => (by cases h), fun _ h => by cases h⟩
    | server =>
      obtain ⟨_, _, rfl⟩ := shaped_server.mp h
      exact ⟨fun _ h => (by cases h), fun _ h => by cases h⟩

section Later

variable {p : Script} {C C' : CellId → Prop} {x y z : Decoding}

theorem Later.refl (C : CellId → Prop) (x : Decoding) : Later C x x :=
  ⟨rfl, fun _ _ h => h, fun _ _ h => h, fun _ _ => rfl, fun _ _ h => h, .refl C _⟩

theorem Later.trans (h : Later C x y) (h' : Later C y z)
    (hsize : x.decoder.entries.size ≤ y.decoder.entries.size) : Later C x z :=
  ⟨h'.options.trans h.options, fun n i hi => h'.ids n i (h.ids n i hi), fun i v hv => h'.settled i v
    (h.settled i v hv), fun i hi => (h'.handle i (Nat.lt_of_lt_of_le hi hsize)).trans
    (h.handle i hi),
    fun key v hv => h'.derived key v (h.derived key v hv), h.keeps.trans h'.keeps⟩

theorem Later.mono (h : Later C x y) (hC : ∀ c, C' c → C c) : Later C' x y :=
  ⟨h.options, h.ids, h.settled, h.handle, h.derived, h.keeps.mono hC⟩

/-- A reference leads where it led. -/
theorem Decoder.Leads.later (G : Ground p C x) (L : Later C x y) {id : Nat} (hid : p.calm id)
    {path : List String} (h : x.decoder.Leads x.store id path shape v) (hv : v.Inside C) :
    y.decoder.Leads y.store id path shape v := by
  obtain ⟨i, w, hi, hw, hlead⟩ := h
  have hinside := G.values id i w hid hi hw
  refine ⟨i, w, L.ids id i hi, L.settled i w hw, ?_⟩
  split at hlead
  · rename_i hshape
    rw [if_pos hshape]
    exact (Store.walk_keeps G.region L.keeps hinside hlead).1
  · rename_i hshape
    rw [if_neg hshape]
    obtain ⟨hderived, c, hc, hcell⟩ := hlead
    have hdata := Store.shaped_isData hc
    exact ⟨L.derived _ _ hderived, c, (Store.shaped_keeps G.region L.keeps hinside hc).1,
      L.keeps.cellOf? hv hcell hdata.1 hdata.2⟩

theorem Token.Means.later (G : Ground p C x) (L : Later C x y) {t : Token}
    (ht : ∀ n, t.referent? = some n → p.calm n) (h : t.Means x.decoder x.store v)
    (hv : v.Inside C) : t.Means y.decoder y.store v := by
  cases href : t.reference? with
  | some r =>
    obtain ⟨id, path, shape⟩ := r
    have hid : p.calm id := ht id (by rw [t.referent?_eq, href]; rfl)
    exact (Token.means_of_reference? href).mpr
      (((Token.means_of_reference? href).mp h).later G L hid hv)
  | none =>
    cases t with
    | promise id =>
      obtain ⟨i, hi, rfl⟩ := h
      exact ⟨i, L.ids id i hi, by rw [L.handle i (G.named id i hi)]⟩
    | row r => cases href
    | derived kind id => cases href
    | binary kind id => cases href
    | _ => exact h

end Later

/-! ### Leaves -/

/-- A place is finished: it holds what the payload says. -/
def Settled (p : Script) (C : CellId → Prop) (x : Decoding) (j : Json) (v : Value) : Prop :=
  j.Says x.decoder x.store v ∧ v.Inside C ∧ ∀ n ∈ j.referents, p.calm n

/-- A place in the draft of `t` is a hole that a watcher stands for, or it is finished. -/
def Drafted (p : Script) (C : CellId → Prop) (running : List (Nat × Watcher)) (x : Decoding)
    (t : Nat) (h : Hole) (j : Json) (v : Value) : Prop :=
  (∃ text token id path shape i cyclic, j = .str text ∧ Token.parse text = .ok token ∧
    token.reference? = some (id, path, shape) ∧ (p.calm id ∨ i = t) ∧
      x.decoder.ids.lookup id = some i ∧
    x.decoder.Stands running i (.hole t h path shape cyclic) ∧ v = .undefined) ∨
  ¬ x.decoder.Opened running t h ∧ Settled p C x j v

variable {p : Script} {C C' : CellId → Prop} {D D' : Nat → CellId → Prop}
  {running running' : List (Nat × Watcher)} {x y : Decoding} {E : Nat → Prop}

theorem Settled.later (G : Ground p C x) (L : Later C x y) (hC : ∀ c, C c → C' c) {j : Json}
    (h : Settled p C x j v) : Settled p C' y j v := by
  obtain ⟨hsaying, hv, hcalm⟩ := h
  refine ⟨?_, hv.mono hC, hcalm⟩
  cases j with
  | str t =>
    obtain ⟨token, hparse, hmeans⟩ := hsaying
    exact ⟨token, hparse,
      hmeans.later G L (fun n hn => hcalm n (Json.mem_referents_str hparse hn)) hv⟩
  | _ => exact hsaying

/-! ### The portrait -/

/-- A cell that nobody but `t` may write to. -/
def Apart (C : CellId → Prop) (D : Nat → CellId → Prop) (s : Store) (t : Nat) (c : CellId) : Prop :=
  c < s.cells.size ∧ ¬ C c ∧ ∀ t', D t' c → t' = t

/-- What was drawn for the calm row `n`, whose entry is `t`. -/
structure Calm (p : Script) (C : CellId → Prop) (D : Nat → CellId → Prop)
    (running : List (Nat × Watcher)) (x : Decoding) (n t : Nat) : Prop where
  counted : ∀ i h path shape cyclic, x.decoder.Stands running i (.hole t h path shape cyclic) →
    cyclic = false
  single : ∀ h, x.decoder.openings running t h ≤ 1
  sited : (x.decoder.entry t).state = .blocked → ∀ h, x.decoder.Opened running t h →
    h.Sited x.store ∧ ∀ c, h.cell? = some c → D t c
  blocked : (x.decoder.entry t).state = .blocked → ∃ j, p.model n = some j ∧
    Pictured (Drafted p C running x t) (fun h c => D t c ∧ ¬ x.decoder.Opened running t h)
      x.store .root j (x.decoder.entry t).draft.value
  fulfilled : ∀ v, (x.decoder.entry t).state = .fulfilled v → ∀ j, p.model n = some j →
    Pictured (fun _ => Settled p C x) (fun _ => C) x.store .root j v

/-- What was drawn for the entry `t`. -/
structure Part (p : Script) (C : CellId → Prop) (D : Nat → CellId → Prop)
    (running : List (Nat × Watcher)) (x : Decoding) (t : Nat) : Prop where
  placed : ∀ i h path shape cyclic, x.decoder.Stands running i (.hole t h path shape cyclic) →
    (x.decoder.entry t).state.isPending = false ∧ (shape ≠ .plain → path = []) ∧
      ∀ c, h.cell? = some c → Apart C D x.store t c
  scope : ∀ c, D t c → Apart C D x.store t c
  came : ∀ n, x.decoder.ids.lookup n = some t → (x.decoder.entry t).state.isPending = false →
    p.came n
  calm : ∀ n, p.calm n → x.decoder.ids.lookup n = some t → Calm p C D running x n t

/-- **What a decoder has drawn so far**: the calm rows as they say, and every cell in its place. -/
structure Portrait (p : Script) (C : CellId → Prop) (D : Nat → CellId → Prop)
    (running : List (Nat × Watcher)) (x : Decoding) : Prop where
  ground : Ground p C x
  parts : ∀ t, Part p C D running x t

/-- Nobody but the entries with `E` has drawn in the cell. -/
def Free (D : Nat → CellId → Prop) (running : List (Nat × Watcher)) (x : Decoding) (E : Nat → Prop)
    (c : CellId) : Prop :=
  ∀ t, ¬ E t → ¬ D t c ∧ ∀ i h path shape cyclic, x.decoder.Stands running i
    (.hole t h path shape cyclic) → h.cell? ≠ some c

/-- A change that concerns the entries with `E` only, as far as it concerns what was drawn. -/
structure Untouched (p : Script) (E : Nat → Prop) (C C' : CellId → Prop)
    (D D' : Nat → CellId → Prop)
    (running running' : List (Nat × Watcher)) (x y : Decoding) : Prop where
  later : Later (fun c => C c ∨ ∃ t, ¬ E t ∧ (∃ n, p.calm n ∧ x.decoder.ids.lookup n = some t) ∧
    D t c) x y
  cells : x.store.cells.size ≤ y.store.cells.size
  pending : ∀ t, ¬ E t → (y.decoder.entry t).state.isPending = (x.decoder.entry t).state.isPending
  same : ∀ n t, p.calm n → x.decoder.ids.lookup n = some t → ¬ E t →
    (y.decoder.entry t).state = (x.decoder.entry t).state ∧
      (y.decoder.entry t).draft.value = (x.decoder.entry t).draft.value
  names : ∀ n t, y.decoder.ids.lookup n = some t → x.decoder.ids.lookup n = some t ∨
    x.decoder.entries.size ≤ t
  stands : ∀ i t h path shape cyclic, ¬ E t →
    (y.decoder.Stands running' i (.hole t h path shape cyclic) ↔
    x.decoder.Stands running i (.hole t h path shape cyclic))
  openings : ∀ t h, ¬ E t → y.decoder.openings running' t h = x.decoder.openings running t h
  grows : ∀ c, C c → C' c
  region : ∀ c, C' c → C c ∨ Free D running x E c
  drafts : ∀ t c, D' t c → D t c ∨ E t ∧ Free D running x E c
  kept : ∀ t c, ¬ E t → D t c → D' t c

theorem Decoder.opened_iff : d.Opened running t h ↔
    ∃ i path shape cyclic, d.Stands running i (.hole t h path shape cyclic) := by
  constructor
  · rintro ⟨i, w, hs, hat⟩
    obtain ⟨path, shape, cyclic, rfl⟩ := Watcher.isAt_iff.mp hat
    exact ⟨i, path, shape, cyclic, hs⟩
  · rintro ⟨i, path, shape, cyclic, hs⟩
    exact ⟨i, _, hs, Watcher.isAt_iff.mpr ⟨path, shape, cyclic, rfl⟩⟩

theorem Untouched.opened (U : Untouched p E C C' D D' running running' x y) (ht : ¬ E t)
    (h : Hole) : y.decoder.Opened running' t h ↔ x.decoder.Opened running t h := by
  simp only [opened_iff, U.stands _ t _ _ _ _ ht]

/-- Nobody waits for a hole of an entry that no row has come for. -/
theorem Part.openings_eq_zero (P : Part p C D running x t)
    (ht : (x.decoder.entry t).state.isPending) (h : Hole) : x.decoder.openings running t h = 0 := by
  refine Nat.eq_zero_of_not_pos fun hpos => ?_
  obtain ⟨i, path, shape, cyclic, hs⟩ := opened_iff.mp (opened_of_openings_pos hpos)
  rw [(P.placed i h path shape cyclic hs).1] at ht
  cases ht

/-- A row that nothing is drawn for. -/
theorem Calm.of_pending {n : Nat} (hstate : (x.decoder.entry t).state.isPending)
    (hopenings : ∀ h, x.decoder.openings running t h = 0) : Calm p C D running x n t where
  counted i h path shape cyclic hs := by
    have := openings_pos (opened_iff.mpr ⟨i, path, shape, cyclic, hs⟩)
    rw [hopenings] at this
    cases this
  single h := (hopenings h).symm ▸ Nat.zero_le 1
  sited hb := by
    rw [hb] at hstate
    cases hstate
  blocked hb := by
    rw [hb] at hstate
    cases hstate
  fulfilled v hv := by
    rw [hv] at hstate
    cases hstate

/-- A hole is where it was. -/
theorem Hole.Sited.keeps {s s' : Store} (hs : h.Sited s) {C : CellId → Prop} (K : s.Keeps C s')
    (hC : ∀ c, h.cell? = some c → C c) : h.Sited s' := by
  cases h with
  | field object key =>
    obtain ⟨fields, hcell, hkey⟩ := hs
    exact ⟨fields, K.cell? (hC object rfl) hcell (fun _ h => by cases h)
      (fun _ h => by cases h), hkey⟩
  | _ => trivial

/-- A cell that one entry has to itself, it has to itself after a change that concerns others. -/
theorem Untouched.apart (U : Untouched p E C C' D D' running running' x y)
    (h : Apart C D x.store t c) (hfree : ¬ Free D running x E c) : Apart C' D' y.store t c := by
  obtain ⟨hlt, hC, hD⟩ := h
  refine ⟨Nat.lt_of_lt_of_le hlt U.cells, fun h => ?_, fun t' h => ?_⟩
  · exact (U.region c h).elim hC hfree
  · exact (U.drafts t' c h).elim (hD t') fun h => absurd h.2 hfree

theorem Calm.frame (G : Ground p C x) (U : Untouched p E C C' D D' running running' x y) {n : Nat}
    (ht : ¬ E t) (hn : p.calm n) (hlookup : x.decoder.ids.lookup n = some t)
    (K : Calm p C D running x n t) : Calm p C' D' running' y n t := by
  obtain ⟨hstate, hvalue⟩ := U.same n t hn hlookup ht
  have settled : ∀ {j v}, Settled p C x j v → Settled p C' y j v := fun h =>
    h.later G (U.later.mono fun _ => .inl) U.grows
  have mine : ∀ {c}, D t c → C c ∨ ∃ t, ¬ E t ∧ (∃ n, p.calm n ∧ x.decoder.ids.lookup n = some t) ∧
      D t c :=
    fun hc => .inr ⟨t, ht, ⟨n, hn, hlookup⟩, hc⟩
  refine ⟨fun k h path shape cyclic hs => ?_, fun h => ?_, fun hb h ho => ?_, fun hb => ?_,
    fun v hv j hj => ?_⟩
  · exact K.counted k h path shape cyclic ((U.stands _ _ _ _ _ _ ht).mp hs)
  · exact U.openings t h ht ▸ K.single h
  · obtain ⟨hsited, hD⟩ := K.sited (hstate ▸ hb) h ((U.opened ht h).mp ho)
    exact ⟨hsited.keeps U.later.keeps fun c hc => mine (hD c hc), fun c hc =>
      U.kept t c ht (hD c hc)⟩
  · obtain ⟨j, hj, hpic⟩ := K.blocked (hstate ▸ hb)
    refine ⟨j, hj, ?_⟩
    rw [hvalue]
    refine hpic.mono (Q := fun _ => True) ⟨fun _ _ _ _ _ _ => trivial, fun h j v _ hleaf => ?_,
      fun h c _ hnode => ?_,
      fun h c _ hnode cell hcell => U.later.keeps.cell? (mine hnode.1) hcell⟩ trivial
    · rcases hleaf with ⟨text, token, id, path, shape, k, cyclic, rfl, hparse, href, hcalm, hid, hs,
        rfl⟩ | ⟨ho, hset⟩
      · exact .inl ⟨text, token, id, path, shape, k, cyclic, rfl, hparse, href, hcalm,
          U.later.ids id k hid, (U.stands _ _ _ _ _ _ ht).mpr hs, rfl⟩
      · exact .inr ⟨fun h' => ho ((U.opened ht h).mp h'), settled hset⟩
    · exact ⟨U.kept t c ht hnode.1, fun h' => hnode.2 ((U.opened ht h).mp h')⟩
  · refine (K.fulfilled v (hstate ▸ hv) j hj).mono (Q := fun _ => True) ⟨fun _ _ _ _ _ _ => trivial,
      fun h j v _ hleaf => settled hleaf, fun h c _ hnode => U.grows c hnode,
      fun h c _ hnode cell hcell => U.later.keeps.cell? (.inl hnode) hcell⟩ trivial

/-- **What was drawn for others stays.** A change that concerns the entries with `E` only has to
care for their parts. -/
theorem Portrait.frame (P : Portrait p C D running x)
    (U : Untouched p E C C' D D' running running' x y) (G : Ground p C' y)
    (hE : ∀ t, E t → Part p C' D' running' y t) : Portrait p C' D' running' y := by
  refine ⟨G, fun t => ?_⟩
  by_cases ht : E t
  case pos => exact hE t ht
  obtain ⟨hplaced, hscope, hcame, hcalm⟩ := P.parts t
  have hblank : x.decoder.entries.size ≤ t → (x.decoder.entry t).state.isPending := fun hle => by
    rw [entry_of_size_le _ hle]
    rfl
  refine ⟨fun i h path shape cyclic hs => ?_, fun c hc => ?_, fun n hn hp => ?_,
    fun n hn hlookup => ?_⟩
  · have hs' := (U.stands _ _ _ _ _ _ ht).mp hs
    obtain ⟨hp, hpath, hcell⟩ := hplaced i h path shape cyclic hs'
    refine ⟨(U.pending t ht).trans hp, hpath, fun c hc => U.apart (hcell c hc) fun hfree => ?_⟩
    exact (hfree t ht).2 _ _ _ _ _ hs' hc
  · have hc' : D t c := (U.drafts t c hc).elim id fun h => absurd h.1 ht
    exact U.apart (hscope c hc') fun hfree => (hfree t ht).1 hc'
  · rw [U.pending t ht] at hp
    rcases U.names n t hn with hn | hle
    · exact hcame n hn hp
    · rw [hblank hle] at hp
      cases hp
  · rcases U.names n t hlookup with hlookup' | hle
    · exact (hcalm n hn hlookup').frame P.ground U ht hn hlookup'
    · refine .of_pending (U.pending t ht ▸ hblank hle) fun h => ?_
      rw [U.openings t h ht, (P.parts t).openings_eq_zero (hblank hle)]

/-! ### Changes of the store -/

/-- Neither the states nor the handles change. -/
theorem Handled.restate (H : Handled x) (hsize : y.decoder.entries.size = x.decoder.entries.size)
    (hentry : ∀ i < x.decoder.entries.size, (y.decoder.entry i).handle =
      (x.decoder.entry i).handle ∧ (y.decoder.entry i).state.outcome? =
      (x.decoder.entry i).state.outcome?)
    (hstore : ∀ i < x.decoder.entries.size, ∀ q, x.store.cell? (x.decoder.entry i).handle =
      some (.promise q) → y.store.cell? (x.decoder.entry i).handle = some (.promise q)) :
    Handled y := by
  refine ⟨fun i hi => ?_, fun i hi j hj h => ?_⟩
  · rw [hsize] at hi
    rw [(hentry i hi).1, (hentry i hi).2]
    exact hstore i hi _ (H.promise i hi)
  · rw [hsize] at hi hj
    rw [(hentry i hi).1, (hentry j hj).1] at h
    exact H.distinct i hi j hj h

/-- What is known stays known, and something may be new. -/
theorem Ground.later (G : Ground p C x) (L : Later C x y) (hC : ∀ c, C c → C' c)
    (R : y.store.Region C') (H : Handled y)
    (named : ∀ n i, y.decoder.ids.lookup n = some i → i < y.decoder.entries.size)
    (made : ∀ i shape v, y.decoder.derived.lookup (i, shape) = some v → i < y.decoder.entries.size)
    (handles : ∀ i < y.decoder.entries.size, x.decoder.entries.size ≤
      i → C' (y.decoder.entry i).handle)
    (temporaries : ∀ set id v, y.store.temporary? set id = some v → v.Inside C')
    (values : ∀ n i v, p.calm n → y.decoder.ids.lookup n = some i → (y.decoder.entry i).state =
      .fulfilled v → x.decoder.ids.lookup n = some i ∧ (x.decoder.entry i).state = .fulfilled v ∨
      v.Inside C')
    (derived : ∀ n i, p.calm n → y.decoder.ids.lookup n = some i → ∀ shape made,
      y.decoder.derived.lookup (i, shape) = some made → x.decoder.ids.lookup n = some i ∧
      x.decoder.derived.lookup (i, shape) = some made ∨ made.Inside C' ∧
      ∃ w c, (y.decoder.entry i).state = .fulfilled w ∧ y.store.shaped shape w = .ok c ∧
      y.store.cellOf? made = some c) : Ground p C' y := by
  refine ⟨named, made, L.options ▸ G.loader, fun c hc => hC c (G.host c hc), R, H, fun i hi => ?_,
    temporaries, fun n i v hn hi hv => ?_, fun n i hn hi shape made hmade => ?_⟩
  · rcases Nat.lt_or_ge i x.decoder.entries.size with hlt | hge
    · rw [L.handle i hlt]
      exact hC _ (G.handles i hlt)
    · exact handles i hi hge
  · rcases values n i v hn hi hv with ⟨hi', hv'⟩ | hv'
    · exact (G.values n i v hn hi' hv').mono hC
    · exact hv'
  · rcases derived n i hn hi shape made hmade with ⟨hi', hmade'⟩ | hmade'
    · obtain ⟨hin, w, c, hw, hc, hcell⟩ := G.derived n i hn hi' shape made hmade'
      have hdata := Store.shaped_isData hc
      exact ⟨hin.mono hC, w, c, L.settled i w hw,
        (Store.shaped_keeps G.region L.keeps (G.values n i w hn hi' hw) hc).1,
          L.keeps.cellOf? hin hcell hdata.1 hdata.2⟩
    · exact hmade'

/-- Nothing is settled that was not, and no cell is made of an entry. -/
theorem Ground.restate (G : Ground p C x) (L : Later C x y) (hC : ∀ c, C c → C' c)
    (R : y.store.Region C') (hstays : x.store.Stays C y.store)
    (hsize : y.decoder.entries.size = x.decoder.entries.size) (hids : y.decoder.ids = x.decoder.ids)
    (hderived : y.decoder.derived = x.decoder.derived)
    (hstate : ∀ i, (y.decoder.entry i).state = (x.decoder.entry i).state)
    (htemporaries : ∀ set id v, y.store.temporary? set id = some v → v.Inside C') :
    Ground p C' y := by
  refine G.later L hC R (G.handled.restate hsize (fun i hi => ⟨L.handle i hi, by rw [hstate]⟩)
    fun i hi q hq => hstays _ q (G.handles i hi) hq) ?_ ?_ ?_ htemporaries ?_ ?_
  · rw [hids, hsize]
    exact G.named
  · rw [hderived, hsize]
    exact G.made
  · exact fun i hi hge => absurd (hsize ▸ hi) (Nat.not_lt.mpr hge)
  · exact fun n i v _ hi hv => .inl ⟨hids ▸ hi, hstate i ▸ hv⟩
  · exact fun n i _ hi shape made hmade => .inl ⟨hids ▸ hi, hderived ▸ hmade⟩

theorem Portrait.lt_size (P : Portrait p C D running x) (h : D t c) : c < x.store.cells.size :=
  ((P.parts t).scope c h).1

/-- Nobody has drawn in a cell that is not there yet. -/
theorem Portrait.free (P : Portrait p C D running x) (hc : x.store.cells.size ≤ c) :
    Free D running x E c := by
  refine fun t _ => ⟨fun h => absurd (P.lt_size h) (Nat.not_lt.mpr hc),
    fun i h path shape cyclic hs hcell => ?_⟩
  exact absurd (((P.parts t).placed i h path shape cyclic hs).2.2 c hcell).1 (Nat.not_lt.mpr hc)

/-- Decoders that agree on their entries, on the names, and on what was made of entries. -/
structure SameEntries (d d' : Decoder) : Prop where
  options : d'.options = d.options
  entries : d'.entries = d.entries
  ids : d'.ids = d.ids
  derived : d'.derived = d.derived

theorem SameEntries.refl (d : Decoder) : SameEntries d d := ⟨rfl, rfl, rfl, rfl⟩

theorem SameEntries.entry {d' : Decoder} (S : SameEntries d d') (i : Nat) :
    d'.entry i = d.entry i := by
  rw [Decoder.entry, Decoder.entry, S.entries]

theorem SameEntries.later (S : SameEntries x.decoder y.decoder) (hkeeps : x.store.Keeps C y.store) :
    Later C x y :=
  ⟨S.options, fun n i hi => S.ids ▸ hi, fun i v hv => S.entry i ▸ hv,
    fun i _ => by rw [S.entry], fun key v hv => S.derived ▸ hv, hkeeps⟩

/-- A change beside what was drawn: new entries and new cells come, and the region may grow by new
cells. The old cells with `K` stay as they are. -/
structure Aside (K C C' : CellId → Prop) (x y : Decoding) : Prop where
  later : Later K x y
  entries : x.decoder.entries.size ≤ y.decoder.entries.size
  cells : x.store.cells.size ≤ y.store.cells.size
  state : ∀ i, (y.decoder.entry i).state = (x.decoder.entry i).state
  draft : ∀ i, (y.decoder.entry i).draft = (x.decoder.entry i).draft
  watchers : ∀ i t h path shape cyclic, .hole t h path shape cyclic ∈ (y.decoder.entry i).watchers ↔
    .hole t h path shape cyclic ∈ (x.decoder.entry i).watchers
  tally : ∀ t h, y.decoder.tally (Watcher.isAt t h) = x.decoder.tally (Watcher.isAt t h)
  names : ∀ n i, y.decoder.ids.lookup n = some i → x.decoder.ids.lookup n = some i ∨
    x.decoder.entries.size ≤ i
  grows : ∀ c, C c → C' c
  fresh : ∀ c, C' c → C c ∨ x.store.cells.size ≤ c

section Aside

variable {K : CellId → Prop}

theorem Aside.stands (A : Aside K C C' x y) {path : List String} {cyclic : Bool} :
    y.decoder.Stands running i (.hole t h path shape cyclic) ↔
      x.decoder.Stands running i (.hole t h path shape cyclic) := by
  rw [Stands, Stands, A.watchers]

/-- Only the store changes. -/
theorem Aside.store (S : SameEntries x.decoder y.decoder)
    (hcells : x.store.cells.size ≤ y.store.cells.size) (hkeeps : x.store.Keeps K y.store)
    (hgrows : ∀ c, C c → C' c) (hfresh : ∀ c, C' c → C c ∨ x.store.cells.size ≤ c) :
    Aside K C C' x y :=
  ⟨S.later hkeeps, Nat.le_of_eq (by rw [S.entries]), hcells,
    fun i => by rw [S.entry], fun i => by rw [S.entry],
    fun i t h path shape cyclic => by rw [S.entry], fun t h => tally_congr (by
      rw [S.entries]) (fun i => by rw [S.entry]) _,
    fun n i h => .inl (S.ids ▸ h), hgrows, hfresh⟩

theorem Aside.refl (K C : CellId → Prop) (x : Decoding) : Aside K C C x x :=
  .store (.refl _) (Nat.le_refl _) (.refl _ _) (fun _ h => h) fun _ h => .inl h

theorem Ground.store (G : Ground p C x) (S : SameEntries x.decoder y.decoder)
    (hkeeps : x.store.Keeps C y.store) (hstays : x.store.Stays C y.store) (hgrows : ∀ c, C c → C' c)
    (R : y.store.Region C')
    (htemporaries : ∀ set id v, y.store.temporary? set id = some v → v.Inside C') : Ground p C' y :=
  G.restate (S.later hkeeps) hgrows R hstays (by rw [S.entries]) S.ids S.derived
    (fun i => by rw [S.entry]) htemporaries

/-- **A change beside what was drawn.** -/
theorem Portrait.aside (P : Portrait p C D running x) (A : Aside K C C' x y)
    (hK : ∀ c, C c ∨ (∃ t, D t c) → K c) (G : Ground p C' y) : Portrait p C' D running y := by
  refine P.frame (E := fun _ => False) ⟨A.later.mono ?_, A.cells, fun t _ => by rw [A.state],
    fun n t _ _ _ => ⟨A.state t, by rw [A.draft]⟩, A.names, fun i t h path shape cyclic _ =>
      A.stands, fun t h _ => ?_, A.grows,
    fun c hc => (A.fresh c hc).imp_right P.free, fun t c => .inl, fun t c _ h => h⟩ G
    fun t h => h.elim
  · rintro c (hc | ⟨t, -, -, hc⟩)
    · exact hK c (.inl hc)
    · exact hK c (.inr ⟨t, hc⟩)
  · rw [openings, openings, A.tally]

end Aside

/-! ### Changes of one entry -/

section Changed

variable {t : Nat} {f : Entry → Entry}

theorem stands_congr {d' : Decoder} (h : ∀ i, (d'.entry i).watchers = (d.entry i).watchers) :
    d'.Stands running i w ↔ d.Stands running i w := by
  rw [Stands, Stands, h]

/-- An entry moves on and keeps its watchers, while promises and streams change. -/
structure Moves (t : Nat) (f : Entry → Entry) (x y : Decoding) : Prop where
  changed : Changed x.decoder y.decoder t f
  options : y.decoder.options = x.decoder.options
  derived : y.decoder.derived = x.decoder.derived
  quiet : x.store.Quiet y.store
  handle : (f (x.decoder.entry t)).handle = (x.decoder.entry t).handle
  watchers : (f (x.decoder.entry t)).watchers = (x.decoder.entry t).watchers
  handled : Handled x → Handled y
  settled : ∀ v, (x.decoder.entry t).state = .fulfilled v →
    (f (x.decoder.entry t)).state = .fulfilled v

namespace Moves

theorem stands (M : Moves t f x y) : y.decoder.Stands running i w ↔ x.decoder.Stands running i w :=
  stands_congr (M.changed.field (·.watchers) M.watchers)

theorem opened (M : Moves t f x y) {t' : Nat} :
    y.decoder.Opened running t' h ↔ x.decoder.Opened running t' h := by
  simp only [opened_iff, M.stands]

theorem openings (M : Moves t f x y) (t' : Nat) (h : Hole) :
    y.decoder.openings running t' h = x.decoder.openings running t' h := by
  rw [Decoder.openings, Decoder.openings, tally_congr M.changed.size
    (M.changed.field (·.watchers) M.watchers)]

theorem later (M : Moves t f x y) (C : CellId → Prop) : Later C x y := by
  refine ⟨M.options, fun n i hi => M.changed.ids ▸ hi, fun i v hv => ?_, fun i _ => M.changed.field
    (·.handle) M.handle i, fun key v hv => M.derived ▸ hv, M.quiet.keeps.mono fun _ _ => trivial⟩
  by_cases hi : i = t
  · subst hi
    rw [M.changed.self]
    exact M.settled v hv
  · rw [M.changed.other hi, hv]

theorem apart (M : Moves t f x y) {t' : Nat} : Apart C D y.store t' c ↔ Apart C D x.store t' c := by
  rw [Apart, Apart, M.quiet.size]

/-- What is known stays known when an entry moves on. -/
theorem ground (M : Moves t f x y) (G : Ground p C x) (hgrows : ∀ c, C c → C' c)
    (R : x.store.Region C')
    (hinside : ∀ n v, p.calm n → x.decoder.ids.lookup n = some t → (f (x.decoder.entry t)).state =
      .fulfilled v → v.Inside C') : Ground p C' y := by
  refine G.later (M.later C) hgrows (R.keeps (M.quiet.keeps.mono fun _ _ => trivial))
    (M.handled G.handled) ?_ ?_ ?_ ?_ ?_ ?_
  · rw [M.changed.ids, M.changed.size]
    exact G.named
  · rw [M.derived, M.changed.size]
    exact G.made
  · exact fun i hi hge => absurd (M.changed.size ▸ hi) (Nat.not_lt.mpr hge)
  · intro set id v hv
    rw [Store.temporary?, Store.temporarySet, M.quiet.temporaries] at hv
    exact (G.temporaries set id v hv).mono hgrows
  · intro n i v hn hi hv
    rw [M.changed.ids] at hi
    by_cases hit : i = t
    · subst hit
      rw [M.changed.self] at hv
      exact .inr (hinside n v hn hi hv)
    · exact .inl ⟨hi, M.changed.other hit ▸ hv⟩
  · exact fun n i _ hi shape made hmade => .inl ⟨M.changed.ids ▸ hi, M.derived ▸ hmade⟩

end Moves

/-- **An entry moves on.** Its own part has to be shown, the others are as they were. -/
theorem Portrait.moves (P : Portrait p C D running x) (M : Moves t f x y) (hgrows : ∀ c, C c → C' c)
    (hregion : ∀ c, C' c → C c ∨ Free D running x (· = t) c)
    (hdrafts : ∀ t' c, D' t' c → D t' c ∨ t' = t ∧ Free D running x (· = t) c)
    (hkept : ∀ t' c, t' ≠ t → D t' c → D' t' c) (R : x.store.Region C')
    (hinside : ∀ n v, p.calm n → x.decoder.ids.lookup n = some t → (f (x.decoder.entry t)).state =
      .fulfilled v → v.Inside C')
    (hpart : Part p C' D' running y t) : Portrait p C' D' running y := by
  refine P.frame (E := (· = t)) ⟨M.later _, Nat.le_of_eq M.quiet.size.symm,
    fun i hi => by rw [M.changed.other hi],
    fun n i _ _ hi => by simp [M.changed.other hi], fun n i h => .inl (M.changed.ids ▸ h),
    fun i t' h path shape cyclic _ => M.stands, fun t' h _ => M.openings t' h, hgrows, hregion,
      hdrafts, hkept⟩ ?_ ?_
  · exact M.ground P.ground hgrows R hinside
  · rintro _ rfl
    exact hpart

/-- The cells of what is drawn for one entry are nobody else's. -/
theorem Portrait.free_of_draft (P : Portrait p C D running x) (h : D t c) :
    Free D running x (· = t) c := by
  obtain ⟨-, -, hD⟩ := (P.parts t).scope c h
  refine fun t' ht' => ⟨fun h' => ht' (hD t' h'), fun i hole path shape cyclic hs hcell => ?_⟩
  exact ht' (((P.parts t').placed i hole path shape cyclic hs).2.2 c hcell |>.2.2 t h).symm

/-- **An entry begins to be read, or fails.** -/
theorem Portrait.idle (P : Portrait p C D running x) (M : Moves t f x y)
    (hstate : (f (x.decoder.entry t)).state = .reviving ∨ ∃ r,
      (f (x.decoder.entry t)).state = .rejected r)
    (hcame : ∀ n, x.decoder.ids.lookup n = some t → p.came n) : Portrait p C D running y := by
  have hnot : (y.decoder.entry t).state ≠ .blocked ∧
      ∀ v, (y.decoder.entry t).state ≠ .fulfilled v := by
    rw [M.changed.self]
    rcases hstate with h | ⟨r, h⟩ <;> simp [h]
  refine P.moves M (fun _ h => h) (fun _ h => .inl h) (fun _ _ h => .inl h) (fun _ _ _ h => h)
    P.ground.region ?_ ?_
  · intro n v _ _ hv
    rcases hstate with h | ⟨r, h⟩ <;> simp [h] at hv
  · obtain ⟨hplaced, hscope, -, hcalm⟩ := P.parts t
    refine ⟨fun i h path shape cyclic hs => ?_, fun c hc => M.apart.mpr (hscope c hc), fun n hn _ =>
      hcame n (M.changed.ids ▸ hn), fun n hn hlookup => ?_⟩
    · obtain ⟨-, hpath, hcell⟩ := hplaced i h path shape cyclic (M.stands.mp hs)
      refine ⟨?_, hpath, fun c hc => M.apart.mpr (hcell c hc)⟩
      rw [M.changed.self]
      rcases hstate with h | ⟨r, h⟩ <;> rw [h] <;> rfl
    · have K := hcalm n hn (M.changed.ids ▸ hlookup)
      exact ⟨fun i h path shape cyclic hs => K.counted i h path shape cyclic (M.stands.mp hs),
        fun h => M.openings t h ▸ K.single h, fun hb => absurd hb hnot.1,
          fun hb => absurd hb hnot.1,
        fun v hv => absurd hv (hnot.2 v)⟩

/-- A picture without open places is what it was after an entry moved on. -/
theorem Pictured.moves {j : Json} (G : Ground p C x) (M : Moves t f x y) (hC : ∀ c, C c → C' c)
    (h : Pictured (fun _ => Settled p C x) (fun _ => C') x.store .root j v) :
    Pictured (fun _ => Settled p C' y) (fun _ => C') y.store .root j v :=
  h.mono (Q := fun _ => True) ⟨fun _ _ _ _ _ _ => trivial, fun _ _ _ _ hleaf =>
    hleaf.later G (M.later C) hC,
    fun _ _ _ hc => hc, fun _ _ _ _ _ hcell => M.quiet.keeps.cell? trivial hcell⟩ trivial

/-- **An entry is fulfilled**, and the cells `A` of its value join the region. -/
theorem Portrait.fulfil (P : Portrait p C D running x) (M : Moves t f x y)
    (hstate : (f (x.decoder.entry t)).state = .fulfilled v) {A : CellId → Prop}
    (hA : Closed C A x.store) (hfree : ∀ c, A c → Free D running x (· = t) c)
    (hopen : ∀ i h path shape cyclic, x.decoder.Stands running i (.hole t h path shape cyclic) →
      ∀ c, h.cell? = some c → ¬ A c)
    (hcame : ∀ n, x.decoder.ids.lookup n = some t → p.came n)
    (hinside : ∀ n, p.calm n → x.decoder.ids.lookup n = some t → v.Inside fun c => C c ∨ A c)
    (hpicture : ∀ n j, p.calm n → x.decoder.ids.lookup n = some t → p.model n =
      some j → Pictured (fun _ => Settled p C x) (fun _ c => C c ∨ A c) x.store .root j v) :
    Portrait p (fun c => C c ∨ A c) (fun t' c => D t' c ∧ ¬ A c) running y := by
  have hself : (y.decoder.entry t).state = .fulfilled v := by rw [M.changed.self, hstate]
  refine P.moves M (fun _ => .inl) (fun c hc => hc.imp_right (hfree c)) (fun _ _ h => .inl h.1)
    (fun t' c ht h => ⟨h, fun ha => (hfree c ha t' ht).1 h⟩) (P.ground.region.union hA) ?_ ?_
  · intro n w hn hlookup hw
    obtain rfl : w = v := by simpa [hstate] using hw.symm
    exact hinside n hn hlookup
  · obtain ⟨hplaced, hscope, -, hcalm⟩ := P.parts t
    refine ⟨fun i h path shape cyclic hs => ?_, fun c hc => ?_, fun n hn _ =>
      hcame n (M.changed.ids ▸ hn), fun n hn hlookup => ?_⟩
    · have hs' := M.stands.mp hs
      obtain ⟨-, hpath, hcell⟩ := hplaced i h path shape cyclic hs'
      refine ⟨by rw [hself]; rfl, hpath, fun c hc => M.apart.mpr ?_⟩
      obtain ⟨hlt, hC, hD⟩ := hcell c hc
      exact ⟨hlt, fun h' => h'.elim hC (hopen i h path shape cyclic hs' c hc),
        fun t' h' => hD t' h'.1⟩
    · obtain ⟨hlt, hC, hD⟩ := hscope c hc.1
      exact M.apart.mpr ⟨hlt, fun h' => h'.elim hC hc.2, fun t' h' => hD t' h'.1⟩
    · rw [M.changed.ids] at hlookup
      have K := hcalm n hn hlookup
      refine ⟨fun i h path shape cyclic hs => K.counted i h path shape cyclic (M.stands.mp hs),
        fun h => M.openings t h ▸ K.single h, fun hb => ?_, fun hb => ?_, fun w hw j hj => ?_⟩
      · exact absurd (hself.symm.trans hb) (by rintro ⟨⟩)
      · exact absurd (hself.symm.trans hb) (by rintro ⟨⟩)
      · obtain rfl : w = v := by simpa [hself] using hw.symm
        exact (hpicture n j hn hlookup hj).moves P.ground M fun _ => .inl

/-- **An entry is blocked**, and the cells `A` of its draft are its own. -/
theorem Portrait.block (P : Portrait p C D running x) (M : Moves t f x y)
    (hstate : (f (x.decoder.entry t)).state = .blocked) {A : CellId → Prop}
    (hA : ∀ c, A c → c < x.store.cells.size ∧ ¬ C c) (hfree : ∀ c, A c → Free D running x (· = t) c)
    (hcame : ∀ n, x.decoder.ids.lookup n = some t → p.came n)
    (hsited : ∀ n, p.calm n → x.decoder.ids.lookup n = some t → ∀ h, x.decoder.Opened running t h →
      h.Sited x.store ∧ ∀ c, h.cell? = some c → A c)
    (hpicture : ∀ n, p.calm n → x.decoder.ids.lookup n = some t → ∃ j, p.model n =
      some j ∧ Pictured (Drafted p C running x t) (fun h c => A c ∧ ¬ x.decoder.Opened running t h)
      x.store .root j (f (x.decoder.entry t)).draft.value) :
    Portrait p C (fun t' c => D t' c ∨ t' = t ∧ A c) running y := by
  have hself : (y.decoder.entry t).state = .blocked := by rw [M.changed.self, hstate]
  refine P.moves M (fun _ h => h) (fun c hc => .inl hc) (fun t' c h => h.imp_right fun h =>
    ⟨h.1, hfree c h.2⟩) (fun t' c _ h => .inl h) P.ground.region (fun n v _ _ hv =>
      absurd (hstate.symm.trans hv) (by rintro ⟨⟩)) ?_
  obtain ⟨hplaced, hscope, -, hcalm⟩ := P.parts t
  have mine : ∀ {c}, Apart C D x.store t c → Apart C (fun t' c => D t' c ∨ t' =
      t ∧ A c) y.store t c :=
    fun h => M.apart.mpr ⟨h.1, h.2.1, fun t' h' => h'.elim (h.2.2 t') And.left⟩
  refine ⟨fun i h path shape cyclic hs => ?_, fun c hc => ?_, fun n hn _ =>
    hcame n (M.changed.ids ▸ hn), fun n hn hlookup => ?_⟩
  · obtain ⟨-, hpath, hcell⟩ := hplaced i h path shape cyclic (M.stands.mp hs)
    exact ⟨by rw [hself]; rfl, hpath, fun c hc => mine (hcell c hc)⟩
  · refine hc.elim (fun hc => mine (hscope c hc)) fun hc =>
      M.apart.mpr ⟨(hA c hc.2).1, (hA c hc.2).2, fun t' h' => ?_⟩
    by_contra hne
    exact h'.elim (hfree c hc.2 t' hne).1 fun h' => hne h'.1
  · rw [M.changed.ids] at hlookup
    have K := hcalm n hn hlookup
    refine ⟨fun i h path shape cyclic hs => K.counted i h path shape cyclic (M.stands.mp hs),
      fun h => M.openings t h ▸ K.single h, fun _ h ho => ?_, fun _ => ?_, fun w hw =>
        absurd (hself.symm.trans hw) (by rintro ⟨⟩)⟩
    · obtain ⟨hs, hcell⟩ := hsited n hn hlookup h (M.opened.mp ho)
      exact ⟨hs.keeps M.quiet.keeps fun _ _ => trivial, fun c hc => .inr ⟨rfl, hcell c hc⟩⟩
    · obtain ⟨j, hj, hpic⟩ := hpicture n hn hlookup
      refine ⟨j, hj, ?_⟩
      rw [M.changed.self]
      refine hpic.mono (Q := fun _ => True) ⟨fun _ _ _ _ _ _ => trivial, fun h j v _ hleaf => ?_,
        fun h c _ hnode => ?_, fun _ _ _ _ _ hcell => M.quiet.keeps.cell? trivial hcell⟩ trivial
      · rcases hleaf with ⟨text, token, id, path, shape, k, cyclic, rfl, hparse, href, hcalm, hid,
          hs, rfl⟩ | ⟨ho, hset⟩
        · exact .inl ⟨text, token, id, path, shape, k, cyclic, rfl, hparse, href, hcalm,
            M.changed.ids ▸ hid, M.stands.mpr hs, rfl⟩
        · exact .inr ⟨fun h' => ho (M.opened.mp h'), hset.later P.ground (M.later C) fun _ h => h⟩
      · exact ⟨.inr ⟨rfl, hnode.1⟩, fun h' => hnode.2 (M.opened.mp h')⟩

end Changed

end GraphRows
