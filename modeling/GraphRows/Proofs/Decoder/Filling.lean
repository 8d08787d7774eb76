import GraphRows.Proofs.Decoder.Faithful

/-!
# Holes are filled as their references say

A watcher that runs for a hole puts into it what the reference leads to by now. In the draft of a
calm row every hole has one watcher, which counts; so when it has run the place is finished, and
when all have run the row is. What is drawn for other rows may have its holes filled in any order
and any number of times: it never touches what is drawn for a calm row.

## Main results

* `Portrait.fill`: a hole is filled, and its watcher is gone
* `DecodeM.runWatchers_painted`: every watcher runs
-/

namespace GraphRows

open Decoder

variable {k : Nat} {w : Watcher}

/-! ### Filling -/

namespace Store

variable {s : Store} {h : Hole} {v : Value}

/-- Filling a hole writes to its cell, if at all. -/
theorem fill_eq (s : Store) (h : Hole) (v : Value) :
    s.fill h v = s ∨ ∃ c old cell, h.cell? = some c ∧
      (s.cell? c = some old ∧ ∀ p, old ≠ .promise p) ∧ s.fill h v = s.write c cell := by
  unfold fill
  split
  · exact .inl rfl
  · split
    · rename_i hcell
      exact .inr ⟨_, _, _, rfl, ⟨hcell, fun _ h => by cases h⟩, rfl⟩
    · exact .inl rfl
  · split
    · rename_i hcell
      exact .inr ⟨_, _, _, rfl, ⟨hcell, fun _ h => by cases h⟩, rfl⟩
    · exact .inl rfl

theorem keeps_fill {K : CellId → Prop} (hK : ∀ c, h.cell? = some c → ¬ K c) :
    s.Keeps K (s.fill h v) := by
  obtain heq | ⟨c, _, cell, hc, -, heq⟩ := s.fill_eq h v <;> rw [heq]
  · exact .refl K s
  · exact keeps_write (hK c hc) cell

theorem stays_fill {K : CellId → Prop} : s.Stays K (s.fill h v) := by
  obtain heq | ⟨c, _, cell, -, ⟨hcell, hold⟩, heq⟩ := s.fill_eq h v <;> rw [heq]
  · exact fun _ _ _ h => h
  · exact stays_write_of_cell? hcell hold cell

theorem size_fill : (s.fill h v).cells.size = s.cells.size := by
  obtain heq | ⟨c, _, cell, -, -, heq⟩ := s.fill_eq h v <;> rw [heq]
  exact by simp [write]

theorem temporaries_fill : (s.fill h v).temporaries = s.temporaries := by
  obtain heq | ⟨c, _, cell, -, -, heq⟩ := s.fill_eq h v <;> rw [heq]
  rfl

end Store

/-- Holes stay in their places when one is filled. -/
theorem Hole.Sited.fill {s : Store} {h h' : Hole} (hs : h'.Sited s) (v : Value) :
    h'.Sited (s.fill h v) := by
  cases h' with
  | field object key =>
    obtain ⟨fields, hfields, hkey⟩ := hs
    cases h with
    | root => exact ⟨fields, hfields, hkey⟩
    | item array index =>
      rw [Store.fill]
      split
      · rename_i items hitems
        have hne : array ≠ object := by
          rintro rfl
          exact absurd (hitems.symm.trans hfields) (by rintro ⟨⟩)
        exact ⟨fields, (Store.cell?_write_ne _ _ hne).trans hfields, hkey⟩
      · exact ⟨fields, hfields, hkey⟩
    | field object' key' =>
      rw [Store.fill]
      split
      · rename_i fields' hfields'
        by_cases hobject : object' = object
        · subst hobject
          obtain rfl : fields = fields' := by simpa using hfields.symm.trans hfields'
          refine ⟨_, Store.cell?_write_self _ _ (Store.cell?_lt_size hfields), ?_⟩
          rw [Json.map_fst_setField]
          split
          · exact hkey
          · exact List.mem_append_left _ hkey
        · exact ⟨fields, (Store.cell?_write_ne _ _ hobject).trans hfields, hkey⟩
      · exact ⟨fields, hfields, hkey⟩
  | _ => trivial

variable {p : Script} {C : CellId → Prop} {D : Nat → CellId → Prop} {rest : List (Nat × Watcher)}
  {x y : Decoding} {i t : Nat} {h : Hole} {path : List String} {shape : Shape} {cyclic : Bool}

/-! ### Watchers that are gone -/

theorem stands_of_cons {d : Decoder} {w' : Watcher} (hs : d.Stands rest k w') :
    d.Stands ((i, w) :: rest) k w' := hs.imp_right (List.mem_cons_of_mem _)

theorem stands_cons {d : Decoder} {w' : Watcher} (hs : d.Stands ((i, w) :: rest) k w') :
    (k, w') = (i, w) ∨ d.Stands rest k w' := by
  rcases hs with hs | hs
  · exact .inr (.inl hs)
  · exact (List.mem_cons.mp hs).imp_right .inr

theorem openings_cons (d : Decoder) (w : Watcher) (t : Nat) (h : Hole) :
    d.openings ((i, w) :: rest) t h = d.openings rest t h + if w.isAt t h then 1 else 0 := by
  rw [openings, openings, List.countP_cons, Nat.add_assoc]

/-- **A watcher is gone** that was of no use to a calm row. -/
theorem Portrait.consume (P : Portrait p C D ((i, w) :: rest) x)
    (hidle : ∀ n t h, w.isAt t h → p.calm n → x.decoder.ids.lookup n =
      some t → (x.decoder.entry t).state ≠ .blocked) : Portrait p C D rest x := by
  refine P.frame (E := fun t => ∃ h, w.isAt t h) ⟨.refl _ _, Nat.le_refl _, fun _ _ => rfl,
    fun _ _ _ _ _ => ⟨rfl, rfl⟩,
    fun _ _ => .inl, fun k t h path shape cyclic ht => ⟨stands_of_cons, fun hs => ?_⟩, fun t h ht =>
      ?_, fun _ h => h,
    fun _ => .inl, fun _ _ => .inl, fun _ _ _ h => h⟩ P.ground ?_
  · refine (stands_cons hs).resolve_left fun heq => ht ⟨h, ?_⟩
    cases heq
    exact Watcher.isAt_iff.mpr ⟨path, shape, cyclic, rfl⟩
  · rw [openings_cons, if_neg fun hat => ht ⟨h, hat⟩, Nat.add_zero]
  · rintro t ⟨h, hat⟩
    obtain ⟨hplaced, hscope, hcame, hcalm⟩ := P.parts t
    refine ⟨fun k h path shape cyclic hs => hplaced k h path shape cyclic (stands_of_cons hs),
      hscope, hcame, fun n hn hlookup => ?_⟩
    have K := hcalm n hn hlookup
    have hstate := hidle n t h hat hn hlookup
    refine ⟨fun k h path shape cyclic hs => K.counted k h path shape cyclic (stands_of_cons hs),
      fun h => ?_, fun hb => absurd hb hstate, fun hb => absurd hb hstate, K.fulfilled⟩
    exact Nat.le_trans (openings_cons x.decoder w t h ▸ Nat.le_add_right _ _) (K.single h)

/-- A hole of a calm row is watched once. -/
theorem Calm.eq_of_stands {n : Nat} {path' : List String} {shape' : Shape} {cyclic' : Bool}
    (K : Calm p C D ((i, .hole t h path shape cyclic) :: rest) x n t)
    (hs : x.decoder.Stands ((i, .hole t h path shape cyclic) :: rest) k
      (.hole t h path' shape' cyclic')) : k = i ∧ path' = path ∧ shape' = shape := by
  rcases stands_cons hs with heq | hs
  · cases heq
    exact ⟨rfl, rfl, rfl⟩
  · have hpos := openings_pos (opened_iff.mpr ⟨k, path', shape', cyclic', hs⟩)
    have hsingle := K.single h
    rw [openings_cons, if_pos (Watcher.isAt_iff.mpr ⟨path, shape, cyclic, rfl⟩)] at hsingle
    omega

/-- What an entry becomes when a hole of its draft is filled: one that counts counts no more. -/
def Entry.filled (h : Hole) (v : Value) (cyclic : Bool) (e : Entry) : Entry :=
  { e with draft := { e.draft with
      value := h.put v .root e.draft.value
      holes := bif cyclic then e.draft.holes else e.draft.holes - 1 } }

/-- A hole in the draft of `t` is filled. -/
structure Puts (t : Nat) (h : Hole) (v : Value) (cyclic : Bool) (x y : Decoding) : Prop where
  changed : Changed x.decoder y.decoder t (Entry.filled h v cyclic)
  options : y.decoder.options = x.decoder.options
  derived : y.decoder.derived = x.decoder.derived
  store : y.store = x.store.fill h v

theorem Puts.state {v : Value} (M : Puts t h v cyclic x y) (k : Nat) :
    (y.decoder.entry k).state = (x.decoder.entry k).state :=
  M.changed.field (·.state) rfl k

theorem Puts.watchers {v : Value} (M : Puts t h v cyclic x y) (k : Nat) :
    (y.decoder.entry k).watchers = (x.decoder.entry k).watchers :=
  M.changed.field (·.watchers) rfl k

theorem Puts.later {v : Value} (M : Puts t h v cyclic x y) {K : CellId → Prop}
    (hK : ∀ c, h.cell? = some c → ¬ K c) : Later K x y :=
  ⟨M.options, fun _ _ hk => M.changed.ids ▸ hk, fun k _ hw => (M.state k).trans hw,
    fun k _ => M.changed.field (·.handle) rfl k, fun _ _ hw => M.derived ▸ hw,
    M.store ▸ Store.keeps_fill hK⟩

/-- **A hole is filled, and its watcher is gone.** If the row is calm, the value is what the
reference leads to. -/
theorem Portrait.fill {v : Value}
    (P : Portrait p C D ((i, .hole t h path shape cyclic) :: rest) x)
    (hdistinct : ∀ n j, p.model n = some j → j.Distinct) (M : Puts t h v cyclic x y)
    (hlead : ∀ n, p.calm n → x.decoder.ids.lookup n = some t → i ≠ t ∧ ∀ id,
      p.calm id → x.decoder.ids.lookup id = some i → x.decoder.Leads x.store id path shape v ∧
      v.Inside C) : Portrait p C D rest y := by
  have hstand : x.decoder.Stands ((i, .hole t h path shape cyclic) :: rest) i
      (.hole t h path shape cyclic) :=
    .inr List.mem_cons_self
  have hopen : x.decoder.Opened ((i, .hole t h path shape cyclic) :: rest) t h :=
    opened_iff.mpr ⟨i, path, shape, cyclic, hstand⟩
  obtain ⟨hplaced, hscope, hcame, hcalm⟩ := P.parts t
  have hcell := (hplaced _ _ _ _ _ hstand).2.2
  have state := M.state
  have before : ∀ {k w}, y.decoder.Stands rest k w →
      x.decoder.Stands ((i, .hole t h path shape cyclic) :: rest) k w :=
    fun hs => stands_of_cons ((stands_congr M.watchers).mp hs)
  have after : ∀ {k t' h' path' shape' cyclic'}, (t' = t → h' ≠ h) →
      x.decoder.Stands ((i, .hole t h path shape cyclic) :: rest) k
        (.hole t' h' path' shape' cyclic') →
      y.decoder.Stands rest k (.hole t' h' path' shape' cyclic') := fun hne hs => by
    refine (stands_congr M.watchers).mpr ((stands_cons hs).resolve_left fun heq => ?_)
    cases heq
    exact hne rfl rfl
  have opened : ∀ {h'}, y.decoder.Opened rest t h' →
      x.decoder.Opened ((i, .hole t h path shape cyclic) :: rest) t h' := by
    intro h' ho
    obtain ⟨k, path', shape', cyclic', hs⟩ := opened_iff.mp ho
    exact opened_iff.mpr ⟨k, path', shape', cyclic', before hs⟩
  have hopenings : ∀ t' h', x.decoder.openings ((i, .hole t h path shape cyclic) :: rest) t' h' =
      y.decoder.openings rest t' h' + if (Watcher.hole t h path shape cyclic).isAt t'
        h' then 1 else 0 := fun t' h' => by
    rw [openings_cons, openings, openings, tally_congr M.changed.size M.watchers]
  have LC : Later C x y := M.later fun c hc => (hcell c hc).2.1
  have hsize : y.store.cells.size = x.store.cells.size := M.store ▸ Store.size_fill
  have apart : ∀ {t' c}, Apart C D x.store t' c → Apart C D y.store t' c :=
    fun h => by rwa [Apart, hsize]
  have G : Ground p C y := by
    refine P.ground.restate LC (fun _ h => h) (P.ground.region.keeps LC.keeps)
      (M.store ▸ Store.stays_fill) M.changed.size M.changed.ids M.derived state ?_
    intro set id w hw
    rw [Store.temporary?, Store.temporarySet, M.store, Store.temporaries_fill] at hw
    exact P.ground.temporaries set id w hw
  refine P.frame (E := (· = t)) ⟨M.later fun c hc => ?_, Nat.le_of_eq hsize.symm,
    fun k _ => by rw [state], fun n k _ _ hk => ?_,
    fun n k hk => .inl (M.changed.ids ▸ hk), fun k t' h' path' shape' cyclic' ht =>
      ⟨before, after fun h => absurd h ht⟩,
    fun t' h' ht => ?_, fun _ h => h, fun _ => .inl, fun _ _ => .inl, fun _ _ _ h => h⟩ G ?_
  · obtain ⟨-, hC, hD⟩ := hcell c hc
    rintro (h | ⟨t', ht', -, h⟩)
    · exact hC h
    · exact ht' (hD t' h)
  · rw [M.changed.other hk]
    exact ⟨rfl, rfl⟩
  · rw [hopenings, if_neg fun hat => ?_, Nat.add_zero]
    obtain ⟨_, _, _, hw⟩ := Watcher.isAt_iff.mp hat
    cases hw
    exact ht rfl
  rintro _ rfl
  refine ⟨fun k h' path' shape' cyclic' hs => ?_, fun c hc => apart (hscope c hc), fun n hn hp =>
    ?_, fun n hn hlookup => ?_⟩
  · obtain ⟨hp, hpath, hcell⟩ := hplaced k h' path' shape' cyclic' (before hs)
    exact ⟨by rw [state, hp], hpath, fun c hc => apart (hcell c hc)⟩
  · exact hcame n (M.changed.ids ▸ hn) (state _ ▸ hp)
  rw [M.changed.ids] at hlookup
  have K := hcalm n hn hlookup
  obtain ⟨hne, hlead⟩ := hlead n hn hlookup
  have settled : ∀ {j u}, Settled p C x j u → Settled p C y j u :=
    fun h => h.later P.ground LC fun _ h => h
  refine ⟨fun k h' path' shape' cyclic' hs => K.counted k h' path' shape' cyclic' (before hs),
    fun h' => ?_, fun hb h' ho => ?_, fun hb => ?_, fun w hw j hj => ?_⟩
  · exact Nat.le_trans (hopenings _ h' ▸ Nat.le_add_right _ _) (K.single h')
  · obtain ⟨hsited, hD⟩ := K.sited (state _ ▸ hb) h' (opened ho)
    exact ⟨M.store ▸ hsited.fill v, hD⟩
  · obtain ⟨j, hj, hpic⟩ := K.blocked (state _ ▸ hb)
    refine ⟨j, hj, ?_⟩
    rw [M.changed.self, M.store]
    refine Pictured.fill (⟨(K.sited (state _ ▸ hb) h hopen).1, fun h' j u hh hleaf => ?_,
      fun j u hleaf => ?_, fun h' c hc => ⟨?_, hc.1, fun ho => hc.2 (opened ho)⟩⟩ : Fills h v _
        (Drafted p C rest y _) _ _ _) (hdistinct n j hj) hpic
    · rcases hleaf with ⟨text, token, id, path', shape', k, cyclic', rfl, hparse, href, hcalm, hid,
        hs, rfl⟩ | ⟨ho, hset⟩
      · exact .inl ⟨text, token, id, path', shape', k, cyclic', rfl, hparse, href, hcalm,
          LC.ids id k hid, after (fun _ => hh) hs, rfl⟩
      · exact .inr ⟨fun h' => ho (opened h'), settled hset⟩
    · rcases hleaf with ⟨text, token, id, path', shape', k, cyclic', rfl, hparse, href, hgoal, hid,
        hs, rfl⟩ | ⟨ho, -⟩
      · obtain ⟨rfl, rfl, rfl⟩ := K.eq_of_stands hs
        have hid' : p.calm id := hgoal.resolve_right hne
        obtain ⟨hleads, hinside⟩ := hlead id hid' hid
        refine .inr ⟨fun ho => ?_, ⟨token, hparse, ?_⟩, hinside, fun m hm => ?_⟩
        · have hsingle := K.single h
          have hpos := openings_pos ho
          rw [hopenings, if_pos (Watcher.isAt_iff.mpr ⟨_, _, _, rfl⟩)] at hsingle
          omega
        · exact (Token.means_of_reference? href).mpr (hleads.later P.ground LC hid' hinside)
        · obtain ⟨token', path', shape', hparse', href'⟩ := exists_token_of_mem_referents hm
          obtain rfl := Except.ok.inj (hparse.symm.trans hparse')
          rw [href] at href'
          cases href'
          exact hid'
      · exact absurd hopen ho
    · rintro rfl
      exact hc.2 hopen
  · refine (K.fulfilled w (state _ ▸ hw) j hj).mono (Q := fun _ => True)
      ⟨fun _ _ _ _ _ _ => trivial, fun _ _ _ _ hleaf => settled hleaf,
      fun _ _ _ hc => hc, fun _ _ _ hc cell hcell => LC.keeps.cell? hc hcell⟩ trivial

/-! ### Running a watcher -/

/-- A draft changes, but not its value. -/
theorem Portrait.redraft {running : List (Nat × Watcher)} {f : Entry → Entry}
    (P : Portrait p C D running x) (M : Moves t f x y)
    (hstate : (f (x.decoder.entry t)).state = (x.decoder.entry t).state)
    (hvalue : (f (x.decoder.entry t)).draft.value = (x.decoder.entry t).draft.value) :
    Portrait p C D running y := by
  have state := M.changed.field (·.state) hstate
  refine P.frame (E := fun _ => False) ⟨M.later _, Nat.le_of_eq M.quiet.size.symm,
    fun k _ => by rw [state],
    fun n k _ _ _ => ⟨state k, M.changed.field (·.draft.value) hvalue k⟩, fun n k hk =>
      .inl (M.changed.ids ▸ hk),
    fun k t' h' path' shape' cyclic' _ => M.stands, fun t' h' _ => M.openings t' h', fun _ h => h,
      fun _ => .inl, fun _ _ => .inl,
    fun _ _ _ h => h⟩ (M.ground P.ground (fun _ h => h) P.ground.region
      fun n v hn hlookup hv => ?_) (by rintro _ ⟨⟩)
  exact P.ground.values n t v hn hlookup (hstate ▸ hv)

namespace DecodeM

variable {a : Affairs}

/-- **An entry fails** because a hole of it cannot be filled. -/
theorem fail_painted (ha : a.running = (i, .hole t h path shape cyclic) :: rest) (r : Rejection) :
    Ensures (fun x => Tidy a x.decoder ∧ Painted p ((i, .hole t h path shape cyclic) :: rest) x)
      (do
        modifyDecoder (·.modifyDraft t ({ · with failed := true }))
        settleEntry t (.error r))
      fun _ => Painted p rest := by
  rintro x ⟨T, C, D, P⟩
  have ht : t < x.decoder.entries.size := T.waits.taken_lt (ha ▸ List.mem_cons_self) rfl
  let y : Decoding := { x with decoder := x.decoder.modifyDraft t ({ · with failed := true }) }
  have M : Moves t (fun e => { e with draft := { e.draft with failed := true } }) x y :=
    moves_modifyEntry ht (fun _ => rfl) (fun _ => rfl) rfl
  have hstate : (y.decoder.entry t).state = (x.decoder.entry t).state :=
    M.changed.field (·.state) rfl t
  change Painted p rest (settleEntry t (.error r) y).2
  cases hterminal : (x.decoder.entry t).state.isTerminal with
  | true =>
    rw [settleEntry_of_terminal (by rw [hstate, hterminal])]
    refine ⟨C, D, (P.redraft M rfl rfl).consume fun n t' h' hat _ _ hb => ?_⟩
    obtain ⟨_, _, _, hw⟩ := Watcher.isAt_iff.mp hat
    cases hw
    rw [← hstate, hb] at hterminal
    cases hterminal
  | false =>
    have M' := settleEntry_moves (x := y) (M.changed.size ▸ ht)
      (by rw [hstate, hterminal]) (.error r)
    have hpending := ((P.parts t).placed i h path shape cyclic (.inr List.mem_cons_self)).1
    have P' := P.idle (M.trans M') (.inr ⟨r, rfl⟩) fun n hn => (P.parts t).came n hn hpending
    refine ⟨C, D, P'.consume fun n t' h' hat _ _ hb => ?_⟩
    obtain ⟨_, _, _, hw⟩ := Watcher.isAt_iff.mp hat
    cases hw
    rw [(M.trans M').changed.self] at hb
    cases hb

/-- **The last hole is filled**, and the entry is fulfilled with its draft. -/
theorem finish_painted (P : Portrait p C D rest x)
    (hdistinct : ∀ n n', x.decoder.ids.lookup n = some t → x.decoder.ids.lookup n' =
      some t → n = n')
    (hstate : (x.decoder.entry t).state = .blocked)
    (hnone : x.decoder.outstanding t + rest.countP (Watcher.counts t ·.2) = 0) :
    Painted p rest (settleEntry t (.ok (x.decoder.entry t).draft.value) x).2 := by
  have ht : t < x.decoder.entries.size := lt_size_of_not_isPending _ (by rw [hstate]; rfl)
  have M := settleEntry_moves ht (by rw [hstate]; rfl) (.ok (x.decoder.entry t).draft.value)
  refine P.finish M rfl hdistinct (fun n hn => (P.parts t).came n hn (by rw [hstate]; rfl))
    (A := fun h c => D t c ∧ ¬ x.decoder.Opened rest t h) (fun h c hc => P.free_of_draft hc.1)
    (fun n hn hlookup => ?_)
    fun n hn hlookup => ((P.parts t).calm n hn hlookup).blocked hstate
  exact ((P.parts t).calm n hn hlookup).not_opened hnone

/-- **What filling a hole comes to**, when the value is there: with the last hole that counts the
entry is fulfilled. -/
theorem put_elim {Q : Decoding → Prop} {v : Value} (ht : t < x.decoder.entries.size)
    (hput : ∀ y, Puts t h v cyclic x y → Q y ∧ (cyclic = false →
      (y.decoder.entry t).state = .blocked → (y.decoder.entry t).draft.holes = 0 →
      Q (settleEntry t (.ok (y.decoder.entry t).draft.value) y).2)) :
    Q ((do
        if h == .root then modifyDecoder (·.modifyDraft t ({ · with value := v }))
        modifyStore (·.fill h v)
        if !cyclic then
          modifyDecoder (·.modifyDraft t fun t => { t with holes := t.holes - 1 })
          let e := (← decoder).entry t
          if e.draft.holes == 0 && e.state.isBlocked then
            settleEntry t (.ok e.draft.value) : DecodeM Unit) x).2 := by
  have put : ∀ y : Decoding, y.store = x.store → y.decoder.options = x.decoder.options →
      y.decoder.derived = x.decoder.derived →
      Changed x.decoder y.decoder t (fun e =>
        { e with draft := { e.draft with value := h.put v .root e.draft.value } }) →
      Q ((do
        modifyStore (·.fill h v)
        if !cyclic then
          modifyDecoder (·.modifyDraft t fun t => { t with holes := t.holes - 1 })
          let e := (← decoder).entry t
          if e.draft.holes == 0 && e.state.isBlocked then
            settleEntry t (.ok e.draft.value) : DecodeM Unit) y).2 := by
    intro y hstore hoptions hderived hchanged
    cases cyclic with
    | true =>
      exact (hput ⟨y.decoder, y.store.fill h v⟩ ⟨hchanged, hoptions, hderived, by rw [hstore]⟩).1
    | false =>
      let z : Decoding := ⟨y.decoder.modifyDraft t fun t => { t with holes := t.holes - 1 },
        y.store.fill h v⟩
      have M : Puts t h v false x z := ⟨hchanged.trans
        (changed_modifyEntry (hchanged.size ▸ ht) _), hoptions, hderived, by rw [← hstore]⟩
      change Q ((if ((z.decoder.entry t).draft.holes == 0 &&
        (z.decoder.entry t).state.isBlocked) = true then
          settleEntry t (.ok (z.decoder.entry t).draft.value) else pure ()) z).2
      split
      · rename_i hlast
        rw [Bool.and_eq_true, beq_iff_eq] at hlast
        refine (hput z M).2 rfl ?_ hlast.1
        cases hs : (z.decoder.entry t).state <;> simp [hs, EntryState.isBlocked] at hlast ⊢
      · exact (hput z M).1
  dsimp only
  split
  · rename_i hroot
    obtain rfl : h = .root := eq_of_beq hroot
    refine put { x with decoder := x.decoder.modifyDraft t ({ · with value := v }) } rfl rfl rfl ?_
    simp only [Hole.put_self]
    exact changed_modifyEntry ht _
  · rename_i hroot
    have hne : Hole.root ≠ h := fun heq => hroot (beq_iff_eq.mpr heq.symm)
    refine put x rfl rfl rfl ⟨rfl, rfl, rfl, rfl, fun k => ?_⟩
    simp only [Hole.put_of_ne hne, ite_self]

/-- What a hole waited for is looked up. -/
theorem resolve_painted {w : Value} (T : Tidy a x.decoder)
    (P : Portrait p C D ((i, .hole t h path shape cyclic) :: rest) x)
    (hw : (x.decoder.entry i).state = .fulfilled w)
    (hopen : cyclic = false → (x.decoder.entry t).state.isTerminal = false) :
    Ensures (· = x) (resolve i w path shape) fun r y => ∃ C', Tidy a y.decoder ∧
      Aside (fun _ => True) C C' x y ∧
      Portrait p C' D ((i, .hole t h path shape cyclic) :: rest) y ∧
      ∀ v, r = .ok v → ∀ n, p.calm n → y.decoder.ids.lookup n = some t → i ≠ t ∧ ∀ id, p.calm id →
        y.decoder.ids.lookup id = some i → y.decoder.Leads y.store id path shape v ∧
        v.Inside C' := by
  have hpath := ((P.parts t).placed i h path shape cyclic (.inr List.mem_cons_self)).2.1
  rintro _ rfl
  obtain ⟨⟨C', G, A, hlead⟩, T'⟩ := ((resolve_aside P.ground hw hpath).and
    (resolve_ensures (P := Tidy a) (fun d derived T =>
      ⟨T.orderly.congr rfl rfl rfl rfl rfl, T.waits.congr rfl rfl rfl⟩)
      i w path shape)) _ ⟨rfl, T⟩
  have P' := P.aside A (fun _ _ => trivial) G
  refine ⟨C', T', A, P', fun v hv n hn hlookup => ?_⟩
  have hcounted := ((P'.parts t).calm n hn hlookup).counted i h path shape cyclic
    (.inr List.mem_cons_self)
  refine ⟨?_, fun id hid hid' => hlead v id hv hid ?_⟩
  · rintro rfl
    have := hopen hcounted
    rw [hw] at this
    cases this
  · exact (A.names id i hid').resolve_right
      (Nat.not_le.mpr (lt_size_of_isTerminal _ (by rw [hw]; rfl)))

/-- **A hole is filled, or its entry fails with it.** -/
theorem fillHole_painted (ha : a.running = (i, .hole t h path shape cyclic) :: rest)
    (F : p.Fits a.refers) :
    Ensures (fun x => Tidy a x.decoder ∧ Painted p ((i, .hole t h path shape cyclic) :: rest) x)
      (fillHole i t h path shape cyclic) fun _ => Painted p rest := by
  unfold fillHole
  refine .bind .decoder fun d => .bind .decoder fun d' => ?_
  dsimp only
  split
  · exact (fail_painted ha _).pre fun x hx => hx.1.1
  · rename_i w hready hw
    rintro x ⟨⟨⟨T, C, D, P⟩, rfl⟩, rfl⟩
    have hopen : cyclic = false → (x.decoder.entry t).state.isTerminal = false := fun h => by
      simpa [h] using (Bool.and_eq_true_iff.mp hready).2
    refine (Ensures.bind (R := fun _ => Painted p rest) (resolve_painted T P hw hopen)
      fun r => ?_) x rfl
    rintro y ⟨C', T', A, P', hlead⟩
    cases r with
    | error r => exact fail_painted ha r y ⟨T', C', D, P'⟩
    | ok v =>
      refine put_elim (T'.waits.taken_lt (ha ▸ List.mem_cons_self) rfl) fun z M => ?_
      have Q := P'.fill F.distinct M (hlead v rfl)
      refine ⟨⟨C', D, Q⟩, fun hcyclic hstate hnone => finish_painted Q (fun n n' hn hn' =>
        T'.orderly.distinct n n' t (M.changed.ids ▸ hn) (M.changed.ids ▸ hn')) hstate ?_⟩
      subst hcyclic
      have hholes := T'.waits.holes t (by rw [A.state, hopen rfl])
      have hcounts : (Watcher.hole t h path shape false).counts t := beq_self_eq_true t
      have hout : z.decoder.outstanding t = y.decoder.outstanding t :=
        outstanding_congr M.changed.size M.watchers t
      have hz : (z.decoder.entry t).draft.holes = (y.decoder.entry t).draft.holes - 1 :=
        congrArg (·.draft.holes) M.changed.self
      rw [ha, List.countP_cons, if_pos hcounts] at hholes
      omega
  · rename_i hrejected hfulfilled
    refine .pure ?_
    rintro x ⟨⟨⟨T, C, D, P⟩, rfl⟩, rfl⟩
    refine ⟨C, D, P.consume fun n t' h' hat hn hlookup hb => ?_⟩
    obtain ⟨_, _, _, hw⟩ := Watcher.isAt_iff.mp hat
    cases hw
    -- a blocked entry has not failed, so a watcher of it is not passed over
    have hready : (!(x.decoder.entry t).draft.failed &&
        (cyclic || !(x.decoder.entry t).state.isTerminal)) = true := by
      have hfailed : (x.decoder.entry t).draft.failed = false := by
        refine Bool.eq_false_iff.mpr fun hf => ?_
        have := T.waits.failed t hf
        rw [hb] at this
        cases this
      rw [hfailed, hb]
      exact Bool.or_true cyclic
    have hterminal := (T.waits.taken _ (ha ▸ List.mem_cons_self)).1
    cases hstate : (x.decoder.entry i).state with
    | fulfilled v => exact hfulfilled v hready hstate
    | rejected r => exact hrejected r hready hstate
    | _ => simp [hstate, EntryState.isTerminal] at hterminal

/-- One watcher runs. -/
theorem runWatcher_painted (ha : a.running = (i, w) :: rest) (F : p.Fits a.refers) :
    Ensures (fun x => Tidy a x.decoder ∧ Painted p ((i, w) :: rest) x) (runWatcher i w) fun _ =>
      Painted p rest := by
  cases w with
  | hole target place path shape cyclic => exact fillHole_painted ha F
  | stream id =>
    refine (deliver_painted id).pre ?_
    rintro x ⟨-, C, D, P⟩
    exact ⟨C, D, P.consume fun n t h hat => by cases hat⟩

/-- The watchers of an entry are taken off, and are about to run. -/
theorem takeOff_painted {left : List Nat} (hk : k < x.decoder.entries.size) (h : Painted p [] x) :
    Painted p ((x.decoder.entry k).watchers.map (k, ·)) ⟨takeOff x.decoder k left, x.store⟩ := by
  obtain ⟨C, D, P⟩ := h
  have hchanged := changed_takeOff hk left
  have hstate := hchanged.field (·.state) rfl
  have L : ∀ K, Later K x ⟨takeOff x.decoder k left, x.store⟩ := fun K =>
    ⟨rfl, fun _ _ h => h, fun j v hv => (hstate j).trans hv, fun j _ => hchanged.field (·.handle)
      rfl j, fun _ _ h => h, .refl K _⟩
  refine ⟨C, D, P.frame (E := fun _ => False) ⟨L _, Nat.le_refl _, fun j _ => by rw [hstate],
    fun n j _ _ _ => ⟨hstate j, hchanged.field (·.draft.value) rfl j⟩, fun _ _ => .inl,
      fun j t h path shape cyclic _ => ?_,
    fun t h _ => ?_, fun _ h => h, fun _ => .inl, fun _ _ => .inl, fun _ _ _ h => h⟩
    (P.ground.restate (L C) (fun _ h => h) P.ground.region (fun _ _ _ h => h) hchanged.size rfl rfl
      hstate P.ground.temporaries) (by rintro _ ⟨⟩)⟩
  · rw [Stands, Stands, hchanged.entry]
    by_cases hj : k = j
    · subst hj
      simp
    · simp [hj]
  · have htally := tally_changed hchanged hk (Watcher.isAt t h)
    simp only [List.countP_nil, Nat.add_zero] at htally
    rw [openings, openings, List.countP_map, List.countP_nil, Nat.add_zero]
    exact htally

/-- **One turn.** -/
theorem turn_painted (hloose : a.loose = none) (hrunning : a.running = []) (F : p.Fits a.refers)
    {left : List Nat} (T : Tidy a x.decoder) (hwake : x.decoder.wake = k :: left)
    (h : Painted p [] x) : Painted p [] (turn k left x).2 := by
  have hk := lt_size_of_isTerminal _ (T.waits.wake k (hwake ▸ List.mem_cons_self))
  let I : List Watcher → Decoding → Prop := fun ws y =>
    Tidy { a with running := ws.map (k, ·) } y.decoder ∧ Painted p (ws.map (k, ·)) y
  have loop : Ensures (I (x.decoder.entry k).watchers)
      ((x.decoder.entry k).watchers.forM (runWatcher k)) fun _ => I [] := by
    refine Ensures.forM (I := I) (fun w rest' y hy => ?_) _
    exact ⟨runWatcher_ensures (a := { a with running := (k, w) :: rest'.map (k, ·) })
      hloose rfl y hy.1, runWatcher_painted (a := { a with running := (k, w) :: rest'.map (k, ·) })
        rfl F y hy⟩
  exact (loop ⟨takeOff x.decoder k left, x.store⟩
    ⟨takeOff_tidy hrunning T hwake, takeOff_painted hk h⟩).2

/-- **Every watcher runs.** -/
theorem runWatchersWith_painted (hloose : a.loose = none) (hrunning : a.running = [])
    (F : p.Fits a.refers) (fuel : Nat) :
    Ensures (fun x => Tidy a x.decoder ∧ Painted p [] x) (runWatchersWith fuel)
      fun _ => Painted p [] := by
  induction fuel with
  | zero => exact .pure fun x hx => hx.2
  | succ fuel ih =>
    rintro x ⟨T, hx⟩
    cases hwake : x.decoder.wake with
    | nil =>
      rw [runWatchersWith_nil hwake]
      exact hx
    | cons k left =>
      rw [runWatchersWith_cons hwake]
      exact ih _ ⟨(turn_ensures hloose hrunning T hwake).1,
        turn_painted hloose hrunning F T hwake hx⟩

theorem runWatchers_painted (hloose : a.loose = none) (hrunning : a.running = [])
    (F : p.Fits a.refers) :
    Ensures (fun x => Tidy a x.decoder ∧ Painted p [] x) runWatchers fun _ => Painted p [] :=
  .bind .decoder fun _ => (runWatchersWith_painted hloose hrunning F _).pre fun _ hx => hx.1

end DecodeM

end GraphRows
