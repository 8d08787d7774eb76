import GraphRows.Proofs.Decoder.Drawing

/-!
# Rows are drawn as they say

Whatever comes, what a decoder has drawn for calm rows stays as it is and gets finished. Reading a
row draws it; its entry is fulfilled if no hole was left, and then its cells join the region of what
is finished. If holes were left the entry is blocked, and the watchers fill them one by one, with
what the references lead to by then.

## Main results

* `DecodeM.reviveRow_painted`: a model row
* `DecodeM.takeIn_painted`: every kind of row
-/

namespace GraphRows

open Decoder

variable {p : Script} {C C' : CellId → Prop} {D : Nat → CellId → Prop}
  {running : List (Nat × Watcher)} {x y z : Decoding} {t : Nat}
variable {f : Entry → Entry} {o : Outcome} {text : String}

/-- What a decoder has drawn is in order. -/
def Painted (p : Script) (running : List (Nat × Watcher)) (x : Decoding) : Prop :=
  ∃ C D, Portrait p C D running x

/-! ### After reading -/

/-- Nobody else draws in the cells of a row that is read. -/
theorem Draws.free {Q : Hole → Prop} (P : Portrait p C D running x)
    (W : Draws p running t Q C C' x y) {c : CellId} (hc : x.store.cells.size ≤ c) :
    Free D running y (· = t) c := by
  refine fun t' ht => ⟨fun h => absurd (P.lt_size h) (Nat.not_lt.mpr hc),
    fun i h path shape cyclic hs hcell => ?_⟩
  rcases W.stands i t' h path shape cyclic hs with hs | ⟨rfl, -⟩
  · exact absurd (((P.parts t').placed i h path shape cyclic hs).2.2 c hcell).1 (Nat.not_lt.mpr hc)
  · exact ht rfl

/-- **A row was read**, and what was drawn for others stays. -/
theorem Portrait.drawn (P : Portrait p C D running x) (W : Draws p running t (· = .root) C C' x y)
    (G : Ground p C' y) (hstate : (x.decoder.entry t).state = .reviving) :
    Portrait p C' D running y := by
  have ht : t < x.decoder.entries.size := lt_size_of_not_isPending _ (by rw [hstate]; rfl)
  have hstate' : (y.decoder.entry t).state = .reviving := (W.state t).trans hstate
  have hnames : ∀ n, y.decoder.ids.lookup n = some t → x.decoder.ids.lookup n = some t :=
    fun n hn => (W.names n t hn).resolve_right (Nat.not_le.mpr ht)
  have hclear : ∀ {c}, c < x.store.cells.size → ¬ C c → ¬ C' c := fun hlt hC h =>
    (W.fresh _ h).elim hC fun hle => absurd hlt (Nat.not_lt.mpr hle)
  obtain ⟨hplaced, hscope, hcame, hcalm⟩ := P.parts t
  have old : ∀ {c}, Apart C D x.store t c → Apart C' D y.store t c := fun h =>
    ⟨Nat.lt_of_lt_of_le h.1 W.cells, hclear h.1 h.2.1, h.2.2⟩
  refine P.frame (E := (· = t)) ⟨W.later.mono fun _ _ => trivial, W.cells,
    fun i _ => by rw [W.state],
    fun n i _ _ _ => ⟨W.state i, W.value i⟩, W.names, fun i t' h path shape cyclic ht' =>
      ⟨fun hs => ?_, W.kept _ _ _ _ _ _⟩,
    fun t' h ht' => W.openings t' h fun h => absurd h ht', W.grows, fun c hc =>
      (W.fresh c hc).imp_right P.free,
    fun t' c => .inl, fun t' c _ h => h⟩ G ?_
  · exact (W.stands i t' h path shape cyclic hs).resolve_right fun h => ht' h.1
  rintro _ rfl
  refine ⟨fun i h path shape cyclic hs => ⟨by rw [hstate']; rfl, ?_⟩, fun c hc => old (hscope c hc),
    fun n hn _ => hcame n (hnames n hn) (by rw [hstate]; rfl), fun n hn hlookup => ?_⟩
  · rcases W.stands i _ h path shape cyclic hs with hs | ⟨-, hpath, -, hQ, hcell⟩
    · obtain ⟨-, hpath, hcell⟩ := hplaced i h path shape cyclic hs
      exact ⟨hpath, fun c hc => old (hcell c hc)⟩
    · refine ⟨hpath, fun c hc => ⟨(hcell c hc).1, (hcell c hc).2, fun t' hD => ?_⟩⟩
      rcases hQ with rfl | ⟨c', hc', hle⟩
      · cases hc
      · obtain rfl := Option.some.inj (hc.symm.trans hc')
        exact absurd (P.lt_size hD) (Nat.not_lt.mpr hle)
  · have K := hcalm n hn (hnames n hlookup)
    refine ⟨fun i h path shape cyclic hs => ?_, fun h => ?_,
      fun hb => absurd (hstate'.symm.trans hb) (by rintro ⟨⟩),
      fun hb => absurd (hstate'.symm.trans hb) (by rintro ⟨⟩), fun v hv =>
        absurd (hstate'.symm.trans hv) (by rintro ⟨⟩)⟩
    · rcases W.stands i _ h path shape cyclic hs with hs | ⟨-, -, hcyclic, -⟩
      · exact K.counted i h path shape cyclic hs
      · exact hcyclic n hn (hnames n hlookup)
    · by_cases hQ : h = .root ∨ h.Fresh x.store
      · exact W.single h hQ
      · rw [not_or] at hQ
        rw [W.openings _ h fun _ => hQ]
        exact K.single h

/-! ### Settling -/

theorem Moves.trans {g : Entry → Entry} (M : Moves t f x y) (M' : Moves t g y z) :
    Moves t (g ∘ f) x z := by
  have hself := M.changed.self
  refine ⟨M.changed.trans M'.changed, M'.options.trans M.options, M'.derived.trans M.derived,
    M.quiet.trans M'.quiet, ?_, ?_, fun H => M'.handled (M.handled H),
    fun v hv => ?_⟩
  · have h := M'.handle
    rw [hself] at h
    exact h.trans M.handle
  · have h := M'.watchers
    rw [hself] at h
    exact h.trans M.watchers
  · have h := M'.settled v
    rw [hself] at h
    exact h (M.settled v hv)

/-- An entry changes, and the store does not. -/
theorem moves_modifyEntry (ht : t < x.decoder.entries.size) (hhandle : ∀ e, (f e).handle = e.handle)
    (hwatchers : ∀ e, (f e).watchers = e.watchers)
    (houtcome : (f (x.decoder.entry t)).state.outcome? = (x.decoder.entry t).state.outcome?) :
    Moves t f x { x with decoder := x.decoder.modifyEntry t f } := by
  have hchanged := changed_modifyEntry ht f
  refine ⟨hchanged, rfl, rfl, .refl _, hhandle _, hwatchers _, fun H => H.restate hchanged.size
    (fun i _ => ⟨hchanged.field (·.handle) (hhandle _) i,
      hchanged.field (·.state.outcome?) houtcome i⟩) fun _ _ _ h => h,
    fun v hv => EntryState.outcome?_eq_ok ?_⟩
  rw [houtcome, hv]
  rfl

namespace DecodeM

/-- **An open entry settles.** -/
theorem settleEntry_moves {i : Nat} (hi : i < x.decoder.entries.size)
    (hopen : (x.decoder.entry i).state.isTerminal = false) (o : Outcome) :
    Moves i ({ · with state := settledAs o }) x (settleEntry i o x).2 := by
  rw [settleEntry_eq_of_open hopen]
  have hchanged := changed_settle (d := x.decoder) hi (settledAs o)
  refine ⟨hchanged, rfl, rfl, Store.quiet_settle .., rfl, rfl, fun H => ?_, fun v hv => ?_⟩
  · have hpending : (x.decoder.entry i).state.outcome? = none := by
      cases hs : (x.decoder.entry i).state <;>
        simp [hs, EntryState.isTerminal, EntryState.outcome?] at hopen ⊢
    have hpromise := H.promise i hi
    rw [hpending] at hpromise
    have hhandle := hchanged.field (·.handle) rfl
    refine ⟨fun j hj => ?_, fun j hj k hk h => ?_⟩
    · rw [hchanged.size] at hj
      rw [hhandle, Store.settle_of_pending hpromise]
      by_cases hji : j = i
      · subst hji
        rw [hchanged.self, Store.cell?_write_self _ _ (Store.cell?_lt_size hpromise)]
        cases o <;> rfl
      · rw [hchanged.other hji, Store.cell?_write_ne _ _ fun h => hji (H.distinct i hi j hj h).symm]
        exact H.promise j hj
    · rw [hchanged.size] at hj hk
      rw [hhandle, hhandle] at h
      exact H.distinct j hj k hk h
  · rw [hv] at hopen
    cases hopen

end DecodeM

/-- A draft whose holes all count has as many as it says. -/
theorem Calm.not_opened {n : Nat} (K : Calm p C D running x n t)
    (hnone : x.decoder.outstanding t + running.countP (Watcher.counts t ·.2) = 0) (h : Hole) :
    ¬ x.decoder.Opened running t h := by
  intro ho
  obtain ⟨i, path, shape, cyclic, hs⟩ := opened_iff.mp ho
  obtain rfl := K.counted i h path shape cyclic hs
  have hcounts : (Watcher.hole t h path shape false).counts t := by simp [Watcher.counts]
  rcases hs with hs | hs
  · have := tally_pos (p := Watcher.counts t) hs hcounts
    rw [outstanding] at hnone
    omega
  · have : 0 < running.countP (Watcher.counts t ·.2) := List.countP_pos_iff.mpr ⟨_, hs, hcounts⟩
    omega

/-- A picture without holes is finished. -/
theorem Pictured.settled {j : Json} {hole : Hole} {v : Value} {node : Hole → CellId → Prop}
    (ho : ∀ h, ¬ x.decoder.Opened running t h)
    (h : Pictured (Drafted p C running x t) node x.store hole j v) :
    Pictured (fun _ => Settled p C x) node x.store hole j v := by
  refine h.mono (Q := fun _ => True) ⟨fun _ _ _ _ _ _ => trivial, fun k j v _ hleaf => ?_,
    fun _ _ _ h => h, fun _ _ _ _ _ h _ _ => h⟩ trivial
  rcases hleaf with ⟨_, _, _, path, shape, i, cyclic, _, _, _, _, _, hs, _⟩ | ⟨-, hset⟩
  · exact absurd (opened_iff.mpr ⟨i, path, shape, cyclic, hs⟩) (ho k)
  · exact hset

/-- **An entry is fulfilled with what was drawn for it**, in cells that nobody else draws in. -/
theorem Portrait.finish (P : Portrait p C D running x) (M : Moves t f x y) {v : Value}
    (hstate : (f (x.decoder.entry t)).state = .fulfilled v)
    (hdistinct : ∀ n n', x.decoder.ids.lookup n = some t → x.decoder.ids.lookup n' =
      some t → n = n')
    (hcame : ∀ n, x.decoder.ids.lookup n = some t → p.came n) {A : Hole → CellId → Prop}
    (hfree : ∀ h c, A h c → Free D running x (· = t) c)
    (hopen : ∀ n, p.calm n → x.decoder.ids.lookup n = some t → ∀ h, ¬ x.decoder.Opened running t h)
    (hpicture : ∀ n, p.calm n → x.decoder.ids.lookup n = some t → ∃ j, p.model n =
      some j ∧ Pictured (Drafted p C running x t) A x.store .root j v) : Painted p running y := by
  by_cases hcalm : ∃ n, p.calm n ∧ x.decoder.ids.lookup n = some t
  · obtain ⟨n, hn, hlookup⟩ := hcalm
    obtain ⟨j, hj, hpic⟩ := hpicture n hn hlookup
    obtain ⟨A', hA', hclosed, hinside, hpic'⟩ := (hpic.settled (hopen n hn hlookup)).exists_region
      fun _ _ _ h => h.2.1
    refine ⟨_, _, P.fulfil M hstate hclosed (fun c hc => ?_) (fun i h path shape cyclic hs => ?_)
      hcame (fun _ _ _ => hinside) ?_⟩
    · obtain ⟨h, hc⟩ := hA' c hc
      exact hfree h c hc
    · exact absurd (opened_iff.mpr ⟨i, path, shape, cyclic, hs⟩) (hopen n hn hlookup h)
    · intro n' j' hn' hlookup' hj'
      obtain rfl := hdistinct n n' hlookup hlookup'
      obtain rfl := Option.some.inj (hj.symm.trans hj')
      exact hpic'.mono (spares_of_imp fun _ => .inr) trivial
  · refine ⟨_, _, P.fulfil (A := fun _ => False) M hstate (by rintro _ ⟨⟩) (by rintro _ ⟨⟩)
      (fun _ _ _ _ _ _ _ _ => id) hcame
      (fun n hn hlookup => absurd ⟨n, hn, hlookup⟩ hcalm) fun n _ hn hlookup =>
        absurd ⟨n, hn, hlookup⟩ hcalm⟩

namespace DecodeM

variable {a : Affairs} {N : Nat → Prop} {i : Nat}

/-- **A model row is read.** -/
theorem reviveRow_painted (hclosed : a.closed = none) (ha : a.busy = some i)
    (hrunning : a.running = []) (F : p.Fits a.refers)
    (hwanted : ∀ j, Json.read text = .ok j → ∀ n, j.Mentions n → a.wanted n)
    (hspoken : ∀ j, Json.read text = .ok j → ∀ n ∈ j.referents, a.spoken n ∧ ∀ k,
      N k → a.refers k n)
    (hN : ∀ k, N k → a.arrived k) (hcame : ∀ k, N k → p.came k)
    (hmodel : ∀ k, N k → p.calm k → ∀ j, Json.read text = .ok j → p.model k = some j) :
    Ensures (fun x => (Tidy a x.decoder ∧ i < x.decoder.entries.size ∧ (x.decoder.entry i).state =
      .pending ∧
        ∀ k, x.decoder.ids.lookup k = some i → N k) ∧ Painted p [] x)
      (reviveRow i text) fun _ x => Painted p [] x := by
  unfold reviveRow
  split
  · rintro x ⟨⟨T, hi, hstate, hnames⟩, C, D, P⟩
    exact ⟨C, D, P.idle (settleEntry_moves hi (by rw [hstate]; rfl) _) (.inr ⟨_, rfl⟩) fun n hn =>
      hcame n (hnames n hn)⟩
  rename_i j hread
  refine .bind (Q := fun _ z => Reading a N i z.decoder ∧ ∃ C D, Portrait p C D [] z ∧ ∀ h,
    z.decoder.openings [] i h = 0) (.modifyDecoder ?_) fun _ => ?_
  · rintro x ⟨⟨T, hi, hstate, hnames⟩, C, D, P⟩
    have M : Moves i _ x
        { x with decoder := x.decoder.modifyEntry i ({ · with state := .reviving }) } :=
      moves_modifyEntry hi (fun _ => rfl) (fun _ => rfl) (by rw [hstate]; rfl)
    refine ⟨reading_begin ha T hi hstate hnames hN, C, D, P.idle M (.inl rfl) fun n hn =>
      hcame n (hnames n hn), fun h => ?_⟩
    rw [M.openings, (P.parts i).openings_eq_zero (by rw [hstate]; rfl)]
  rintro x ⟨R, C, D, P, hclear⟩
  refine (Ensures.bind (R := fun _ => Painted p [])
    ((revive_draws hclosed F j .root (Json.distinct_of_read hread) (hwanted j hread)
      (hspoken j hread) R P.ground
    (blank_root hclear)).and (revive_ensures hclosed j .root (hwanted j hread) (hspoken j hread)))
      fun r => ?_) x ⟨rfl, R⟩
  have hcame' : ∀ {y : Decoding}, Reading a N i y.decoder → ∀ n, y.decoder.ids.lookup n = some i →
      p.came n :=
    fun R n hn => hcame n (R.names n hn)
  cases r with
  | error r =>
    rintro y ⟨⟨C', G, W, -⟩, R'⟩
    have P' := P.drawn W G R.state
    have M : Moves i (fun e => { e with draft := { e.draft with failed := true } }) y
        { y with decoder := y.decoder.modifyDraft i ({ · with failed := true }) } :=
      moves_modifyEntry R'.lt_size (fun _ => rfl) (fun _ => rfl) rfl
    have M' := settleEntry_moves
      (x := { y with decoder := y.decoder.modifyDraft i ({ · with failed := true }) })
      (M.changed.size ▸ R'.lt_size) (by rw [M.changed.self]; exact R'.state ▸ rfl) (.error r)
    exact ⟨C', D, P'.idle (M.trans M') (.inr ⟨r, rfl⟩) (hcame' R')⟩
  | ok v =>
    rintro y ⟨⟨C', G, W, h⟩, R'⟩
    obtain ⟨O, hpic⟩ := h v rfl
    have P' := P.drawn W G R.state
    have M : Moves i (fun e => { e with draft := { e.draft with value := v } }) y
        { y with decoder := y.decoder.modifyDraft i ({ · with value := v }) } :=
      moves_modifyEntry R'.lt_size (fun _ => rfl) (fun _ => rfl) rfl
    have hgood : ∀ n, p.calm n → y.decoder.ids.lookup n = some i → ∃ j, p.model n = some j ∧
        Pictured (Drafted p C' [] y i) (Inked [] i C' x y) y.store .root j v :=
          fun n hn hlookup => by
      have hN := R'.names n hlookup
      exact ⟨j, hmodel n hN hn j hread, hpic fun m hm =>
        .inl (F.closed n m hn ((hspoken j hread m hm).2 n hN))⟩
    have hheld : ((y.decoder.modifyDraft i ({ · with value := v })).entry i).draft.holes =
        (y.decoder.entry i).draft.holes :=
      congrArg (·.draft.holes) M.changed.self
    change Painted p []
      ((if (((y.decoder.modifyDraft i ({ · with value := v })).entry i).draft.holes == 0) =
          true then
        settleEntry i (.ok v) else modifyDecoder (·.modifyEntry i ({ · with state := .blocked })))
      { y with decoder := y.decoder.modifyDraft i ({ · with value := v }) }).2
    split
    · rename_i hholes
      have M' := settleEntry_moves
        (x := { y with decoder := y.decoder.modifyDraft i ({ · with value := v }) })
        (M.changed.size ▸ R'.lt_size) (by rw [M.changed.self]; exact R'.state ▸ rfl) (.ok v)
      have hzero : (y.decoder.entry i).draft.holes = 0 := hheld ▸ eq_of_beq hholes
      refine P'.finish (M.trans M') rfl (fun n n' => R'.tidy.orderly.distinct n n' i) (hcame' R')
        (fun h c hc => W.free P hc.1) (fun n hn hlookup => ?_) hgood
      refine ((P'.parts i).calm n hn hlookup).not_opened ?_
      rw [← hrunning, ← R'.tidy.waits.holes i (by rw [R'.state]; rfl), hzero]
    · have M' : Moves i ({ · with state := .blocked })
          { y with decoder := y.decoder.modifyDraft i ({ · with value := v }) }
          { y with decoder := (y.decoder.modifyDraft i
            ({ · with value := v })).modifyEntry i ({ · with state := .blocked }) } :=
        moves_modifyEntry (M.changed.size ▸ R'.lt_size) (fun _ => rfl) (fun _ => rfl) (by
          rw [M.changed.self]
          exact R'.state ▸ rfl)
      refine ⟨C', _, P'.block (M.trans M') rfl (A := fun c => x.store.cells.size ≤ c ∧
        c < y.store.cells.size ∧ ¬ C' c)
        (fun c hc => hc.2) (fun c hc => W.free P hc.1) (hcame' R')
          (fun n _ _ h ho => ⟨?_, fun c hc => ?_⟩) fun n hn hlookup => ?_⟩
      · rcases O h ho with ho | rfl | hs
        · exact absurd ho (openings_eq_zero.mp (hclear h))
        · trivial
        · exact hs
      · obtain ⟨k, path, shape, cyclic, hs⟩ := opened_iff.mp ho
        rcases W.stands k i h path shape cyclic hs with hs | ⟨-, -, -, hQ, hcell⟩
        · exact absurd (opened_iff.mpr ⟨k, path, shape, cyclic, hs⟩)
            (openings_eq_zero.mp (hclear h))
        · rcases hQ with rfl | ⟨c', hc', hle⟩
          · cases hc
          · obtain rfl := Option.some.inj (hc.symm.trans hc')
            exact ⟨hle, hcell c hc⟩
      · obtain ⟨j, hj, hpic⟩ := hgood n hn hlookup
        refine ⟨j, hj, hpic.mono (Q := fun _ => True) ⟨fun _ _ _ _ _ _ => trivial, fun _ _ _ _ h =>
          h, fun _ _ _ h => ?_, fun _ _ _ _ _ h _ _ => h⟩ trivial⟩
        exact ⟨⟨h.1, h.2.1, h.2.2.1⟩, h.2.2.2⟩

/-! ### Every kind of row -/

end DecodeM

/-- No row has come for an entry, and `N` are its names. -/
def Decoder.Vacant (d : Decoder) (i : Nat) (N : Nat → Prop) : Prop :=
  i < d.entries.size ∧ (d.entry i).state = .pending ∧ ∀ k, d.ids.lookup k = some i → N k

/-- What a decoder has drawn is in order, and an outcome leads to what is finished. -/
def Offers (p : Script) (running : List (Nat × Watcher)) (o : Outcome) (x : Decoding) : Prop :=
  ∃ C D, Portrait p C D running x ∧ ∀ v, o = .ok v → v.Inside C

theorem Offers.painted (h : Offers p running o x) : Painted p running x :=
  let ⟨C, D, P, _⟩ := h
  ⟨C, D, P⟩

theorem Painted.offers (h : Painted p running x) (ho : ∀ v, o = .ok v → v.Inside fun _ => False) :
    Offers p running o x :=
  let ⟨C, D, P⟩ := h
  ⟨C, D, P, fun v hv => (ho v hv).mono fun _ => False.elim⟩

theorem Offers.quiet (h : Offers p running o x) (S : SameEntries x.decoder y.decoder)
    (Q : x.store.Quiet y.store) (hstays : ∀ C, x.store.Stays C y.store) : Offers p running o y := by
  obtain ⟨C, D, P, ho⟩ := h
  have hkeeps : ∀ K, x.store.Keeps K y.store := fun K => Q.keeps.mono fun _ _ => trivial
  refine ⟨C, D, P.aside (.store S (Nat.le_of_eq Q.size.symm) (hkeeps fun _ => True) (fun _ h => h)
    fun _ => .inl) (fun _ _ => trivial) (P.ground.store S (hkeeps C) (hstays C) (fun _ h => h)
      (P.ground.region.keeps (hkeeps C)) ?_), ho⟩
  intro set id v hv
  rw [Store.temporary?, Store.temporarySet, Q.temporaries] at hv
  exact P.ground.temporaries set id v hv

theorem Painted.quiet (h : Painted p running x) (S : SameEntries x.decoder y.decoder)
    (Q : x.store.Quiet y.store) (hstays : ∀ C, x.store.Stays C y.store) : Painted p running y :=
  ((h.offers (o := .error .aborted) (by rintro _ ⟨⟩)).quiet S Q hstays).painted

/-- A cell without parts is new, and is finished. -/
theorem Painted.alloc (h : Painted p running x) {cell : Cell} (hcell : cell.parts = []) :
    Offers p running (.ok (.cell x.store.cells.size))
      { x with store := (x.store.alloc cell).2 } := by
  obtain ⟨C, D, P⟩ := h
  obtain ⟨-, h⟩ := aside_alloc (y := { x with store := (x.store.alloc cell).2 })
    P.ground rfl (.refl _)
  obtain ⟨G, A⟩ := h (by rw [hcell]; rintro _ ⟨⟩)
  refine ⟨_, D, P.aside A (fun _ _ => trivial) G, fun v hv => ?_⟩
  obtain rfl := Except.ok.inj hv
  exact .inr rfl

namespace DecodeM

variable {α : Type} {m : DecodeM α} {o : Outcome}

/-- What is offered can be offered after a change beside what was drawn. -/
theorem offers_of_aside {I : Decoding → Prop}
    (h : ∀ x C, I x → Ground p C x → Ensures (· = x) m fun _ y => ∃ C',
      Ground p C' y ∧ Aside (fun _ => True) C C' x y) :
    Ensures (fun x => I x ∧ Offers p running o x) m fun _ => Offers p running o := by
  rintro x ⟨hx, C, D, P, ho⟩
  obtain ⟨C', G, A⟩ := h x C hx P.ground x rfl
  exact ⟨C', D, P.aside A (fun _ _ => trivial) G, fun v hv => (ho v hv).mono A.grows⟩

theorem openRow?_offers (id : Nat) :
    Ensures (fun x => x.decoder.closed = none ∧ Offers p running o x) (openRow? id) fun _ =>
      Offers p running o := by
  unfold openRow?
  refine .bind (offers_of_aside fun x C hopen G => (entryOf_aside G hopen id).post fun i y => ?_)
    fun i => .bind .decoder fun d => .pure fun x hx => hx.1
  rintro ⟨C', G', A, -⟩
  exact ⟨C', G', A⟩

/-- **An entry settles with a value that came ready.** -/
theorem settleRow_painted {N : Nat → Prop} {i : Nat}
    (hcame : ∀ k, N k → p.came k ∧ p.model k = none) (o : Outcome) :
    Ensures (fun x => x.decoder.Vacant i N ∧ Offers p running o x)
      (settleEntry i o) fun _ => Painted p running := by
  rintro x ⟨⟨hi, hstate, hnames⟩, C, D, P, ho⟩
  have M := settleEntry_moves hi (by rw [hstate]; rfl) o
  have hcame' : ∀ n, x.decoder.ids.lookup n = some i → p.came n := fun n hn =>
    (hcame n (hnames n hn)).1
  cases o with
  | error r => exact ⟨C, D, P.idle M (.inr ⟨r, rfl⟩) hcame'⟩
  | ok v =>
    refine ⟨_, _, P.fulfil (A := fun _ => False) M rfl (by rintro _ ⟨⟩) (by rintro _ ⟨⟩)
      (fun _ _ _ _ _ _ _ _ => id) hcame'
      (fun n _ _ => (ho v rfl).mono fun _ => .inl) fun n j _ hn hj => ?_⟩
    rw [(hcame n (hnames n hn)).2] at hj
    cases hj

theorem setStream_painted (id : Nat) (st : OpenStream) :
    Ensures (Painted p running) (modifyDecoder (·.setStream id st)) fun _ => Painted p running :=
  .modifyDecoder fun _ hx => hx.quiet ⟨rfl, rfl, rfl, rfl⟩ (.refl _) fun _ _ _ _ h => h

theorem deliverWith_painted (id fuel : Nat) :
    Ensures (Painted p running) (deliverWith fuel id) fun _ => Painted p running := by
  refine (habit_ensures _).deliverWith (setStream_painted id) ?_ (fun _ _ => ?_)
    (fun i => .modifyDecoder ?_) fuel
  · exact .modifyDecoder fun x hx => hx.quiet ⟨rfl, rfl, rfl, rfl⟩ (.refl _) fun _ _ _ _ h => h
  · exact .modifyStore fun x hx => hx.quiet (.refl _) (Store.quiet_push ..) fun C =>
      Store.stays_push C _ _ _
  · rintro x ⟨C, D, P⟩
    obtain ⟨G, A⟩ := aside_listen P.ground i id
    exact ⟨C, D, P.aside A (fun _ _ => trivial) G⟩

theorem deliver_painted (id : Nat) :
    Ensures (Painted p running) (deliver id) fun _ => Painted p running :=
  .read fun _ => deliverWith_painted id _

theorem enqueue_painted (id : Nat) (entry : StreamEntry) :
    Ensures (Painted p running) (enqueue id entry) fun _ => Painted p running :=
  (habit_ensures _).enqueue (setStream_painted id) (deliver_painted id) entry

section Taking

variable {wanted arrived unended spoken : Nat → Prop} {refers : Nat → Nat → Prop}
  {reader : RowReader} {id : Nat}

/-- The entry of an id that no row has come for, if there is one. -/
theorem openRow?_vacant (hwanted : wanted id) :
    Ensures (fun x => Tidy { wanted, arrived, unended, reader, spoken, refers } x.decoder ∧
      Offers p [] o x) (openRow? id)
      fun r x => (∀ i, r = some i → x.decoder.Vacant i (· = id) ∧ ¬ arrived id ∧
        Tidy
          { wanted, arrived := fun k => arrived k ∨ k = id, unended, reader, spoken, refers,
            busy := some i } x.decoder) ∧
        Offers p [] o x := by
  refine (((openRow?_ensures (a := { wanted, arrived, unended, reader, spoken, refers }) rfl
    rfl hwanted).and (openRow?_offers id)).pre fun x hx => ⟨hx.1, hx.1.orderly.alive.1, hx.2⟩).post
      fun r x hx => ⟨?_, hx.2⟩
  rintro i rfl
  obtain ⟨T, hi, hstate, -, hnames, hnew⟩ := hx.1
  exact ⟨⟨hi, hstate, hnames⟩, hnew, T⟩

/-- **What a row says is drawn as it says.** -/
theorem takeIn_painted (F : p.Fits refers) (row : RawRow) (hvalue : row.isValue → wanted row.id)
    (hmentions : ∀ j, row.model? = some j → ∀ n, j.Mentions n → wanted n)
    (hspoken : ∀ j, row.model? = some j → ∀ n ∈ j.referents, spoken n)
    (hrefers : row.isValue → ¬ arrived row.id → ∀ j, row.model? = some j → ∀ n ∈ j.referents,
      refers row.id n)
    (hfirst : row.isValue → ¬ arrived row.id → p.came row.id ∧ p.model row.id = row.model?) :
    Ensures (fun x => Tidy { wanted, arrived, unended, reader, spoken, refers } x.decoder ∧
      Painted p [] x) (takeIn row) fun _ => Painted p [] := by
  -- an entry settles if the row is no model
  have settles : ∀ {i x}, row.sort?.any RowSort.isModel = false → (row.isValue ∧ ¬ arrived row.id) ∧
      x.decoder.Vacant i (· = row.id) → ∀ {o},
      Offers p [] o x → Painted p [] (settleEntry i o x).2 := by
    intro i x hm hx o ho
    refine settleRow_painted (N := (· = row.id)) ?_ o x ⟨hx.2, ho⟩
    rintro _ rfl
    obtain ⟨hcame, hmodel⟩ := hfirst hx.1.1 hx.1.2
    exact ⟨hcame, hmodel.trans (RawRow.model?_eq_none hm)⟩
  refine (Receives.takeIn
    (A := fun o x => Tidy { wanted, arrived, unended, reader, spoken, refers } x.decoder ∧
      Offers p [] (o.getD (.error .aborted)) x)
    (J := fun o i x => (((row.isValue ∧ ¬ arrived row.id) ∧ x.decoder.Vacant i (· = row.id)) ∧
      Tidy
        { wanted, arrived := fun k => arrived k ∨ k = row.id, unended, reader, spoken, refers,
          busy := some i } x.decoder) ∧
      Offers p [] (o.getD (.error .aborted)) x) {
    rest := fun _ x hx _ => hx.2.painted
    text := fun _ x hx => ⟨hx.1, hx.2.painted.offers (by rintro _ ⟨⟩; trivial)⟩
    refused := fun _ r x hx => ⟨hx.1, hx.2.painted.offers (by rintro _ ⟨⟩)⟩
    binary := fun kind data _ _ => .onStore fun x hx => ⟨hx.1, hx.2.painted.alloc rfl⟩
    openRow := fun hv o => ((openRow?_vacant (hvalue hv)).pre fun x hx => hx.1).post fun r x hx =>
      ⟨fun _ => hx.2.painted, fun i hi =>
        ⟨⟨⟨⟨hv, (hx.1 i hi).2.1⟩, (hx.1 i hi).1⟩, (hx.1 i hi).2.2⟩, hx.2⟩⟩
    settle := fun hm i o x hx => settles hm hx.1.1 hx.2
    revive := fun hsort i x hx => ?_
    load := fun hsort i => ?_
    stream := fun kind hsort i => ?_
    item := fun hm e _ _ => ?_
    enqueue := fun _ e _ _ => (enqueue_painted row.id e).pre fun x hx => hx.1.2.painted
    note := fun _ _ => .modifyStore fun x hx =>
      ⟨hx.1, hx.2.quiet (.refl _) (Store.quiet_note ..) fun _ => Store.stays_of_cells_eq rfl⟩ }).pre
    fun x hx => ⟨hx.1, hx.2.offers (by rintro _ ⟨⟩)⟩
  · obtain ⟨⟨⟨⟨hv, hnew⟩, V⟩, T⟩, ho⟩ := hx
    have hread : ∀ {j}, Json.read (Utf8.decodeLossy row.payload) = .ok j → row.model? = some j :=
      RawRow.model?_eq_some hsort rfl
    refine reviveRow_painted (N := (· = row.id))
      (a := { wanted, arrived := fun k => arrived k ∨ k = row.id, unended, busy := some i,
              reader, spoken, refers })
      rfl rfl rfl F (fun j hj => hmentions j (hread hj))
        (fun j hj n hn => ⟨hspoken j (hread hj) n hn, ?_⟩) (fun _ => .inr) ?_ ?_ x
      ⟨⟨T, V⟩, ho.painted⟩
    all_goals rintro _ rfl
    · exact hrefers hv hnew j (hread hj) n hn
    · exact (hfirst hv hnew).1
    · exact fun _ j hj => (hfirst hv hnew).2.trans (hread hj)
  · refine .bind
      ((loadModule_ensures (P := fun d => (row.isValue ∧ ¬ arrived row.id) ∧
        d.Vacant i (· = row.id)) row.payload).and
      (S := Painted p []) (R := fun o => Offers p [] o) ?_ |>.pre fun x hx =>
        ⟨hx.1.1, hx.2.painted⟩) fun o x hx => ?_
    · rintro x ⟨C, D, P⟩
      obtain ⟨C', G, A, ho⟩ := loadModule_aside P.ground row.payload x rfl
      exact ⟨C', D, P.aside A (fun _ _ => trivial) G, ho⟩
    · exact settles (by rw [hsort]; rfl) hx.1 hx.2
  · let Q : CellId → Decoding → Prop := fun stream x =>
      ((row.isValue ∧ ¬ arrived row.id) ∧ x.decoder.Vacant i (· = row.id)) ∧
        Offers p [] (.ok (.cell stream)) x
    exact .bind (Q := Q) (.onStore fun x hx => ⟨hx.1.1, hx.2.painted.alloc rfl⟩) fun stream =>
      .bind (Q := fun _ => Q stream)
      (.modifyDecoder fun x hx =>
        ⟨hx.1, hx.2.quiet ⟨rfl, rfl, rfl, rfl⟩ (.refl _) fun _ _ _ _ h => h⟩) fun _ x hx =>
      settles (by rw [hsort]; rfl) hx.1 hx.2
  · obtain ⟨sort, hsort, hm⟩ := (Option.any_eq_true _ _).mp hm
    have hread : ∀ {j}, Json.read (Utf8.decodeLossy row.payload) = .ok j → row.model? = some j :=
      RawRow.model?_eq_some hsort hm
    refine .bind ((newEntry_ensures rfl).and (S := Painted p []) (R := fun _ => Painted p []) ?_
      |>.pre fun x hx => ⟨hx.1.1, hx.1.2.painted⟩) fun i => .bind (Q := fun _ => Painted p [])
      ((reviveRow_painted
        (a := { wanted, arrived, unended, busy := some i, reader, spoken, refers })
          (N := fun _ => False)
        rfl rfl rfl F (fun j hj => hmentions j (hread hj))
          (fun j hj n hn => ⟨hspoken j (hread hj) n hn, fun _ => False.elim⟩)
        (by rintro _ ⟨⟩) (by rintro _ ⟨⟩) (by rintro _ ⟨⟩)).pre ?_) fun _ =>
      enqueue_painted row.id (e i)
    · rintro x ⟨C, D, P⟩
      obtain ⟨C', G, A⟩ := newEntry_aside P.ground x rfl
      exact ⟨C', D, P.aside A (fun _ _ => trivial) G⟩
    · rintro x ⟨⟨T, hi, hstate, hnames⟩, hx⟩
      exact ⟨⟨T, hi, hstate, hnames⟩, hx⟩

end Taking

end DecodeM

end GraphRows
