import GraphRows.Proofs.Decoder.Fulfilment
import GraphRows.Proofs.Decoder.Lineage

/-!
# Rows that come once

Rows with ids of their own, none of which opens a stream, come to a decoder in some order. Each
settles its entry with what it brings, or is read and drawn. `Lineage` holds before and after.

## Main results

* `DecodeM.reviveRow_lineage`, `DecodeM.takeIn_lineage`: one row
* `Arrived.takeRows`: any number of rows
-/

namespace GraphRows

open Decoder DecodeM

variable {p : Script} {gift : Nat → Option Gift} {loads : Import → Gift} {options : DecoderOptions}
  {base : Store} {O O' : CellId → Option Origin}
  {C : CellId → Prop} {x y : Decoding} {g : Gift} {o : Outcome}
variable {i n t : Nat}

/-- The rows are as they say, and an outcome is at hand that is what a gift says. -/
def Bears (p : Script) (gift : Nat → Option Gift) (options : DecoderOptions) (base : Store)
    (g : Gift) (o : Outcome) (x : Decoding) : Prop :=
  ∃ O, Lineage p gift options base O [] x ∧ g.Held base O x o

theorem Bears.descends (h : Bears p gift options base g o x) : Descends p gift options base [] x :=
  let ⟨O, N, _⟩ := h
  ⟨O, N⟩

theorem Descends.bears (h : Descends p gift options base [] x) (r : Rejection) :
    Bears p gift options base .refusal (.error r) x :=
  let ⟨O, N⟩ := h
  ⟨O, N, r, rfl⟩

theorem Gift.Held.grow (h : g.Held base O x o) (hadds : x.store.Adds y.store)
    (hO : ∀ c < x.store.cells.size, O' c = O c) : g.Held base O' y o := by
  cases g with
  | refusal => exact h
  | graph cells v =>
    obtain ⟨k, ho, hk, hheld⟩ := h
    refine ⟨k, ho, hk, fun i c hc => ?_⟩
    obtain ⟨hnone, c', hcell, halike⟩ := hheld i c hc
    exact ⟨(hO _ (Store.cell?_lt_size hcell)).trans hnone, c', hadds _ c' hcell, halike⟩

/-- A gift of new cells is at hand, where they stand at the end of the store. -/
theorem Gift.held_graph {cells : CellId → List Cell} {k : CellId} (hk : base.cells.size ≤ k)
    (hnone : ∀ c, k ≤ c → O c = none) (hcells : ∀ i, x.store.cell? (k + i) = (cells k)[i]?)
    (v : CellId → Value) : (Gift.graph cells v).Held base O x (.ok (v k)) :=
  ⟨k, rfl, hk, fun i c hc => ⟨hnone _ (Nat.le_add_right k i), c, (hcells i).trans hc, .same c⟩⟩

/-- The origins when `size` cells from `k` on have been brought for the entry `t`. -/
def bring (O : CellId → Option Origin) (t k r size : Nat) (c : CellId) : Option Origin :=
  if k ≤ c ∧ c < k + size then some (.brought t r (c - k)) else O c

theorem bring_new {k r size : Nat} (hi : i < size) :
    bring O t k r size (k + i) = some (.brought t r i) := by
  rw [bring, if_pos ⟨Nat.le_add_right k i, Nat.add_lt_add_left hi k⟩, Nat.add_sub_cancel_left]

/-- **The cells of a gift are filed** as brought for an entry. -/
theorem Filed.bring {k r size : Nat} (F : Filed base O x) (hbase : base.cells.size ≤ k)
    (hnew : ∀ i < size, O (k + i) = none ∧ k + i < x.store.cells.size) (T : String → Prop)
    (s t : Nat) :
    Filed base (bring O t k r size) x ∧ Grows T s O (GraphRows.bring O t k r size) x x := by
  have new : ∀ {c}, k ≤ c ∧ c < k + size → O c = none ∧ c < x.store.cells.size := fun {c} hc => by
    have h := hnew (c - k) (by omega)
    rwa [Nat.add_sub_cancel' hc.1] at h
  refine F.name (fun c o hc => ?_) (fun c o hc => ?_) T s
  · rw [GraphRows.bring, if_neg fun h => ?_, hc]
    rw [(new h).1] at hc
    cases hc
  · rw [GraphRows.bring] at hc
    split at hc
    · rename_i h
      exact .inr ⟨Nat.le_trans hbase h.1, (new h).2⟩
    · exact .inl hc

theorem not_asked {w : Watcher} {d : Decoder} : ¬ Asked (fun _ => False) t i w d := by
  rintro ⟨_, _, _, _, _, _, _, _, hfalse, _⟩
  exact hfalse

/-- Cells and entries are added, and nobody asks for anything. -/
theorem Lineage.aside {running : List (Nat × Watcher)} {C' : CellId → Prop} (hcalm : ∀ n, p.calm n)
    (N : Lineage p gift options base O running x) (G : Ground p C x)
    (A : Aside (fun _ => True) C C' x y) (W : Grows (fun _ => False) t O O' x y)
    (F : Filed base O' y) : Lineage p gift options base O' running y :=
  N.grow hcalm G A.later W F (fun k => by rw [A.draft]) A.names fun _ _ h => (not_asked h).elim

namespace DecodeM

/-- The entry of an id. -/
theorem openRow?_bears (hcalm : ∀ n, p.calm n) (id : Nat) :
    Ensures (fun x => (x.decoder.closed = none ∧ Painted p [] x) ∧ Bears p gift options base g o x)
      (openRow? id) fun r x => Bears p gift options base g o x ∧ ∀ i, r = some i →
      x.decoder.ids.lookup id = some i := by
  unfold openRow?
  refine .bind (Q := fun i x => Bears p gift options base g o x ∧ x.decoder.ids.lookup id = some i)
    ?_ fun i => .bind .decoder fun d => .pure ?_
  · rintro x ⟨⟨hopen, C, D, P⟩, O, N, hheld⟩
    obtain ⟨C', G, A, -⟩ := entryOf_aside P.ground hopen id x rfl
    obtain ⟨O', F, W, hid, hold⟩ := entryOf_files N.filed hopen (fun _ => False) 0 id x rfl
    exact ⟨⟨O', N.aside hcalm P.ground A W F, hheld.grow W.adds hold⟩, hid⟩
  · rintro x ⟨⟨hb, hid⟩, rfl⟩
    refine ⟨hb, fun k hk => ?_⟩
    split at hk
    · exact Option.some.inj hk ▸ hid
    · cases hk

/-! ### Rows that bring a value -/

/-- **An entry settles with what its row brings.** -/
theorem settleRow_lineage (hcalm : ∀ n, p.calm n) {id : Nat} (hgift : gift id = some g)
    (hmodel : p.model id = none) (o : Outcome) :
    Ensures (fun x => (x.decoder.Vacant i (· = id) ∧ Painted p [] x) ∧
      Bears p gift options base g o x) (settleEntry i o)
      fun _ => Descends p gift options base [] := by
  rintro x ⟨⟨⟨hi, hstate, hnames⟩, C, D, P⟩, O, N, hheld⟩
  have M := settleEntry_moves hi (by rw [hstate]; rfl) o
  have hself : ((settleEntry i o x).2.decoder.entry i).state = settledAs o :=
    congrArg (·.state) M.changed.self
  have settles : ∀ {O'}, Lineage p gift options base O' [] x →
      g.Came O' (settleEntry i o x).2 i (settledAs o) →
      Descends p gift options base [] (settleEntry i o x).2 := by
    intro O' N' hcame
    refine ⟨O', N'.move hcalm P.ground M (M.staysRejected fun r hr => absurd (hstate.symm.trans hr)
      (by rintro ⟨⟩)) fun n hn => ?_⟩
    obtain rfl := hnames n hn
    refine ⟨fun j v hj => ?_, fun j r hj => ?_, fun g' hg' _ => ?_⟩
    · rw [hmodel] at hj
      cases hj
    · rw [hmodel] at hj
      cases hj
    · obtain rfl := Option.some.inj (hgift.symm.trans hg')
      rw [hself]
      exact hcame
  cases g with
  | refusal =>
    obtain ⟨r, rfl⟩ := hheld
    exact settles N ⟨r, rfl⟩
  | graph cells v =>
    obtain ⟨k, rfl, hbase, hheld⟩ := hheld
    have hnew : ∀ l < (cells k).length, O (k + l) = none ∧ k + l < x.store.cells.size :=
        fun l hl => by
      obtain ⟨hnone, c', hcell, -⟩ := hheld l _ (List.getElem?_eq_getElem hl)
      exact ⟨hnone, Store.cell?_lt_size hcell⟩
    by_cases hroot : ∃ r, v k = .cell (k + r)
    · obtain ⟨r, hr⟩ := hroot
      obtain ⟨F, W⟩ := N.filed.bring (r := r) hbase hnew (fun _ => False) 0 i
      refine settles (N.aside hcalm P.ground (.refl _ _ _) W F) ⟨k, rfl, fun r' hr' l hl => ?_⟩
      obtain rfl := Nat.add_left_cancel (Value.cell.inj (hr'.symm.trans hr))
      obtain ⟨-, c', hcell, halike⟩ := hheld l _ (List.getElem?_eq_getElem hl.lt)
      obtain ⟨c'', hcell', halike'⟩ := M.quiet.keeps _ c' trivial hcell
      exact ⟨bring_new hl.lt, _, c'', List.getElem?_eq_getElem hl.lt, hcell', halike.trans halike'⟩
    · exact settles N ⟨k, rfl, fun r hr => absurd ⟨r, hr⟩ hroot⟩

/-- A module is loaded, and what it brings is at hand. -/
theorem loadModule_bears (hcalm : ∀ n, p.calm n) (hl : options.loader.Steady loads base.cells.size)
    (payload : Bytes) :
    Ensures (fun x => Painted p [] x ∧ Descends p gift options base [] x) (loadModule payload)
      fun o => Bears p gift options base (importGift loads payload) o := by
  unfold loadModule
  split
  · rename_i hread
    rw [show importGift loads payload = .refusal by rw [importGift, hread]]
    exact .pure fun x hx => hx.2.bears _
  rename_i j hread
  split
  · rename_i hm
    rw [show importGift loads payload = .refusal by rw [importGift, hread]; dsimp only; rw [hm]]
    exact .pure fun x hx => hx.2.bears _
  rename_i m hm
  rw [show importGift loads payload = loads m by rw [importGift, hread]; dsimp only; rw [hm]]
  -- noting an event comes first, and changes neither cells nor names
  have load : ∀ x z : Decoding, z.decoder = x.decoder → z.store.cells = x.store.cells →
      z.store.temporaries = x.store.temporaries →
      Painted p [] x → Descends p gift options base [] x →
      Bears p gift options base (loads m) (x.decoder.options.loader.load m z.store).1
        { z with store := (x.decoder.options.loader.load m z.store).2 } := by
    rintro x z hz hcells htemporaries ⟨C, D, P⟩ ⟨O, N⟩
    have h := hl.handed m z.store
    rw [← N.options] at h
    generalize (x.decoder.options.loader.load m z.store).1 = o at h
    generalize (x.decoder.options.loader.load m z.store).2 = s at h
    generalize loads m = g at h
    have S : SameEntries x.decoder z.decoder := hz ▸ .refl _
    have grown : ∀ {cells : List Cell}, s.cells = x.store.cells ++ cells.toArray →
        s.temporaries = x.store.temporaries →
        Lineage p gift options base O [] { z with store := s } := by
      intro cells hs ht
      have hadds := (Store.cell?_append hs).1
      have htemporary : ∀ set id, s.temporary? set id = x.store.temporary? set id :=
          fun set id => by
        rw [Store.temporary?, Store.temporary?, Store.temporarySet, Store.temporarySet, ht]
      have W : Grows (fun _ => False) 0 O O x { z with store := s } :=
        ⟨S.options, by
          rw [hz], fun _ _ h => S.ids ▸ h, fun i => by rw [S.entry], fun i w hw => .inl (S.entry
            i ▸ hw), hadds,
          fun set id v hv => (htemporary set id).trans hv, fun _ _ h => h⟩
      have F : Filed base O { z with store := s } :=
        N.filed.grow W (fun _ _ h => .inl h) (fun i hi =>
          .inl ⟨by rwa [S.entries] at hi, by rw [S.entry]⟩)
          (fun _ _ _ h => .inl (S.derived ▸ h)) (by rw [ht]) fun set id v hv =>
            .inl (htemporary set id ▸ hv)
      exact N.aside hcalm P.ground (.store S hadds.size (hadds.keeps _) (fun _ h => h)
        fun _ => .inl) W F
    cases h with
    | refusal lost r hs _ ht => exact ⟨O, grown (hcells ▸ hs) (ht.trans htemporaries), r, rfl⟩
    | graph hs ht =>
      rw [hcells] at hs ⊢
      exact ⟨O, grown hs (ht.trans htemporaries),
        Gift.held_graph N.filed.cells (fun c hc => N.filed.eq_none hc) (Store.cell?_append hs).2 _⟩
  refine .bind .decoder fun d => ?_
  dsimp only
  split
  · refine .bind (Q := fun _ z => ∃ x, z.decoder = x.decoder ∧ z.store.cells = x.store.cells ∧
      z.store.temporaries = x.store.temporaries ∧ d = x.decoder ∧ Painted p [] x ∧
        Descends p gift options base [] x)
      (.modifyStore ?_) fun _ => .onStore ?_
    · rintro y ⟨hy, rfl⟩
      exact ⟨y, rfl, rfl, rfl, rfl, hy.1, hy.2⟩
    · rintro z ⟨x, hz, hcells, htemporaries, rfl, hpainted, hx⟩
      exact load x z hz hcells htemporaries hpainted hx
  · refine .onStore ?_
    rintro y ⟨hy, rfl⟩
    exact load y y rfl rfl rfl hy.1 hy.2

/-! ### Models -/

/-- What is recorded of an entry whose row is being read: nothing. -/
theorem recorded_of_reviving (hgift : ∀ n j, p.model n = some j → gift n = none)
    (hmodel : ∃ j, p.model n = some j) (hstate : (x.decoder.entry t).state = .reviving) :
    Recorded p gift O x n t := by
  obtain ⟨j, hj⟩ := hmodel
  refine ⟨fun j v _ hv => ?_, fun j r _ hr => absurd (hstate.symm.trans hr) (by rintro ⟨⟩),
    fun g hg => ?_⟩
  · rw [hstate] at hv
    rcases hv with hv | ⟨hv, -⟩ <;> cases hv
  · rw [hgift n j hj] at hg
    cases hg

/-- What is recorded of an entry that was drawn. -/
theorem recorded_of_pictured (hgift : ∀ n j, p.model n = some j → gift n = none) {j : Json}
    {v : Value} (hj : p.model n = some j)
    (hstate : (x.decoder.entry t).state = .fulfilled v ∨ (x.decoder.entry t).state =
      .blocked ∧ (x.decoder.entry t).draft.value = v)
    (hpic : Pictured (fun _ => Borrowed x) (fun h c => O c = some (.node t h)) x.store .root j v) :
    Recorded p gift O x n t := by
  refine ⟨fun j' u hj' hu => ?_, fun _ r _ hr => ?_, fun g hg => ?_⟩
  · obtain rfl := Option.some.inj (hj.symm.trans hj')
    rcases hstate with hstate | ⟨hstate, rfl⟩
    · rcases hu with hu | ⟨hu, -⟩
      · obtain rfl := EntryState.fulfilled.inj (hstate.symm.trans hu)
        exact hpic
      · cases hstate.symm.trans hu
    · rcases hu with hu | ⟨-, rfl⟩
      · cases hstate.symm.trans hu
      · exact hpic
  · rcases hstate with hstate | ⟨hstate, -⟩ <;> cases hstate.symm.trans hr
  · rw [hgift n j hj] at hg
    cases hg

/-- **A model row is read.** -/
theorem reviveRow_lineage {a : Affairs} {id : Nat} (hclosed : a.closed = none)
    (ha : a.busy = some i) (F : p.Fits a.refers) (hcalm : ∀ n, p.calm n)
    (hgift : ∀ n j, p.model n = some j → gift n = none) {text : String}
    (hwanted : ∀ j, Json.read text = .ok j → ∀ n, j.Mentions n → a.wanted n)
    (hspoken : ∀ j, Json.read text = .ok j → ∀ n ∈ j.referents, a.spoken n ∧ a.refers id n)
    (harrived : a.arrived id) (hcame : p.came id)
    (hmodel : ∀ j, Json.read text = .ok j → p.model id = some j)
    (hrefused : (∃ e, Json.read text = .error e) → gift id = some .refusal ∧ p.model id = none) :
    Ensures (fun x => ((Tidy a x.decoder ∧ x.decoder.Vacant i (· = id)) ∧ Painted p [] x) ∧
      x.decoder.ids.lookup id = some i ∧
        Descends p gift options base [] x)
      (reviveRow i text) fun _ => Descends p gift options base [] := by
  unfold reviveRow
  split
  · rename_i e hread
    obtain ⟨hrefusal, hnone⟩ := hrefused ⟨e, hread⟩
    exact (settleRow_lineage hcalm hrefusal hnone _).pre fun x hx =>
      ⟨⟨hx.1.1.2, hx.1.2⟩, hx.2.2.bears _⟩
  rename_i j hread
  have hj := hmodel j hread
  refine .bind (Q := fun _ z => (Reading a (· = id) i z.decoder ∧ ∃ C D, Portrait p C D [] z ∧
    (∀ h, z.decoder.openings [] i h = 0) ∧ ∃ O, Lineage p gift options base O [] z) ∧
      z.decoder.ids.lookup id = some i)
    (.modifyDecoder ?_) fun _ => ?_
  · rintro x ⟨⟨⟨T, hi, hstate, hnames⟩, C, D, P⟩, hid, O, N⟩
    have M : Moves i _ x
        { x with decoder := x.decoder.modifyEntry i ({ · with state := .reviving }) } :=
      moves_modifyEntry hi (fun _ => rfl) (fun _ => rfl) (by rw [hstate]; rfl)
    refine ⟨⟨reading_begin ha T hi hstate hnames (fun _ hk => hk ▸ harrived), C, D,
      P.idle M (.inl rfl) fun n hn => hnames n hn ▸ hcame, fun h => ?_, O, ?_⟩, hid⟩
    · rw [M.openings, (P.parts i).openings_eq_zero (by rw [hstate]; rfl)]
    · refine N.move hcalm P.ground M (M.staysRejected fun r hr => absurd (hstate.symm.trans hr)
        (by rintro ⟨⟩)) fun n hn => ?_
      obtain rfl := hnames n hn
      exact recorded_of_reviving hgift ⟨j, hj⟩ (congrArg (·.state) M.changed.self)
  rintro x ⟨⟨R, C, D, P, hclear, O, N⟩, hid⟩
  have hspoken' : ∀ n ∈ j.referents, a.spoken n ∧ ∀ k, k = id → a.refers k n := fun n hn =>
    ⟨(hspoken j hread n hn).1, by rintro _ rfl; exact (hspoken j hread n hn).2⟩
  refine (Ensures.bind (R := fun _ => Descends p gift options base [])
    (((revive_draws hclosed F j .root (Json.distinct_of_read hread) (hwanted j hread) hspoken' R
      P.ground (blank_root hclear)).and
      (revive_files i j .root N.filed (R.tidy.orderly.alive.1.trans hclosed))).and
      (revive_ensures hclosed j .root (hwanted j hread) hspoken')) fun r => ?_) x ⟨⟨rfl, rfl⟩, R⟩
  rintro y ⟨⟨⟨C', G, W, -⟩, O', F', W', hok, hfail⟩, R'⟩
  have N' : Lineage p gift options base O' [] y := N.grow hcalm P.ground W.later W' F' W.value
    W.names fun k w hw => ⟨id, i, j, W'.ids id i hid, hj, hw⟩
  have open' : ∀ {f : Entry → Entry} {z : Decoding} (M : Moves i f y z), StaysRejected y z :=
    fun M => M.staysRejected fun r hr => absurd (R'.state.symm.trans hr) (by rintro ⟨⟩)
  cases r with
  | error r =>
    refine fail_lineage hcalm hgift R'.lt_size G N' (fun n hn => ?_) r
    obtain rfl := R'.names n hn
    exact ⟨j, hj, hfail r rfl⟩
  | ok v =>
    have hpic : Pictured (fun _ => Borrowed y) (fun h c => O' c =
        some (.node i h)) y.store .root j v :=
      (hok v rfl).mono (Q := fun _ => True) ⟨fun _ _ _ _ _ _ => trivial, fun _ _ _ _ h => h,
        fun _ _ _ h => h.1, fun _ _ _ _ _ h _ _ => h⟩ trivial
    have M : Moves i (fun e => { e with draft := { e.draft with value := v } }) y
        { y with decoder := y.decoder.modifyDraft i ({ · with value := v }) } :=
      moves_modifyEntry R'.lt_size (fun _ => rfl) (fun _ => rfl) rfl
    have hstate : ((y.decoder.modifyDraft i ({ · with value := v })).entry i).state = .reviving :=
      (M.changed.field (·.state) rfl i).trans R'.state
    -- from here on the entry moves on twice, and its picture is recorded when it arrives
    have arrives : ∀ {f : Entry → Entry} {z : Decoding}
        (M' : Moves i f { y with decoder := y.decoder.modifyDraft i ({ · with value := v }) } z),
        ((z.decoder.entry i).state = .fulfilled v ∨ (z.decoder.entry i).state = .blocked ∧
          (z.decoder.entry i).draft.value = v) →
        Descends p gift options base [] z := by
      intro f z M' hz
      refine ⟨O', N'.move hcalm G (M.trans M') (open' (M.trans M')) fun n hn => ?_⟩
      obtain rfl := R'.names n hn
      exact recorded_of_pictured hgift hj hz (hpic.lined (M.trans M').options
        (fun _ _ _ => (M.trans M').temporary?) (M.trans M').quiet.keeps fun _ _ h => h)
    change Descends p gift options base []
      ((if (((y.decoder.modifyDraft i ({ · with value := v })).entry i).draft.holes == 0) =
          true then
        settleEntry i (.ok v) else modifyDecoder (·.modifyEntry i ({ · with state := .blocked })))
      { y with decoder := y.decoder.modifyDraft i ({ · with value := v }) }).2
    split
    · have M' :=
        settleEntry_moves
          (x := { y with decoder := y.decoder.modifyDraft i ({ · with value := v }) })
        (M.changed.size ▸ R'.lt_size) (by rw [hstate]; rfl) (.ok v)
      exact arrives M' (.inl (congrArg (·.state) M'.changed.self))
    · have M' : Moves i ({ · with state := .blocked })
          { y with decoder := y.decoder.modifyDraft i ({ · with value := v }) }
          { y with decoder := (y.decoder.modifyDraft i
            ({ · with value := v })).modifyEntry i ({ · with state := .blocked }) } :=
        moves_modifyEntry (M.changed.size ▸ R'.lt_size) (fun _ => rfl) (fun _ => rfl)
          (by rw [hstate]; rfl)
      refine arrives M' (.inr ⟨congrArg (·.state) M'.changed.self, ?_⟩)
      exact (congrArg (·.draft.value) M'.changed.self).trans
        (congrArg (·.draft.value) M.changed.self)

/-! ### Every kind of row -/

section Taking

variable {wanted arrived unended spoken : Nat → Prop} {refers : Nat → Nat → Prop}
  {reader : RowReader} {id : Nat}

/-- A row that has not come is no row of a stream. -/
theorem stream?_of_new {d : Decoder}
    (T : Tidy { wanted, arrived, unended, reader, spoken, refers } d) (hnew : ¬ arrived id) :
    (d.stream? id).isSome = false := by
  refine Bool.eq_false_iff.mpr fun h => hnew ?_
  obtain ⟨st, hst⟩ := Option.isSome_iff_exists.mp h
  obtain ⟨l₁, l₂, hl, -⟩ := List.lookup_eq_some_iff.mp hst
  exact T.orderly.streamed (id, st) (hl ▸ by simp)

/-- The entry of an id that no row has come for, and what is at hand for it. -/
theorem openRow?_new (hcalm : ∀ n, p.calm n) (hwanted : wanted id) :
    Ensures (fun x => (Tidy { wanted, arrived, unended, reader, spoken, refers } x.decoder ∧
      Painted p [] x) ∧
        Bears p gift options base g o x) (openRow? id)
      fun r x => Bears p gift options base g o x ∧ ∀ i, r = some i →
        (x.decoder.Vacant i (· = id) ∧ Painted p [] x) ∧
        x.decoder.ids.lookup id = some i ∧
        Tidy
          { wanted, arrived := fun k => arrived k ∨ k = id, unended, reader, spoken, refers,
            busy := some i } x.decoder := by
  rintro x ⟨⟨T, hp⟩, hb⟩
  obtain ⟨hvacant, hoffers⟩ := openRow?_vacant (o := .error .aborted) hwanted x
    ⟨T, hp.offers (by rintro _ ⟨⟩)⟩
  obtain ⟨hb', hid⟩ := openRow?_bears hcalm id x ⟨⟨T.orderly.alive.1, hp⟩, hb⟩
  refine ⟨hb', fun i hi => ?_⟩
  obtain ⟨V, -, T'⟩ := hvacant i hi
  exact ⟨⟨V, hoffers.painted⟩, hid i hi, T'⟩

/-- What a row brings that says that something went wrong. -/
theorem gift?_of_refuses {row : RawRow} (h : row.Refuses) : row.gift? loads = some .refusal := by
  rcases h with h | h | ⟨kind, f, h, hmake⟩
  · rw [RawRow.gift?, h, Option.bind_some, RowSort.gift?]
  · rw [RawRow.gift?, h, Option.bind_some, RowSort.gift?]
  · rw [RawRow.gift?, h, Option.bind_some, RowSort.gift?, binaryGift, hmake]

/-- **What a row says becomes of it.** -/
theorem takeIn_lineage (F : p.Fits refers) (hcalm : ∀ n, p.calm n)
    (hl : options.loader.Steady loads base.cells.size)
    (hgift : ∀ n j, p.model n = some j → gift n = none) (row : RawRow) (hvalue : row.isValue)
    (hplain : row.isOpening = false) (hwanted : wanted row.id) (hnew : ¬ arrived row.id)
    (hmentions : ∀ j, row.model? = some j → ∀ n, j.Mentions n → wanted n)
    (hspoken : ∀ j, row.model? = some j → ∀ n ∈ j.referents, spoken n ∧ refers row.id n)
    (hcame : p.came row.id) (hmodel : p.model row.id = row.model?)
    (hbrings : gift row.id = row.gift? loads) :
    Ensures (fun x => (Tidy { wanted, arrived, unended, reader, spoken, refers } x.decoder ∧
      Painted p [] x) ∧
        Descends p gift options base [] x) (takeIn row) fun _ =>
          Descends p gift options base [] := by
  have hunstreamed : ∀ {P : Prop} {x : Decoding},
      Tidy { wanted, arrived, unended, reader, spoken, refers } x.decoder →
      (x.decoder.stream? row.id).isSome → P := fun T hst => by simp [stream?_of_new T hnew] at hst
  let B : Option Outcome → Decoding → Prop := fun o x =>
    ∃ g, Bears p gift options base g (o.getD (.error .aborted)) x ∧
      (o.isSome → gift row.id = some g)
  have B.descends : ∀ {o x}, B o x → Descends p gift options base [] x := by
    rintro o x ⟨g, hb, -⟩
    exact hb.descends
  have brings : ∀ {sort}, row.sort? = some sort → gift row.id = sort.gift? loads row.payload :=
      fun hsort => by
    rw [hbrings, RawRow.gift?, hsort, Option.bind_some]
  refine (Receives.takeIn
    (A := fun o x => (Tidy { wanted, arrived, unended, reader, spoken, refers } x.decoder ∧
      Painted p [] x) ∧ B o x)
    (J := fun o i x => B o x ∧ (x.decoder.Vacant i (· = row.id) ∧ Painted p [] x) ∧
      x.decoder.ids.lookup row.id = some i ∧
      Tidy
        { wanted, arrived := fun k => arrived k ∨ k = row.id, unended, reader, spoken, refers,
          busy := some i } x.decoder) {
    rest := fun hv => absurd hvalue (by simp [hv])
    text := fun hsort x hx => ?_
    refused := fun h r x hx => ⟨hx.1, .refusal, (B.descends hx.2).bears r,
      fun _ => hbrings.trans (gift?_of_refuses h)⟩
    binary := fun kind data hsort hmake => .onStore fun x hx => ?_
    openRow := fun _ o x hx => ?_
    settle := fun hm i o x hx => ?_
    revive := fun hsort i x hx => ?_
    load := fun hsort i => ?_
    stream := fun kind hsort => absurd hplain
      (by rw [RawRow.isOpening, hsort]; simp [RowSort.isOpening])
    item := fun _ _ _ _ x hx => hunstreamed hx.1.1.1 hx.2
    enqueue := fun _ _ _ _ x hx => hunstreamed hx.1.1.1 hx.2
    note := fun hv => absurd hvalue (by simp [hv]) }).pre fun x hx => ⟨hx.1, .refusal,
      hx.2.bears _, by rintro ⟨⟩⟩
  · obtain ⟨O, N⟩ := B.descends hx.2
    have hheld : Gift.Held base O x (.value (.string (Utf8.decodeLossy row.payload)))
        (.ok (.string (Utf8.decodeLossy row.payload))) :=
      Gift.held_graph N.filed.cells (fun c hc => N.filed.eq_none hc)
        (Store.cell?_append (by simp)).2 _
    exact ⟨hx.1, _, ⟨O, N, hheld⟩, fun _ => brings hsort⟩
  · obtain ⟨⟨T, C, D, P⟩, hb⟩ := hx
    obtain ⟨O, N⟩ := B.descends hb
    obtain ⟨⟨G, A⟩, -⟩ := aside_alloc (y := { x with store := (x.store.make (.binary data)).2 })
      P.ground rfl (.refl _)
    have hcells : (x.store.make (.binary data)).2.cells = x.store.cells ++ [.binary data].toArray :=
      rfl
    have W : Grows (fun _ => False) 0 O O x { x with store := (x.store.make (.binary data)).2 } :=
      ⟨rfl, rfl, fun _ _ h => h, fun _ => rfl, fun _ _ => .inl, Store.adds_alloc _ _, fun _ _ _ h =>
        h, fun _ _ h => h⟩
    have F : Filed base O { x with store := (x.store.make (.binary data)).2 } :=
      N.filed.grow W (fun _ _ h => .inl h) (fun i hi => .inl ⟨hi, rfl⟩) (fun _ _ _ => .inl) rfl
        fun _ _ _ => .inl
    refine ⟨⟨T, C, D, P.aside A (fun _ _ => trivial) G⟩, .cell (.binary data),
      ⟨O, N.aside hcalm P.ground A W F,
      Gift.held_graph N.filed.cells (fun c hc => N.filed.eq_none hc)
        (Store.cell?_append hcells).2 _⟩, fun _ => ?_⟩
    rw [brings hsort, RowSort.gift?, binaryGift, hmake]
  · obtain ⟨⟨hx, g, hb, hg⟩, -⟩ := hx
    obtain ⟨hb', hopen⟩ := openRow?_new hcalm hwanted x ⟨hx, hb⟩
    exact ⟨fun _ => hb'.descends, fun i hi => ⟨⟨g, hb', hg⟩, hopen i hi⟩⟩
  · obtain ⟨⟨g, hb, hg⟩, hopen, -⟩ := hx
    exact settleRow_lineage hcalm (hg rfl) (hmodel.trans (RawRow.model?_eq_none hm)) o x ⟨hopen, hb⟩
  · obtain ⟨hb, ⟨V, hp⟩, hid, T⟩ := hx
    have hread : ∀ {j}, Json.read (Utf8.decodeLossy row.payload) = .ok j → row.model? = some j :=
      RawRow.model?_eq_some hsort rfl
    refine reviveRow_lineage
      (a := { wanted, arrived := fun k => arrived k ∨ k = row.id, unended, busy := some i,
              reader, spoken, refers })
      rfl rfl F hcalm hgift (fun j hj => hmentions j (hread hj))
        (fun j hj => hspoken j (hread hj)) (.inr rfl) hcame
      (fun j hj => hmodel.trans (hread hj)) ?_ x ⟨⟨⟨T, V⟩, hp⟩, hid, B.descends hb⟩
    rintro ⟨e, he⟩
    rw [hmodel, RawRow.model?, hsort, brings hsort, RowSort.gift?, he]
    exact ⟨rfl, rfl⟩
  · refine .bind (((loadModule_ensures (P := fun d => d.Vacant i (· = row.id)) row.payload).and
      (S := Painted p []) (R := fun _ => Painted p []) ?_).and
        (loadModule_bears hcalm hl row.payload) |>.pre fun y hy =>
      ⟨hy.2.1, hy.2.1.2, B.descends hy.1⟩) fun o =>
      settleRow_lineage hcalm (brings hsort) (hmodel.trans
        (RawRow.model?_eq_none (by rw [hsort]; rfl))) o
    rintro y ⟨C, D, P⟩
    obtain ⟨C', G, A, -⟩ := loadModule_aside P.ground row.payload y rfl
    exact ⟨C', D, P.aside A (fun _ _ => trivial) G⟩

end Taking

end DecodeM

/-! ### Any number of rows -/

/-- Rows that each settle an entry: their ids are their own, and none opens a stream. -/
structure Settling (rows : List RawRow) : Prop where
  distinct : (rows.map RawRow.id).Nodup
  value : ∀ r ∈ rows, r.isValue
  plain : ∀ r ∈ rows, r.isOpening = false

/-- What the rows bring of their own. -/
def giftOf (loads : Import → Gift) (rows : List RawRow) (n : Nat) : Option Gift :=
  (valueRow? rows n).bind (RawRow.gift? loads)

theorem giftOf_eq_none {rows : List RawRow} {host : CellId → Prop} {j : Json}
    (hj : (scriptOf rows host).model n = some j) : giftOf loads rows n = none := by
  obtain ⟨r, hr, hj⟩ := Option.bind_eq_some_iff.mp hj
  rw [giftOf, hr, Option.bind_some, RawRow.gift?]
  rw [RawRow.model?] at hj
  split at hj
  case isFalse => cases hj
  rename_i hmodel
  cases hsort : r.sort? with
  | none => rfl
  | some sort =>
    rw [hsort, Option.any_some] at hmodel
    rw [Option.bind_some]
    cases sort with
    | model => rw [RowSort.gift?, hj, Option.isSome_some, if_pos rfl]
    | binary kind => cases hmodel
    | tagged tag =>
      cases tag with
      | close => rfl
      | _ => cases hmodel

/-- A decoder that some rows have come to, out of all that will come, each once. -/
structure Arrived (rows : List RawRow) (loads : Import → Gift) (options : DecoderOptions)
    (base : Store) (done : List RawRow) (reader : RowReader) (x : Decoding) : Prop where
  shown : Shown rows (· < base.cells.size) done reader x
  descends : Descends (scriptOf rows (· < base.cells.size)) (giftOf loads rows) options base [] x

namespace Arrived

variable {rows done : List RawRow} {reader : RowReader}

/-- **One row.** -/
theorem takeRow (A : Arrived rows loads options base done reader x)
    (hl : options.loader.Steady loads base.cells.size) (S : Settling rows)
    (hcircle : ∀ n, CircleFree rows n) {row : RawRow} (hrows : done ++ [row] <+: rows) :
    Arrived rows loads options base (done ++ [row]) reader (DecodeM.takeRow row x).2 := by
  have hshown := A.shown.takeRow hrows
  refine ⟨hshown, ?_⟩
  obtain ⟨rest, rfl⟩ := hrows
  rw [List.append_assoc, List.singleton_append] at *
  have hmem : row ∈ done ++ row :: rest := by simp
  have hnew : ¬ ∃ r ∈ done, row.id = r.id ∧ r.isValue := by
    rintro ⟨r, hr, hid, -⟩
    have hdistinct := S.distinct
    rw [List.map_append, List.nodup_append] at hdistinct
    exact hdistinct.2.2 r.id (List.mem_map_of_mem hr) row.id (by simp) hid.symm
  have hfirst : valueRow? (done ++ row :: rest) row.id = some row :=
    valueRow?_of_new (S.value row hmem) hnew
  have hrefers : ∀ j, row.model? = some j → ∀ n ∈ j.referents,
    Refers (done ++ row :: rest) row.id n := fun j hj n hn =>
    ⟨row, hfirst, by rw [RawRow.referents, hj]; exact hn⟩
  have T₁ := A.shown.tidy.takeIn row fun _ _ => hrefers
  have P₁ := takeIn_painted (scriptOf_fits _ (· < base.cells.size)) row (fun _ => trivial)
    (fun _ _ _ _ => trivial) (fun _ hj _ hn => Affairs.spoken_fed hj hn) (fun _ _ => hrefers)
    (fun _ _ => by simp [scriptOf, hfirst]) x ⟨A.shown.tidy.address row, A.shown.painted⟩
  have D₁ := takeIn_lineage (scriptOf_fits _ (· < base.cells.size)) hcircle hl
    (fun n j => giftOf_eq_none) row (S.value row hmem)
    (S.plain row hmem) trivial hnew (fun _ _ _ _ => trivial)
    (fun _ hj _ hn => ⟨Affairs.spoken_fed hj hn, hrefers _ hj _ hn⟩)
    (by simp [scriptOf, hfirst]) (by simp [scriptOf, hfirst]) (by simp [giftOf, hfirst]) x
    ⟨⟨A.shown.tidy.address row, A.shown.painted⟩, A.descends⟩
  rw [takeRow_eq]
  exact runWatchers_lineage rfl rfl (scriptOf_fits _ _) hcircle (fun n j => giftOf_eq_none) _
    ⟨⟨T₁, P₁⟩, D₁⟩

/-- **Any number of rows.** -/
theorem takeRows (A : Arrived rows loads options base done reader x)
    (hl : options.loader.Steady loads base.cells.size) (S : Settling rows)
    (hcircle : ∀ n, CircleFree rows n) {todo : List RawRow} (hrows : done ++ todo <+: rows) :
    Arrived rows loads options base (done ++ todo) reader (todo.forM DecodeM.takeRow x).2 := by
  induction todo generalizing done x with
  | nil =>
    rw [List.append_nil]
    exact A
  | cons row todo ih =>
    have hassoc : done ++ row :: todo = done ++ [row] ++ todo := by simp
    rw [hassoc] at hrows ⊢
    exact ih (A.takeRow hl S hcircle ((List.prefix_append _ _).trans hrows)) hrows

end Arrived

/-- Before any row has come. -/
theorem arrived_create {s : Store} (hs : s.Sound) (hl : options.loader.Steady loads s.cells.size)
    (ht : ∀ set, options.temporaries = some set → set < s.temporaries.size) (rows : List RawRow)
    (reader : RowReader) :
    Arrived rows loads options s [] reader ⟨{ Decoder.create options with reader }, s⟩ := by
  refine ⟨(shown_create hs hl.tame rows).setReader reader, fun _ => none, ⟨.refl _ _, Nat.le_refl _,
    by rintro _ _ ⟨⟩, by rintro _ ⟨⟩, by rintro _ _ _ ⟨⟩, ht,
    fun _ _ _ h => h, fun _ _ _ => .inl⟩, rfl, fun _ h => h, fun i w hw => ?_, by rintro _ _ ⟨⟩⟩
  rcases hw with hw | hw
  · rw [entry_of_size_le _ (Nat.zero_le i)] at hw
    cases hw
  · cases hw

end GraphRows
