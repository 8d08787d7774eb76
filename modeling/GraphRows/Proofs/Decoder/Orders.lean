import GraphRows.Proofs.Decoder.Arrivals
import GraphRows.Proofs.Decoder.Cutting
import GraphRows.Proofs.Decoder.Naming
import GraphRows.Scenario.Step

/-!
# The order of rows

Rows may come in any order. A row that refers to one that has not come waits for it, and a row that
others wait for fills their holes when it comes. As long as rows do not refer to each other in a
circle, all this makes no difference in the end: the same rows are fulfilled, rejected or still
waiting, and the values are the same up to the numbers of cells.

The proof goes along the references. What becomes of a row is determined by what becomes of the rows
it refers to: it is rejected if one of its strings is to blame, and otherwise waits if one of these
rows is not settled.

## Main results

* `Idle.follows_of_model`: what becomes of a row is determined by the rows it refers to
* `Idle.isomorphic`: two decoders that have read the same rows
* `order_makes_no_difference`: any two orders
-/

namespace GraphRows

open Decoder DecodeM

variable {options : DecoderOptions} {n : Nat} {base : Store} {text : String}

/-! ### The strings of a payload -/

section Texts

variable {leaf : Hole → Json → Value → Prop} {node : Hole → CellId → Prop} {s : Store}
  {P : String → Prop}

/-- What the leaves know of their strings, the picture knows. -/
theorem Pictured.texts (hleaf : ∀ h text v, leaf h (.str text) v → P text) {j : Json} {hole : Hole}
    {v : Value} (h : Pictured leaf node s hole j v) : ∀ text ∈ j.texts, P text := by
  induction j using Json.parts_induction generalizing hole v with
  | leaf j hj =>
    cases j with
    | str text => exact fun _ htext => List.mem_singleton.mp htext ▸ hleaf _ _ _ h
    | arr items => cases hj
    | obj fields => cases hj
    | _ => exact fun _ htext => absurd htext List.not_mem_nil
  | node j hj ih =>
    obtain ⟨c, vs, -, -, -, hvs⟩ := (pictured_node hj).mp h
    intro text htext
    rw [Json.texts_node hj] at htext
    obtain ⟨k, hk, htext⟩ := List.mem_flatMap.mp htext
    exact hvs.forall_parts (fun k hk _ _ hv => ih k hk hv) k hk text htext

/-- A payload refers to the rows that its strings refer to. -/
theorem Json.mem_referents_of_mem_texts (hn : n ∈ (Json.str text).referents) {j : Json}
    (h : text ∈ j.texts) : n ∈ j.referents := by
  induction j using Json.parts_induction with
  | leaf j hj =>
    cases j with
    | str text => exact List.mem_singleton.mp h ▸ hn
    | arr items => cases hj
    | obj fields => cases hj
    | _ => exact absurd h List.not_mem_nil
  | node j hj ih =>
    rw [Json.texts_node hj] at h
    obtain ⟨k, hk, h⟩ := List.mem_flatMap.mp h
    exact Json.mem_referents_of_mem_parts hk (ih k hk h)

end Texts

/-! ### What becomes of a row -/

namespace Idle

variable {p : Script} {gift : Nat → Option Gift} {options : DecoderOptions} {base : Store}
  {O O' : CellId → Option Origin}
  {C C' : CellId → Prop} {D D' : Nat → CellId → Prop} {x x' : Decoding} {n t t' : Nat} {j : Json}
    {v v' : Value}

/-- A row that is fulfilled is drawn in cells of its own, and every place holds what it says. -/
theorem pictured (E : Idle p gift options base O C D x) (hcalm : ∀ n, p.calm n)
    (ht : x.decoder.ids.lookup n = some t) (hj : p.model n = some j)
    (hv : (x.decoder.entry t).state = .fulfilled v) :
    Pictured (fun _ j v => j.Says x.decoder x.store v ∧ Borrowed x j v) (fun h c => O c =
      some (.node t h)) x.store .root j v := by
  have hpictured := (((E.portrait.parts t).calm n (hcalm n) ht).fulfilled v hv j hj).and
    ((E.lineage.recorded n t ht).drawn j v hj (.inl hv))
  exact hpictured.mono (Q := fun _ => True) ⟨fun _ _ _ _ _ _ => trivial, fun _ _ _ _ h =>
    ⟨h.1.1, h.2⟩, fun _ _ _ h => h.2, fun _ _ _ _ _ h _ _ => h⟩ trivial

/-- An entry that somebody waits for is not settled. -/
theorem not_isTerminal (E : Idle p gift options base O C D x) {i : Nat} {w : Watcher}
    (hw : w ∈ (x.decoder.entry i).watchers) : (x.decoder.entry i).state.isTerminal = false := by
  refine Bool.eq_false_iff.mpr fun h => ?_
  rw [E.awaited i h] at hw
  cases hw

/-- **None of the strings of a row is to blame** if the row is fulfilled or waits. -/
theorem not_faulty (E : Idle p gift options base O C D x) (hcalm : ∀ n, p.calm n)
    (ht : x.decoder.ids.lookup n = some t) (hj : p.model n = some j)
    (h : (∃ v, (x.decoder.entry t).state = .fulfilled v) ∨ (x.decoder.entry t).state = .blocked) :
    ∀ text ∈ j.texts, ¬ Faulty x.decoder x.store text := by
  rcases h with ⟨v, hv⟩ | hblocked
  · exact (E.pictured hcalm ht hj hv).texts fun _ text v h => not_faulty_of_says h.1 h.2
  · obtain ⟨j', hj', hpictured⟩ := ((E.portrait.parts t).calm n (hcalm n) ht).blocked hblocked
    obtain rfl := Option.some.inj (hj'.symm.trans hj)
    refine (hpictured.and ((E.lineage.recorded n t ht).drawn _ _ hj (.inr ⟨hblocked, rfl⟩))).texts
      fun hole text v h => ?_
    rcases h.1 with ⟨text', token, id, path, shape, i, cyclic, htext, hparse, href, -, hid, hs | hs,
      -⟩ | ⟨-, hsettled⟩
    · cases htext
      exact not_faulty_of_unsettled hparse href hid (E.not_isTerminal hs)
    · cases hs
    · exact not_faulty_of_says hsettled.1 h.2

/-- **A row that waits** refers to a row that is not settled. -/
theorem exists_unsettled (E : Idle p gift options base O C D x)
    (ht : x.decoder.ids.lookup n = some t) (hj : p.model n = some j)
    (hblocked : (x.decoder.entry t).state = .blocked) :
    ∃ m ∈ j.referents, ∃ i, x.decoder.ids.lookup m = some i ∧
      (x.decoder.entry i).state.isTerminal = false := by
  obtain ⟨i, w, hw, hcounts⟩ := E.awaits t hblocked
  obtain ⟨n', t', j', ht', hj', hole, path, shape, cyclic, text, token, id, rfl, htext,
      hparse, href, hid⟩ :=
    E.lineage.asked i w (.inl hw)
  obtain rfl : t' = t := by
    cases cyclic with
    | true => cases hcounts
    | false => exact beq_iff_eq.mp hcounts
  obtain rfl := E.distinct n' n t' ht' ht
  obtain rfl := Option.some.inj (hj'.symm.trans hj)
  refine ⟨id, Json.mem_referents_of_mem_texts (Json.mem_referents_str hparse ?_) htext, i, hid,
    E.not_isTerminal hw⟩
  rw [token.referent?_eq, href]
  rfl

/-- A row that is settled on one side has come on the other. -/
theorem exists_arrived (E : Idle p gift options base O C D x)
    (E' : Idle p gift options base O' C' D' x') (ht : x.decoder.ids.lookup n = some t)
    (hterminal : (x.decoder.entry t).state.isPending = false) :
    p.came n ∧ ∃ t', x'.decoder.ids.lookup n = some t' ∧
      ((∃ v', (x'.decoder.entry t').state = .fulfilled v') ∨
      (∃ r', (x'.decoder.entry t').state = .rejected r') ∨
        (x'.decoder.entry t').state = .blocked) := by
  have hcame := (E.portrait.parts t).came n ht hterminal
  obtain ⟨t', ht', hpending⟩ := E'.arrived n hcame
  refine ⟨hcame, t', ht', ?_⟩
  cases hstate : (x'.decoder.entry t').state with
  | pending =>
    rw [hstate] at hpending
    cases hpending
  | reviving => exact absurd hstate (E'.rested t')
  | blocked => exact .inr (.inr rfl)
  | fulfilled v' => exact .inl ⟨v', rfl⟩
  | rejected r' => exact .inr (.inl ⟨r', rfl⟩)

/-- **What becomes of a row with a model** is determined by what becomes of the rows it refers
to. -/
theorem follows_of_model (hs : base.Sound) (hcalm : ∀ n, p.calm n) (hdistinct : j.Distinct)
    (E : Idle p gift options base O C D x) (E' : Idle p gift options base O' C' D' x')
    (hj : p.model n = some j)
    (ih : ∀ m ∈ j.referents, Follows base O O' x x' m ∧ Follows base O' O x' x m) :
    Follows base O O' x x' n where
  rejected t r ht hr := by
    obtain ⟨text, htext, hfaulty⟩ := (E.lineage.recorded n t ht).blamed j r hj hr
    have hfaulty' : Faulty x'.decoder x'.store text :=
      E.faulty hs E' (fun m hm => (ih m (Json.mem_referents_of_mem_texts hm htext)).1) hfaulty
    obtain ⟨-, t', ht', hstate | hstate | hstate⟩ := E.exists_arrived E' ht (by rw [hr]; rfl)
    · exact absurd hfaulty' (E'.not_faulty hcalm ht' hj (.inl hstate) text htext)
    · obtain ⟨r', hr'⟩ := hstate
      exact ⟨t', r', ht', hr'⟩
    · exact absurd hfaulty' (E'.not_faulty hcalm ht' hj (.inr hstate) text htext)
  fulfilled t v ht hv := by
    have hpictured := E.pictured hcalm ht hj hv
    obtain ⟨-, t', ht', ⟨v', hv'⟩ | ⟨r', hr'⟩ | hblocked⟩ := E.exists_arrived E' ht
      (by rw [hv]; rfl)
    · refine ⟨t', v', ht', hv', ?_⟩
      refine hpictured.twins (P := Follows base O O' x x') (fun _ _ _ _ _ hfollows h h' => ?_)
        (fun m hm => (ih m hm).1) hdistinct (a := .root n) ?_ ?_ (E'.pictured hcalm ht' hj hv')
      · exact E.twins_of_says hs E' hfollows h.1 h.2 h'.1 h'.2
      · rintro c rfl ho
        exact .root ht hv ho
      · rintro c rfl ho
        exact .root ht' hv' ho
    · obtain ⟨text, htext, hfaulty'⟩ := (E'.lineage.recorded n t' ht').blamed j r' hj hr'
      have hfaulty : Faulty x.decoder x.store text :=
        E'.faulty hs E (fun m hm => (ih m (Json.mem_referents_of_mem_texts hm htext)).2) hfaulty'
      exact absurd hfaulty (E.not_faulty hcalm ht hj (.inl ⟨v, hv⟩) text htext)
    · obtain ⟨m, hm, i', hi', hunsettled⟩ := E'.exists_unsettled ht' hj hblocked
      obtain ⟨i, w, hi, hw⟩ := hpictured.referents (fun _ _ _ h => h.1.fulfilled) m hm
      obtain ⟨k, w', hk, hw', -⟩ := (ih m hm).1.fulfilled i w hi hw
      obtain rfl := Option.some.inj (hk.symm.trans hi')
      rw [hw'] at hunsettled
      cases hunsettled

/-- A row that brings a value of its own has it on both sides. -/
theorem follows_of_gift (E : Idle p gift options base O C D x)
    (E' : Idle p gift options base O' C' D' x') {g : Gift} (hg : gift n = some g)
    (huniform : g.Uniform base.cells.size) : Follows base O O' x x' n := by
  have came : ∀ {t}, x.decoder.ids.lookup n = some t → (x.decoder.entry t).state.isPending = false →
      g.Came O x t (x.decoder.entry t).state ∧ ∃ t', x'.decoder.ids.lookup n = some t' ∧
        g.Came O' x' t' (x'.decoder.entry t').state := fun {t} ht hpending => by
    obtain ⟨t', ht', hpending'⟩ := E'.arrived n ((E.portrait.parts t).came n ht hpending)
    exact ⟨(E.lineage.recorded n t ht).came g hg hpending, t', ht',
      (E'.lineage.recorded n t' ht').came g hg hpending'⟩
  refine ⟨fun t r ht hr => ?_, fun t v ht hv => ?_⟩
  · obtain ⟨h, t', ht', h'⟩ := came ht (by rw [hr]; rfl)
    rw [hr] at h
    cases g with
    | refusal =>
      obtain ⟨r', hr'⟩ := h'
      exact ⟨t', r', ht', hr'⟩
    | graph cells v =>
      obtain ⟨k, hk, -⟩ := h
      cases hk
  · obtain ⟨h, t', ht', h'⟩ := came ht (by rw [hv]; rfl)
    rw [hv] at h
    cases g with
    | refusal =>
      obtain ⟨r, hr⟩ := h
      cases hr
    | graph cells w =>
      obtain ⟨k, hk, hstands⟩ := h
      obtain ⟨k', hk', hstands'⟩ := h'
      obtain rfl := EntryState.fulfilled.inj hk
      refine ⟨t', w k', ht', hk', ?_⟩
      have hlength := (huniform k k').2.length_eq
      have hmoved := (huniform k k').1
      generalize hu : w k = u at hmoved hv hstands
      generalize hu' : w k' = u' at hmoved hk' hstands'
      cases hmoved with
      | scalar h => exact .scalar h
      | host h => exact .known (.host h)
      | @new r h =>
        exact .known (.brought huniform ht ht' hv hk' (hstands r rfl) (hstands' r rfl) (.root h)
          (.root (hlength ▸ h)))

/-- The entry of an id that no row has come for is pending. -/
theorem isPending (E : Idle p gift options base O C D x) (hcame : ¬ p.came n)
    (ht : x.decoder.ids.lookup n = some t) : (x.decoder.entry t).state.isPending := by
  by_contra hpending
  exact hcame ((E.portrait.parts t).came n ht (Bool.eq_false_iff.mpr hpending))

/-- An id that no row has come for is not settled on either side. -/
theorem follows_of_missing (E : Idle p gift options base O C D x) (hcame : ¬ p.came n) :
    Follows base O O' x x' n where
  rejected t r ht hr := absurd (E.isPending hcame ht) (by simp [hr, EntryState.isPending])
  fulfilled t v ht hv := absurd (E.isPending hcame ht) (by simp [hv, EntryState.isPending])

/-- What the rows say: each has a model or brings a value of its own. -/
structure Plain (p : Script) (gift : Nat → Option Gift) (base : Store) : Prop where
  calm : ∀ n, p.calm n
  distinct : ∀ n j, p.model n = some j → j.Distinct
  kinds : ∀ n, p.came n → (∃ j, p.model n = some j) ∨ ∃ g, gift n = some g ∧
    g.Uniform base.cells.size
  grounded : WellFounded fun m n => ∃ j, p.model n = some j ∧ m ∈ j.referents

/-- **What becomes of any row on one side becomes of it on the other.** -/
theorem follows (hs : base.Sound) (hplain : Plain p gift base)
    (E : Idle p gift options base O C D x) (E' : Idle p gift options base O' C' D' x') :
    ∀ n, Follows base O O' x x' n ∧ Follows base O' O x' x n := by
  intro n
  induction n using hplain.grounded.induction with
  | _ n ih =>
    by_cases hcame : p.came n
    · obtain ⟨j, hj⟩ | ⟨g, hg, huniform⟩ := hplain.kinds n hcame
      · have ih' : ∀ m ∈ j.referents, Follows base O O' x x' m ∧ Follows base O' O x' x m :=
          fun m hm => ih m ⟨j, hj, hm⟩
        exact ⟨E.follows_of_model hs hplain.calm (hplain.distinct n j hj) E' hj ih',
          E'.follows_of_model hs hplain.calm (hplain.distinct n j hj) E hj fun m hm =>
            (ih' m hm).symm⟩
      · exact ⟨E.follows_of_gift E' hg huniform, E'.follows_of_gift E hg huniform⟩
    · exact ⟨E.follows_of_missing hcame, E'.follows_of_missing hcame⟩

end Idle

/-! ### Decoders that are the same up to numbers -/

/-- The states are the same, where cells are translated by `β`. Rejections may have different
reasons. -/
inductive EntryState.Same (β : CellId → CellId → Prop) : EntryState → EntryState → Prop
  | pending : Same β .pending .pending
  | blocked : Same β .blocked .blocked
  | fulfilled {v v' : Value} (h : v.Same β v') : Same β (.fulfilled v) (.fulfilled v')
  | rejected (r r' : Rejection) : Same β (.rejected r) (.rejected r')

/-- Two decoders are the same up to the numbers of cells, which `β` translates one to one. -/
structure Isomorphic (β : CellId → CellId → Prop) (base : Store) (x x' : Decoding) : Prop where
  left : ∀ c c₁ c₂, β c c₁ → β c c₂ → c₁ = c₂
  right : ∀ c₁ c₂ c, β c₁ c → β c₂ c → c₁ = c₂
  contents : ∀ c c', β c c' → ∃ cell cell', x.store.cell? c = some cell ∧
    x'.store.cell? c' = some cell' ∧ cell.Agree (Value.Same β) cell'
  host : ∀ c < base.cells.size, β c c
  handles : ∀ n i i', x.decoder.ids.lookup n = some i → x'.decoder.ids.lookup n = some i' →
    β (x.decoder.entry i).handle (x'.decoder.entry i').handle
  states : ∀ n i i', x.decoder.ids.lookup n = some i → x'.decoder.ids.lookup n = some i' →
    (x.decoder.entry i).state.Same β (x'.decoder.entry i').state

/-- **Two decoders that have read the same rows** are the same up to the numbers of cells. -/
theorem Idle.isomorphic {p : Script} {gift : Nat → Option Gift} {O O' : CellId → Option Origin}
    {C C' : CellId → Prop} {D D' : Nat → CellId → Prop} {x x' : Decoding} (hs : base.Sound)
    (hplain : Idle.Plain p gift base) (E : Idle p gift options base O C D x)
    (E' : Idle p gift options base O' C' D' x') : ∃ β, Isomorphic β base x x' := by
  have hfollows := E.follows hs hplain E'
  refine ⟨fun c c' => Twins base O O' x x' (.cell c) (.cell c'), ?_, ?_, ?_, fun c hc =>
    .known (.host hc), fun n i i' => E.twins_handle E', ?_⟩
  · intro c c₁ c₂ h₁ h₂
    obtain ⟨a, ha, ha₁⟩ := h₁.exists_name fun h => h.exists_name
    obtain ⟨b, hb, hb₂⟩ := h₂.exists_name fun h => h.exists_name
    obtain rfl := ha.name_eq E.lineage.filed E.distinct hb
    exact ha₁.cell_eq hb₂
  · intro c₁ c₂ c h₁ h₂
    obtain ⟨a, ha₁, ha⟩ := h₁.exists_name fun h => h.exists_name
    obtain ⟨b, hb₂, hb⟩ := h₂.exists_name fun h => h.exists_name
    obtain rfl := ha.name_eq E'.lineage.filed E'.distinct hb
    exact ha₁.cell_eq hb₂
  · intro c c' h
    obtain ⟨cell, hcell⟩ : ∃ cell, x.store.cell? c = some cell := by
      cases h with
      | scalar h => cases h
      | known h =>
        obtain ⟨cell, -, hcell, -⟩ := h.agree hs.cells E.lineage.filed.hosted
          E'.lineage.filed.hosted
        exact ⟨cell, hcell⟩
      | cell _ _ hcell => exact ⟨_, hcell⟩
    obtain ⟨cell', hcell', hshell, hparts⟩ := (E.reads hs E').agree h hcell
    exact ⟨cell, cell', hcell, hcell', hshell, hparts.imp fun _ _ h => h.same⟩
  · intro n i i' hi hi'
    have same : ∀ {k}, x'.decoder.ids.lookup n = some k → k = i' :=
      fun hk => Option.some.inj (hk.symm.trans hi')
    have same' : ∀ {k}, x.decoder.ids.lookup n = some k → k = i :=
      fun hk => Option.some.inj (hk.symm.trans hi)
    cases hstate : (x.decoder.entry i).state with
    | reviving => exact absurd hstate (E.rested i)
    | fulfilled v =>
      obtain ⟨k, v', hk, hv', htwins⟩ := (hfollows n).1.fulfilled i v hi hstate
      obtain rfl := same hk
      rw [hv']
      exact .fulfilled htwins.same
    | rejected r =>
      obtain ⟨k, r', hk, hr'⟩ := (hfollows n).1.rejected i r hi hstate
      obtain rfl := same hk
      rw [hr']
      exact .rejected r r'
    | pending =>
      cases hstate' : (x'.decoder.entry i').state with
      | pending => exact .pending
      | _ =>
        have hcame := (E'.portrait.parts i').came n hi' (by rw [hstate']; rfl)
        obtain ⟨k, hk, hpending⟩ := E.arrived n hcame
        obtain rfl := same' hk
        rw [hstate] at hpending
        cases hpending
    | blocked =>
      cases hstate' : (x'.decoder.entry i').state with
      | blocked => exact .blocked
      | reviving => exact absurd hstate' (E'.rested i')
      | pending =>
        have hcame := (E.portrait.parts i).came n hi (by rw [hstate]; rfl)
        obtain ⟨k, hk, hpending⟩ := E'.arrived n hcame
        obtain rfl := same hk
        rw [hstate'] at hpending
        cases hpending
      | fulfilled v' =>
        obtain ⟨k, v, hk, hv, -⟩ := (hfollows n).2.fulfilled i' v' hi' hstate'
        obtain rfl := same' hk
        cases hstate.symm.trans hv
      | rejected r' =>
        obtain ⟨k, r, hk, hr⟩ := (hfollows n).2.rejected i' r' hi' hstate'
        obtain rfl := same' hk
        cases hstate.symm.trans hr

/-! ### Any two orders -/

section Rows

variable {rows rows' : List RawRow} {loads : Import → Gift}

theorem valueRow?_eq_some_iff (hdistinct : (rows.map RawRow.id).Nodup) {r : RawRow} :
    valueRow? rows n = some r ↔ r ∈ rows ∧ r.id = n ∧ r.isValue := by
  constructor
  · intro h
    have hr := List.find?_some h
    simp only [Bool.and_eq_true, beq_iff_eq] at hr
    exact ⟨List.mem_of_find?_eq_some h, hr⟩
  · rintro ⟨hmem, hid, hvalue⟩
    cases h : valueRow? rows n with
    | none =>
      have hnot := List.find?_eq_none.mp h r hmem
      simp [hid, hvalue] at hnot
    | some r' =>
      have hr := List.find?_some h
      simp only [Bool.and_eq_true, beq_iff_eq] at hr
      rw [List.inj_on_of_nodup_map hdistinct (List.mem_of_find?_eq_some h) hmem
        (hr.1.trans hid.symm)]

/-- Rows with ids of their own bring the same values in any order. -/
theorem valueRow?_perm (hdistinct : (rows.map RawRow.id).Nodup) (hperm : rows'.Perm rows) :
    valueRow? rows' = valueRow? rows := by
  funext n
  refine Option.ext fun r => ?_
  rw [valueRow?_eq_some_iff hdistinct, valueRow?_eq_some_iff
    ((hperm.map RawRow.id).nodup_iff.mpr hdistinct), hperm.mem_iff]

theorem Settling.perm (S : Settling rows) (hperm : rows'.Perm rows) : Settling rows' where
  distinct := (hperm.map RawRow.id).nodup_iff.mpr S.distinct
  value r hr := S.value r (hperm.mem_iff.mp hr)
  plain r hr := S.plain r (hperm.mem_iff.mp hr)

/-- Finitely many rows without circles: going from row to row along references comes to an end. -/
theorem refers_wellFounded (hcircle : ∀ n, CircleFree rows n) :
    WellFounded fun m n => Refers rows n m := by
  let below : {n // n ∈ rows.map RawRow.id} → {n // n ∈ rows.map RawRow.id} → Prop := fun a b =>
    Relation.TransGen (Refers rows) b.1 a.1
  have : IsTrans _ below := ⟨fun a b c hab hbc => hbc.trans hab⟩
  have : Std.Irrefl below := ⟨fun a ha => hcircle a.1 a.1 .refl ha⟩
  have : Finite {n // n ∈ rows.map RawRow.id} := (rows.map RawRow.id).finite_toSet.to_subtype
  have hwf : WellFounded below := Finite.wellFounded_of_trans_of_irrefl below
  have known : ∀ {n m}, Refers rows n m → n ∈ rows.map RawRow.id := by
    rintro n m ⟨r, hr, -⟩
    have hid := List.find?_some hr
    simp only [Bool.and_eq_true, beq_iff_eq] at hid
    exact List.mem_map.mpr ⟨r, List.mem_of_find?_eq_some hr, hid.1⟩
  have unknown : ∀ {n}, n ∉ rows.map RawRow.id → Acc (fun m n => Refers rows n m) n := fun hn =>
    ⟨_, fun m hm => absurd (known hm) hn⟩
  have accessible : ∀ a : {n // n ∈ rows.map RawRow.id}, Acc (fun m n => Refers rows n m) a.1 :=
      fun a => by
    induction a using hwf.induction with
    | _ a ih =>
      refine ⟨_, fun m hm => ?_⟩
      by_cases hknown : m ∈ rows.map RawRow.id
      · exact ih ⟨m, hknown⟩ (.single hm)
      · exact unknown hknown
  refine ⟨fun n => ?_⟩
  by_cases hknown : n ∈ rows.map RawRow.id
  · exact accessible ⟨n, hknown⟩
  · exact unknown hknown

theorem importGift_uniform (hloads : ∀ m, (loads m).Uniform n) (payload : Bytes) :
    (importGift loads payload).Uniform n := by
  unfold importGift
  split
  · trivial
  · split
    · trivial
    · exact hloads _

theorem binaryGift_uniform (n : Nat) (kind : BinaryKind) (payload : Bytes) :
    (binaryGift kind payload).Uniform n := by
  unfold binaryGift
  split
  · trivial
  · exact Gift.uniform_cell (by rintro u ⟨⟩)

/-- A row that settles its entry and opens no stream has a model or brings a value of its own. -/
theorem RawRow.model?_or_gift? {row : RawRow} (hvalue : row.isValue)
    (hplain : row.isOpening = false) (hloads : ∀ m, (loads m).Uniform n) :
    (∃ j, row.model? = some j) ∨ ∃ g, row.gift? loads = some g ∧ g.Uniform n := by
  rw [RawRow.isValue] at hvalue
  rw [RawRow.isOpening] at hplain
  rw [RawRow.model?, RawRow.gift?]
  cases hsort : row.sort? with
  | none =>
    rw [hsort] at hvalue
    cases hvalue
  | some sort =>
    rw [hsort] at hvalue hplain
    cases sort with
    | model =>
      cases hread : Json.read (Utf8.decodeLossy row.payload) with
      | error f => exact .inr ⟨.refusal, by simp [RowSort.gift?, hread, Except.toOption], trivial⟩
      | ok j => exact .inl ⟨j, rfl⟩
    | binary kind => exact .inr ⟨_, rfl, binaryGift_uniform n kind row.payload⟩
    | tagged tag =>
      cases tag with
      | text => exact .inr ⟨_, rfl, Gift.uniform_value trivial⟩
      | importing => exact .inr ⟨_, rfl, importGift_uniform hloads row.payload⟩
      | error => exact .inr ⟨_, rfl, trivial⟩
      | postpone => exact .inr ⟨_, rfl, trivial⟩
      | stream kind => cases hplain
      | _ => cases hvalue

theorem Settling.idle_plain (S : Settling rows) (hcircle : ∀ n, CircleFree rows n)
    (hloads : ∀ m, (loads m).Uniform base.cells.size) (host : CellId → Prop) :
    Idle.Plain (scriptOf rows host) (giftOf loads rows) base where
  calm := hcircle
  distinct := (scriptOf_fits rows host).distinct
  kinds n hn := by
    obtain ⟨r, hr⟩ := Option.isSome_iff_exists.mp hn
    have hmem := ((valueRow?_eq_some_iff S.distinct).mp hr).1
    rw [show (scriptOf rows host).model n = r.model? by simp [scriptOf, hr], giftOf, hr]
    exact r.model?_or_gift? (S.value r hmem) (S.plain r hmem) hloads
  grounded := by
    refine Subrelation.wf (r := fun m n => Refers rows n m) ?_ (refers_wellFounded hcircle)
    rintro m n ⟨j, hj, hm⟩
    obtain ⟨r, hr, hj⟩ := Option.bind_eq_some_iff.mp hj
    exact ⟨r, hr, by rw [RawRow.referents, hj]; exact hm⟩

/-- A decoder that all rows have come to is idle. -/
theorem Arrived.idle {reader : RowReader} {x : Decoding} {h : List WatcherEvent}
    (A : Arrived rows loads options base rows reader x)
    (hrests : Rests (.fed rows reader) h x.decoder) :
    ∃ O C D, Idle (scriptOf rows (· < base.cells.size)) (giftOf loads rows)
      options base O C D x := by
  obtain ⟨O, N⟩ := A.descends
  obtain ⟨C, D, P⟩ := A.shown.painted
  have T := A.shown.tidy
  refine ⟨O, C, D, N, P, T.orderly.distinct, fun n hn => ?_, fun i hi => ?_, fun i hi => ?_,
    fun t ht => ?_⟩
  · obtain ⟨r, hr⟩ := Option.isSome_iff_exists.mp hn
    have hid := List.find?_some hr
    simp only [Bool.and_eq_true, beq_iff_eq] at hid
    obtain ⟨i, hi, hpending⟩ := T.orderly.arrived n
      ⟨r, List.mem_of_find?_eq_some hr, hid.1.symm, hid.2⟩
    refine ⟨i, hi, Bool.eq_false_iff.mpr fun h => ?_⟩
    cases hpending h
  · cases T.orderly.reviving i hi
  · exact T.waits.settled i hi (hrests.wake ▸ List.not_mem_nil)
  · obtain ⟨i, -, w, hw, hcounts⟩ := T.waits.exists_awaits (t := t) (by rw [ht]; rfl)
    exact ⟨i, w, hw, hcounts⟩

/-- A decoder that is fed pieces until all rows have come. -/
theorem exists_idle {s : Store} (hs : s.Sound) (hl : options.loader.Steady loads s.cells.size)
    (ht : ∀ set, options.temporaries = some set → set < s.temporaries.size) {pieces : List Bytes}
    (hfault : (RowReader.start.feed pieces.flatten).fault = none)
    (S : Settling (RowReader.start.feed pieces.flatten).rows)
    (hcircle : ∀ n, CircleFree (RowReader.start.feed pieces.flatten).rows n) :
    ∃ O C D, Idle (scriptOf (RowReader.start.feed pieces.flatten).rows (· < s.cells.size))
      (giftOf loads (RowReader.start.feed pieces.flatten).rows) options s O C D
        (feedEach pieces ⟨.create options, s⟩).2 := by
  have hfed : (feedEach pieces ⟨.create options, s⟩).2 =
      afterRows pieces.flatten ⟨.create options, s⟩ := by
    have hopen := feed_of_open (x := ⟨.create options, s⟩) rfl pieces.flatten
    rw [show ((Decoder.create options).reader.feed pieces.flatten).fault =
      none from hfault] at hopen
    rw [(feedEach_eq_feed pieces ⟨.create options, s⟩).1, hopen]
  rw [hfed]
  have A : Arrived _ loads options s (RowReader.start.feed pieces.flatten).rows _
      (afterRows pieces.flatten ⟨.create options, s⟩) :=
    (arrived_create hs hl ht _ (RowReader.start.feed pieces.flatten).reader).takeRows hl S hcircle
      List.prefix_rfl
  have hrests : ∃ h,
      Rests (.fed (RowReader.start.feed pieces.flatten).rows
        (RowReader.start.feed pieces.flatten).reader) h
      (afterRows pieces.flatten ⟨.create options, s⟩).decoder := by
    cases between_create options with
    | working _ R =>
      exact ⟨_, (R.setReader (x := ⟨.create options, s⟩) _).takeRows
        (x := ⟨{ Decoder.create options with
          reader := (RowReader.start.feed pieces.flatten).reader }, s⟩) _⟩
    | shut S => cases S.closed
  obtain ⟨h, R⟩ := hrests
  exact A.idle R

end Rows

/-- **The order of rows does not matter** if they have ids of their own, open no streams and do not
refer to each other in a circle, and if the loader always answers in the same way. Two decoders that
were created alike are fed the same rows in different orders. Each row ends in the same state, and
the values, handles and derived values of all rows are the same up to the numbers of cells, with one
translation for all of them. -/
theorem order_makes_no_difference {options : DecoderOptions} {s : Store} {loads : Import → Gift}
    (hs : s.Sound) (hl : options.loader.Steady loads s.cells.size)
    (ht : ∀ set, options.temporaries = some set → set < s.temporaries.size)
    {pieces pieces' : List Bytes} (hfault : (RowReader.start.feed pieces.flatten).fault = none)
    (hfault' : (RowReader.start.feed pieces'.flatten).fault = none)
    (hperm : (RowReader.start.feed pieces'.flatten).rows.Perm
      (RowReader.start.feed pieces.flatten).rows)
    (hrows : Settling (RowReader.start.feed pieces.flatten).rows)
    (hcircle : ∀ n, CircleFree (RowReader.start.feed pieces.flatten).rows n) :
    ∃ β, Isomorphic β s (feedEach pieces ⟨.create options, s⟩).2
      (feedEach pieces' ⟨.create options, s⟩).2 ∧
      ∀ r ∈ (RowReader.start.feed pieces.flatten).rows, ∃ state state',
        (feedEach pieces ⟨.create options, s⟩).2.decoder.status? r.id = some state ∧
        (feedEach pieces' ⟨.create options, s⟩).2.decoder.status? r.id = some state' ∧
          state.Same β state' := by
  have hvalue := valueRow?_perm hrows.distinct hperm
  have hrefers : Refers (RowReader.start.feed pieces'.flatten).rows =
      Refers (RowReader.start.feed pieces.flatten).rows := by
    funext a b
    rw [Refers, Refers, hvalue]
  have hfree : CircleFree (RowReader.start.feed pieces'.flatten).rows =
      CircleFree (RowReader.start.feed pieces.flatten).rows := by
    funext n
    rw [CircleFree, CircleFree, hrefers]
  obtain ⟨O, C, D, E⟩ := exists_idle hs hl ht hfault hrows hcircle
  obtain ⟨O', C', D', E'⟩ := exists_idle hs hl ht hfault' (hrows.perm hperm) (hfree ▸ hcircle)
  rw [show scriptOf (RowReader.start.feed pieces'.flatten).rows (· < s.cells.size) =
      scriptOf (RowReader.start.feed pieces.flatten).rows (· < s.cells.size) by simp only [scriptOf,
        hvalue, hfree],
    show giftOf loads (RowReader.start.feed pieces'.flatten).rows = giftOf loads
        (RowReader.start.feed pieces.flatten).rows by
      funext n; rw [giftOf, giftOf, hvalue]] at E'
  obtain ⟨β, I⟩ := E.isomorphic hs (hrows.idle_plain hcircle hl.uniform _) E'
  refine ⟨β, I, fun r hr => ?_⟩
  have hcame : (scriptOf (RowReader.start.feed pieces.flatten).rows (· < s.cells.size)).came
      r.id := by
    simp [scriptOf, (valueRow?_eq_some_iff hrows.distinct).mpr ⟨hr, rfl, hrows.value r hr⟩]
  obtain ⟨i, hi, -⟩ := E.arrived r.id hcame
  obtain ⟨i', hi', -⟩ := E'.arrived r.id hcame
  exact ⟨_, _, by rw [status?, hi]; rfl, by rw [status?, hi']; rfl, I.states r.id i i' hi hi'⟩

/-- **Whatever does not look up a variable is steady.** Among these is the loader that describes
each module by an object with an array in it. -/
theorem LoaderChoice.exists_steady {choice : LoaderChoice} (h : ∀ name, choice ≠ .named name)
    (n : Nat) : ∃ loads, choice.loader.Steady loads n := by
  cases choice with
  | standard =>
    exact ⟨fun m => .cell (.client (m.id ++ "#" ++ m.name) m.isAsync), fun _ _ =>
      .graph (by simp [loader, Loader.standard, Store.make]) rfl,
      fun _ => Gift.uniform_cell (by rintro u ⟨⟩)⟩
  | failing =>
    exact ⟨fun _ => .refusal, fun _ _ => .refusal [] _ (by simp [loader]) (by rintro c ⟨⟩) rfl,
      fun _ => trivial⟩
  | joined =>
    exact ⟨fun m => .value (.string (m.id ++ "/" ++ m.name)), fun _ _ =>
      .graph (by simp [loader]) rfl, fun _ => Gift.uniform_value trivial⟩
  | fields =>
    refine ⟨fun m => .graph (fun k => [.array (m.chunks.map .string),
        .object [("id", .string m.id), ("chunks", .cell k), ("name", .string m.name),
          ("async", .bool m.isAsync)]])
      (fun k => .cell (k + 1)), fun m s => ?_, fun m k k' =>
        ⟨.new (i := 1) Nat.one_lt_two, .cons ?_ (.cons ?_ .nil)⟩⟩
    · have hvalue : (fields.loader.load m s).1 = .ok (.cell (s.cells.size + 1)) := by
        simp [loader, Store.make]
      rw [hvalue]
      exact .graph (Array.ext' (by simp [loader, Store.make])) rfl
    · exact Cell.agree_array (List.forall₂_same.mpr fun u hu => by
        obtain ⟨text, -, rfl⟩ := List.mem_map.mp hu
        exact .scalar rfl)
    · exact Cell.agree_object (.cons ⟨rfl, .scalar rfl⟩ (.cons ⟨rfl, .new (i := 0) Nat.two_pos⟩
        (.cons ⟨rfl, .scalar rfl⟩ (.cons ⟨rfl, .scalar rfl⟩ .nil))))
  | named name => exact absurd rfl (h name)

/-- A map of the row before it that is shared, a row that misses one, a row that takes the value of
one that failed, a module, and a row that takes the module and a part of it. -/
def orderedPieces : List Bytes :=
  [utf8 "0:\x7b\"x\":[7]\x7d\n1:[[\"k\",\"$0\"]]\n",
    utf8 "2:\x7b\"m\":\"$Q1\",\"n\":\"$Q1\",\"p\":\"$0:x:0\"\x7d\n8:[\"$6\",\"$@2\"]\n",
    utf8 "4:[\n5:\"$4\"\n9:I[\"m\",[\"c\"],\"f\"]\na:[\"$9\",\"$9:chunks\"]\n"]

/-- The same rows the other way round. -/
def reversedPieces : List Bytes :=
  [utf8 "a:[\"$9\",\"$9:chunks\"]\n9:I[\"m\",[\"c\"],\"f\"]\n5:\"$4\"\n4:[\n8:[\"$6\",\"$@2\"]\n",
    utf8 "2:\x7b\"m\":\"$Q1\",\"n\":\"$Q1\",\"p\":\"$0:x:0\"\x7d\n",
    utf8 "1:[[\"k\",\"$0\"]]\n0:\x7b\"x\":[7]\x7d\n"]

/-- Options with the loader that describes each module by an object. -/
def describing : DecoderOptions :=
  { (default : DecoderOptions) with loader := LoaderChoice.fields.loader }

theorem order_makes_no_difference_reversed :
    (RowReader.start.feed reversedPieces.flatten).rows.Perm
      (RowReader.start.feed orderedPieces.flatten).rows ∧
    ∃ β, Isomorphic β {} (feedEach orderedPieces ⟨.create describing, {}⟩).2
        (feedEach reversedPieces ⟨.create describing, {}⟩).2 ∧
      ∀ r ∈ (RowReader.start.feed orderedPieces.flatten).rows, ∃ state state',
        (feedEach orderedPieces ⟨.create describing, {}⟩).2.decoder.status? r.id = some state ∧
        (feedEach reversedPieces ⟨.create describing, {}⟩).2.decoder.status? r.id = some state' ∧
          state.Same β state' := by
  have hperm : (RowReader.start.feed reversedPieces.flatten).rows.Perm
      (RowReader.start.feed orderedPieces.flatten).rows := by
    decide +kernel
  have hrows : Settling (RowReader.start.feed orderedPieces.flatten).rows :=
    ⟨by decide +kernel, by decide +kernel, by decide +kernel⟩
  have hchoice : ∀ name, LoaderChoice.fields ≠ .named name := by rintro name ⟨⟩
  obtain ⟨loads, hl⟩ : ∃ loads, describing.loader.Steady loads 0 :=
    LoaderChoice.exists_steady hchoice 0
  exact ⟨hperm, order_makes_no_difference (s := {}) sound_empty hl
    (by rintro _ ⟨⟩) (Option.isNone_iff_eq_none.mp (by decide +kernel))
    (Option.isNone_iff_eq_none.mp (by decide +kernel)) hperm hrows
    (circleFree_of_lt (by decide +kernel))⟩

end GraphRows
