import GraphRows.Proofs.Decoder.Places
import GraphRows.Proofs.Store.Regions

/-!
# What a payload draws

Reading a payload draws it into the store: every array and object of the payload becomes a cell, and
at every other place stands a value. `Pictured leaf node s` says so of a payload and a value. What
`leaf` asks of the other places, and what `node` asks of the cells, differs: while rows are missing,
some places are holes.

The picture is a tree in the payload but not in the store, so a cell might stand at two places of
it. None of the lemmas needs to exclude that: filling a hole changes every place that is this hole,
and they are all drawn alike.

`Written` is the finished picture, where every place holds what its token means: a scalar, the
handle of a row, or what a reference leads to.

## Main results

* `Pictured.mono`: what a change elsewhere leaves of a picture
* `Pictured.fill`: a hole is filled
* `Pictured.exists_region`: the cells of a picture lead nowhere else
-/

namespace GraphRows

namespace Token

/-- Where a token leads: a row, a path in its value, and what to make of the value there. -/
def reference? : Token → Option (Nat × List String × Shape)
  | .row r => some (r.row, r.path, .plain)
  | .derived kind id => some (id, [], .derived kind)
  | .binary kind id => some (id, [], .binary kind)
  | _ => none

theorem referent?_eq (t : Token) : t.referent? = t.reference?.map (·.1) := by
  cases t <;> rfl

/-- A token that refers to a row is about this row. -/
theorem row?_of_referent? {t : Token} {n : Nat} (h : t.referent? = some n) : t.row? = some n := by
  cases t with
  | row r => exact h
  | derived kind id => exact h
  | binary kind id => exact h
  | _ => cases h

/-- Only plain references have a path. -/
theorem path_eq_nil {t : Token} {id : Nat} {path : List String} {shape : Shape}
    (h : t.reference? = some (id, path, shape)) (hshape : shape ≠ .plain) : path = [] := by
  cases t <;> simp only [reference?, Option.some.injEq, Prod.mk.injEq, reduceCtorEq] at h
  · exact absurd h.2.2.symm hshape
  · exact h.2.1.symm
  · exact h.2.1.symm

end Token

namespace Hole

/-- The hole is a place of its object. -/
def Sited (s : Store) : Hole → Prop
  | .field object key =>
    ∃ fields, s.cell? object = some (.object fields) ∧ key ∈ fields.map Prod.fst
  | _ => True

/-- What stands at a place when a hole has been filled. -/
def put (filled : Hole) (v : Value) (hole : Hole) (u : Value) : Value :=
  if hole = filled then v else u

theorem put_self (filled : Hole) (v u : Value) : put filled v filled u = v := if_pos rfl

theorem put_of_ne {filled hole : Hole} (h : hole ≠ filled) (v u : Value) :
    put filled v hole u = u :=
  if_neg h

end Hole

mutual

/-- The value is drawn as the payload says, its arrays and objects with `node` and its other places
with `leaf`. -/
def Pictured (leaf : Hole → Json → Value → Prop) (node : Hole → CellId → Prop) (s : Store)
    (hole : Hole) : Json → Value → Prop
  | .arr items, v => ∃ c vs, v = .cell c ∧ node hole c ∧ s.cell? c = some (.array vs) ∧
    PicturedItems leaf node s c 0 items vs
  | .obj fields, v => ∃ c vs, v = .cell c ∧ node hole c ∧ s.cell? c = some (.object vs) ∧
    PicturedFields leaf node s c fields vs
  | j, v => leaf hole j v

/-- The items of an array from an index on are drawn as the payload says. -/
def PicturedItems (leaf : Hole → Json → Value → Prop) (node : Hole → CellId → Prop) (s : Store)
    (array : CellId) : Nat → List Json → List Value → Prop
  | _, [], vs => vs = []
  | i, j :: js, vs => ∃ u us, vs = u :: us ∧ Pictured leaf node s (.item array i) j u ∧
    PicturedItems leaf node s array (i + 1) js us

/-- The fields of an object are drawn as the payload says. -/
def PicturedFields (leaf : Hole → Json → Value → Prop) (node : Hole → CellId → Prop) (s : Store)
    (object : CellId) : List (String × Json) → List (String × Value) → Prop
  | [], vs => vs = []
  | (k, j) :: fs, vs => ∃ u us, vs = (k, u) :: us ∧ Pictured leaf node s (.field object k) j u ∧
    PicturedFields leaf node s object fs us

end

section Pictures

variable {leaf leaf' : Hole → Json → Value → Prop} {node node' : Hole → CellId → Prop}
  {s s' : Store}

/-- What is drawn at some places. -/
abbrev PicturedEach (leaf : Hole → Json → Value → Prop) (node : Hole → CellId → Prop) (s : Store)
    (ps : List (Hole × Json)) (vs : List Value) : Prop :=
  List.Forall₂ (fun p v => Pictured leaf node s p.1 p.2 v) ps vs

theorem picturedItems_iff {array : CellId} {js : List Json} :
    ∀ {i : Nat} {vs : List Value},
    PicturedItems leaf node s array i js vs ↔
      PicturedEach leaf node s (js.mapIdx fun k j => (.item array (i + k), j)) vs := by
  induction js with
  | nil => exact List.forall₂_nil_left_iff.symm
  | cons j js ih =>
    intro i vs
    rw [List.mapIdx_cons, PicturedEach, List.forall₂_cons_left_iff]
    refine exists_congr fun u => exists_congr fun us => ?_
    rw [ih]
    simp only [Nat.add_assoc, Nat.add_comm 1]
    exact ⟨fun ⟨hvs, hu, hus⟩ => ⟨hu, hus, hvs⟩, fun ⟨hu, hus, hvs⟩ => ⟨hvs, hu, hus⟩⟩

theorem picturedFields_iff {object : CellId} {fs : List (String × Json)} :
    ∀ {vs : List (String × Value)},
    PicturedFields leaf node s object fs vs ↔
      ∃ us, vs = (fs.map Prod.fst).zip us ∧
        PicturedEach leaf node s (fs.map fun f => (.field object f.1, f.2)) us := by
  induction fs with
  | nil =>
    intro vs
    refine ⟨fun h => ⟨[], h, .nil⟩, ?_⟩
    rintro ⟨us, h, -⟩
    exact h
  | cons f fs ih =>
    intro vs
    constructor
    · rintro ⟨u, us, rfl, hu, hus⟩
      obtain ⟨us, rfl, hus'⟩ := ih.mp hus
      exact ⟨u :: us, rfl, .cons hu hus'⟩
    · rintro ⟨us, rfl, hus⟩
      obtain ⟨u, us, hu, hus', rfl⟩ := List.forall₂_cons_left_iff.mp hus
      exact ⟨u, _, rfl, hu, ih.mpr ⟨us, rfl, hus'⟩⟩

theorem pictured_leaf {j : Json} (hj : j.isNode = false) {hole : Hole} {v : Value} :
    Pictured leaf node s hole j v ↔ leaf hole j v := by
  cases j with
  | arr items => cases hj
  | obj fields => cases hj
  | _ => rfl

/-- An array or object is drawn in a cell, with what is drawn at its places. -/
theorem pictured_node {j : Json} (hj : j.isNode = true) {hole : Hole} {v : Value} :
    Pictured leaf node s hole j v ↔ ∃ c vs, v = .cell c ∧ node hole c ∧
      s.cell? c = some (j.cellWith vs) ∧ PicturedEach leaf node s (j.places c) vs := by
  cases j with
  | arr items =>
    refine exists_congr fun c => exists_congr fun vs => and_congr_right fun _ => and_congr_right
      fun _ => and_congr_right fun _ => ?_
    rw [picturedItems_iff]
    simp only [Nat.zero_add]
    rfl
  | obj fields =>
    constructor
    · rintro ⟨c, vs, rfl, hc, hcell, hfields⟩
      obtain ⟨us, rfl, hus⟩ := picturedFields_iff.mp hfields
      exact ⟨c, us, rfl, hc, hcell, hus⟩
    · rintro ⟨c, us, rfl, hc, hcell, hus⟩
      exact ⟨c, _, rfl, hc, hcell, picturedFields_iff.mpr ⟨us, rfl, hus⟩⟩
  | _ => cases hj

/-- What follows at every place. -/
theorem PicturedEach.imp {R : Hole × Json → Value → Prop} {ps : List (Hole × Json)}
    {vs : List Value} (hvs : PicturedEach leaf node s ps vs)
    (h : ∀ p ∈ ps, ∀ v, Pictured leaf node s p.1 p.2 v → R p v) : List.Forall₂ R ps vs :=
  ((List.forall₂_and_left _ _).mpr ⟨h, hvs⟩).imp fun _ v h => h.1 v h.2

/-- What follows for every part. -/
theorem PicturedEach.forall_parts {P : Json → Prop} {j : Json} {c : CellId} {vs : List Value}
    (hvs : PicturedEach leaf node s (j.places c) vs)
    (h : ∀ k ∈ j.parts, ∀ hole v, Pictured leaf node s hole k v → P k) : ∀ k ∈ j.parts, P k := by
  intro k hk
  rw [← j.map_snd_places c] at hk
  obtain ⟨p, hp, rfl⟩ := List.mem_map.mp hk
  exact ((List.forall₂_and_left _ _).mp (hvs.imp fun p hp v hv =>
    ⟨h p.2 (Json.snd_mem_parts hp) p.1 v hv, hv⟩)).1 p hp

/-- The parts of the cell of an array or object are what is drawn at its places. -/
theorem PicturedEach.parts_cellWith {j : Json} (hj : j.isNode = true) {c : CellId} {vs : List Value}
    (hvs : PicturedEach leaf node s (j.places c) vs) : (j.cellWith vs).parts = vs := by
  cases j with
  | arr items => rfl
  | obj fields =>
    refine List.map_snd_zip (Nat.le_of_eq ?_)
    rw [← hvs.length_eq, Json.places, List.length_map, List.length_map]
  | _ => cases hj

/-- The places of an object are places of its cell. -/
theorem sited_of_mem_places {j : Json} {c : CellId} {vs : List Value} {q : Hole × Json}
    (hq : q ∈ j.places c) (hcell : s.cell? c = some (j.cellWith vs))
    (hvs : vs.length = (j.places c).length) : q.1.Sited s := by
  cases j with
  | arr items =>
    obtain ⟨i, hi, rfl⟩ := List.mem_mapIdx.mp hq
    trivial
  | obj fields =>
    obtain ⟨f, hf, rfl⟩ := List.mem_map.mp hq
    refine ⟨_, hcell, ?_⟩
    rw [List.map_fst_zip (by simp [hvs, Json.places])]
    exact List.mem_map_of_mem hf
  | _ => cases hq

/-! ### A change elsewhere -/

/-- A change that spares the leaves and the cells of a picture at the places with `Q`, of which it
never leaves. -/
structure Spares (Q : Hole → Prop) (leaf leaf' : Hole → Json → Value → Prop)
    (node node' : Hole → CellId → Prop) (s s' : Store) : Prop where
  below : ∀ h c, Q h → node h c → ∀ h' : Hole, h'.cell? = some c → Q h'
  leaves : ∀ h j v, Q h → leaf h j v → leaf' h j v
  nodes : ∀ h c, Q h → node h c → node' h c
  cells : ∀ h c, Q h → node h c → ∀ cell, s.cell? c = some cell → (∀ p, cell ≠ .promise p) →
    (∀ st, cell ≠ .stream st) → s'.cell? c = some cell

/-- **What a change elsewhere leaves of a picture**: all of it. -/
theorem Pictured.mono {Q : Hole → Prop} (S : Spares Q leaf leaf' node node' s s') {j : Json}
    {hole : Hole} {v : Value} (hq : Q hole) (h : Pictured leaf node s hole j v) :
    Pictured leaf' node' s' hole j v := by
  induction j using Json.parts_induction generalizing hole v with
  | leaf j hj =>
    rw [pictured_leaf hj] at h ⊢
    exact S.leaves hole j v hq h
  | node j hj ih =>
    rw [pictured_node hj] at h ⊢
    obtain ⟨c, vs, rfl, hc, hcell, hvs⟩ := h
    refine ⟨c, vs, rfl, S.nodes hole c hq hc,
      S.cells hole c hq hc _ hcell (j.cellWith_ne_promise vs) (j.cellWith_ne_stream vs), hvs.imp
        fun p hp v hv => ?_⟩
    exact ih p.2 (Json.snd_mem_parts hp) (S.below hole c hq hc p.1 (Json.cell?_of_mem_places hp)) hv

theorem PicturedEach.mono {Q : Hole → Prop} (S : Spares Q leaf leaf' node node' s s')
    {ps : List (Hole × Json)} {vs : List Value} (hq : ∀ p ∈ ps, Q p.1)
    (h : PicturedEach leaf node s ps vs) : PicturedEach leaf' node' s' ps vs :=
  h.imp fun p hp _ hv => hv.mono S (hq p hp)

/-! ### Filling a hole -/

section Fill

variable {filled : Hole} {v₀ : Value}

/-- Filling a hole of an array. -/
theorem cell?_fill_array {c : CellId} {vs : List Value} (hcell : s.cell? c = some (.array vs)) :
    (s.fill filled v₀).cell? c =
      some (.array (vs.mapIdx fun k u => Hole.put filled v₀ (.item c k) u)) := by
  have same : (∀ k, Hole.item c k ≠ filled) →
      (vs.mapIdx fun k u => Hole.put filled v₀ (.item c k) u) = vs := by
    intro hne
    refine List.ext_getElem (by simp) fun k _ _ => ?_
    rw [List.getElem_mapIdx, Hole.put_of_ne (hne k)]
  cases filled with
  | root => exact (same fun k => nofun).symm ▸ hcell
  | field object key =>
    rw [same fun k => nofun, Store.fill]
    split
    · rename_i fields hobject
      have hne : object ≠ c := by
        rintro rfl
        exact absurd (hobject.symm.trans hcell) nofun
      rw [Store.cell?_write_ne _ _ hne, hcell]
    · exact hcell
  | item array i =>
    rw [Store.fill]
    by_cases hc : array = c
    · subst hc
      rw [hcell]
      dsimp only
      rw [Store.cell?_write_self _ _ (Store.cell?_lt_size hcell)]
      refine congrArg (some ∘ Cell.array) (List.ext_getElem (by simp) fun k _ _ => ?_)
      rw [List.getElem_mapIdx, List.getElem_set, Hole.put]
      simp only [Hole.item.injEq, true_and, eq_comm]
    · rw [same fun k hk => hc (by injection hk with h; exact h.symm)]
      split
      · rw [Store.cell?_write_ne _ _ hc, hcell]
      · exact hcell

theorem setField_eq_map {key : String} : ∀ {fields : List (String × Value)},
    (fields.map Prod.fst).Nodup → key ∈ fields.map Prod.fst → ∀ c, Json.setField key v₀ fields =
      fields.map fun f => (f.1, Hole.put (.field c key) v₀ (.field c f.1) f.2)
  | [], _, h, _ => absurd h List.not_mem_nil
  | (k, u) :: fields, hnodup, h, c => by
    rw [List.map_cons, List.nodup_cons] at hnodup
    rw [Json.setField, List.map_cons]
    by_cases hk : k = key
    · subst hk
      rw [if_pos (beq_self_eq_true k), Hole.put_self]
      refine congrArg _ ((List.map_congr_left fun f hf => ?_).trans (List.map_id _)).symm
      have hne : f.1 ≠ k := fun h => hnodup.1 (List.mem_map.mpr ⟨f, hf, h⟩)
      rw [Hole.put_of_ne fun h => hne (by injection h), id]
    · have hmem : key ∈ fields.map Prod.fst := (List.mem_cons.mp h).resolve_left (Ne.symm hk)
      rw [if_neg (by simpa using hk), Hole.put_of_ne fun h => hk (by injection h),
        setField_eq_map hnodup.2 hmem c]

/-- Filling a hole of an object. -/
theorem cell?_fill_object {c : CellId} {vs : List (String × Value)}
    (hcell : s.cell? c = some (.object vs)) (hnodup : (vs.map Prod.fst).Nodup)
    (hsited : filled.Sited s) :
    (s.fill filled v₀).cell? c =
      some (.object (vs.map fun f => (f.1, Hole.put filled v₀ (.field c f.1) f.2))) := by
  have same : (∀ key, Hole.field c key ≠ filled) →
      (vs.map fun f => (f.1, Hole.put filled v₀ (.field c f.1) f.2)) = vs := by
    intro hne
    refine (List.map_congr_left fun f _ => ?_).trans (List.map_id _)
    rw [Hole.put_of_ne (hne f.1), id]
  cases filled with
  | root => exact (same fun k => nofun).symm ▸ hcell
  | item array i =>
    rw [same fun k => nofun, Store.fill]
    split
    · rename_i items harray
      have hne : array ≠ c := by
        rintro rfl
        exact absurd (harray.symm.trans hcell) nofun
      rw [Store.cell?_write_ne _ _ hne, hcell]
    · exact hcell
  | field object key =>
    rw [Store.fill]
    by_cases hc : object = c
    · subst hc
      obtain ⟨fields, hfields, hkey⟩ := hsited
      obtain rfl : fields = vs := by simpa using hfields.symm.trans hcell
      rw [hcell]
      dsimp only
      rw [Store.cell?_write_self _ _ (Store.cell?_lt_size hcell),
        setField_eq_map hnodup hkey object]
    · rw [same fun k hk => hc (by injection hk with h; exact h.symm)]
      split
      · rw [Store.cell?_write_ne _ _ hc, hcell]
      · exact hcell

/-- Filling a hole of an array or object. -/
theorem cell?_fill_cellWith {j : Json} (hj : j.isNode = true) (hdistinct : j.Distinct)
    (hsited : filled.Sited s) {c : CellId} {vs : List Value}
    (hcell : s.cell? c = some (j.cellWith vs)) (hvs : PicturedEach leaf node s (j.places c) vs) :
    (s.fill filled v₀).cell? c =
      some (j.cellWith (List.zipWith (fun p u => Hole.put filled v₀ p.1 u) (j.places c) vs)) := by
  have hlength := hvs.length_eq
  cases j with
  | arr items =>
    rw [cell?_fill_array hcell]
    refine congrArg (some ∘ Cell.array) (List.ext_getElem ?_ fun k _ _ => ?_)
    · simp [hlength]
    · simp [Json.places]
  | obj fields =>
    have hkeys : ((fields.map Prod.fst).zip vs).map Prod.fst = fields.map Prod.fst :=
      List.map_fst_zip (Nat.le_of_eq (by simpa [Json.places] using hlength))
    rw [cell?_fill_object hcell (by rw [hkeys]; exact hdistinct.1) hsited]
    refine congrArg (some ∘ Cell.object) (List.ext_getElem ?_ fun k _ _ => ?_)
    · simp [Json.places]
    · simp [Json.places]
  | _ => cases hj

/-- A hole may be filled with `v₀`: only leaves are holes, and with `v₀` they are as they should
be. -/
structure Fills (filled : Hole) (v₀ : Value) (leaf leaf' : Hole → Json → Value → Prop)
    (node node' : Hole → CellId → Prop) (s : Store) : Prop where
  sited : filled.Sited s
  other : ∀ h j v, h ≠ filled → leaf h j v → leaf' h j v
  here : ∀ j v, leaf filled j v → leaf' filled j v₀
  nodes : ∀ h c, node h c → h ≠ filled ∧ node' h c

theorem Fills.put (F : Fills filled v₀ leaf leaf' node node' s) {h : Hole} {j : Json} {v : Value}
    (hv : leaf h j v) : leaf' h j (Hole.put filled v₀ h v) := by
  by_cases hh : h = filled
  · subst hh
    rw [Hole.put_self]
    exact F.here j v hv
  · rw [Hole.put_of_ne hh]
    exact F.other h j v hh hv

/-- **A hole is filled**, at every place of the picture that is this hole. -/
theorem Pictured.fill (F : Fills filled v₀ leaf leaf' node node' s) {j : Json} {hole : Hole}
    {v : Value} (hdistinct : j.Distinct) (h : Pictured leaf node s hole j v) :
    Pictured leaf' node' (s.fill filled v₀) hole j (Hole.put filled v₀ hole v) := by
  induction j using Json.parts_induction generalizing hole v with
  | leaf j hj =>
    rw [pictured_leaf hj] at h ⊢
    exact F.put h
  | node j hj ih =>
    rw [pictured_node hj] at h ⊢
    obtain ⟨c, vs, rfl, hc, hcell, hvs⟩ := h
    obtain ⟨hne, hc'⟩ := F.nodes hole c hc
    rw [Hole.put_of_ne hne]
    refine ⟨c, _, rfl, hc', cell?_fill_cellWith hj hdistinct F.sited hcell hvs, ?_⟩
    have hfilled := hvs.imp fun p hp v hv => ih p.2 (Json.snd_mem_parts hp)
      (hdistinct.parts p.2 (Json.snd_mem_parts hp)) hv
    refine List.forall₂_iff_get.mpr ⟨by simp [hvs.length_eq], fun k hk _ => ?_⟩
    simpa using hfilled.get hk (hvs.length_eq ▸ hk)

end Fill

/-! ### The cells of a picture -/

section Cells

variable {C D : CellId → Prop}

/-- The cells with `D` lead to each other or into `C`. -/
def Closed (C D : CellId → Prop) (s : Store) : Prop :=
  ∀ c, D c → ∃ cell, s.cell? c = some cell ∧ ∀ u ∈ cell.parts, u.Inside fun c => C c ∨ D c

theorem Closed.union {D' : CellId → Prop} (h : Closed C D s) (h' : Closed C D' s) :
    Closed C (fun c => D c ∨ D' c) s := by
  rintro c (hc | hc)
  · obtain ⟨cell, hcell, hparts⟩ := h c hc
    exact ⟨cell, hcell, fun u hu => (hparts u hu).mono fun _ => Or.imp_right .inl⟩
  · obtain ⟨cell, hcell, hparts⟩ := h' c hc
    exact ⟨cell, hcell, fun u hu => (hparts u hu).mono fun _ => Or.imp_right .inr⟩

theorem Closed.insert {c : CellId} {cell : Cell} (h : Closed C D s) (hcell : s.cell? c = some cell)
    (hparts : ∀ u ∈ cell.parts, u.Inside fun c => C c ∨ D c) :
    Closed C (fun k => k = c ∨ D k) s := by
  rintro k (rfl | hk)
  · exact ⟨cell, hcell, fun u hu => (hparts u hu).mono fun _ => Or.imp_right .inr⟩
  · obtain ⟨cell, hcell, hparts⟩ := h k hk
    exact ⟨cell, hcell, fun u hu => (hparts u hu).mono fun _ => Or.imp_right .inr⟩

/-- More cells may be used. -/
theorem spares_of_imp {D' : CellId → Prop} (hD : ∀ c, D c → D' c) :
    Spares (fun _ => True) leaf leaf (fun _ => D) (fun _ => D') s s where
  below _ _ _ _ _ _ := trivial
  leaves _ _ _ _ h := h
  nodes _ c _ h := hD c h
  cells _ _ _ _ _ h _ _ := h

/-- **The cells of a picture** lead to each other, or to where its leaves lead. -/
theorem Pictured.exists_region (hleaf : ∀ h j v, leaf h j v → v.Inside C) {j : Json} {hole : Hole}
    {v : Value} (h : Pictured leaf node s hole j v) :
    ∃ D : CellId → Prop, (∀ c, D c → ∃ h, node h c) ∧ Closed C D s ∧ v.Inside (fun c => C c ∨ D c) ∧
      Pictured leaf (fun _ => D) s hole j v := by
  induction j using Json.parts_induction generalizing hole v with
  | leaf j hj =>
    rw [pictured_leaf hj] at h
    exact ⟨fun _ => False, fun _ h => h.elim, fun _ h => h.elim, (hleaf _ _ _ h).mono fun _ => .inl,
      (pictured_leaf hj).mpr h⟩
  | node j hj ih =>
    obtain ⟨c, vs, rfl, hc, hcell, hvs⟩ := (pictured_node hj).mp h
    -- the regions of the places, joined
    have below : ∀ {ps : List (Hole × Json)} {us : List Value}, (∀ p ∈ ps, p.2 ∈ j.parts) →
        PicturedEach leaf node s ps us →
        ∃ D : CellId → Prop, (∀ c, D c → ∃ h, node h c) ∧ Closed C D s ∧
          (∀ u ∈ us, u.Inside (fun c => C c ∨ D c)) ∧ PicturedEach leaf (fun _ => D) s ps us := by
      intro ps us hps hus
      induction hus with
      | nil =>
        exact ⟨fun _ => False, fun _ h => h.elim, fun _ h => h.elim, fun _ h =>
          absurd h List.not_mem_nil, .nil⟩
      | @cons p u ps us hu hus ihs =>
        obtain ⟨hp, hps⟩ := List.forall_mem_cons.mp hps
        obtain ⟨D, hD, hclosed, hin, hu'⟩ := ih p.2 hp hu
        obtain ⟨D', hD', hclosed', hin', hus'⟩ := ihs hps
        refine ⟨fun c => D c ∨ D' c, fun c hc => hc.elim (hD c) (hD' c), hclosed.union hclosed',
          fun w hw => ?_, .cons (hu'.mono (spares_of_imp fun _ => .inl) trivial) ?_⟩
        · rcases List.mem_cons.mp hw with rfl | hw
          · exact hin.mono fun _ => Or.imp_right .inl
          · exact (hin' w hw).mono fun _ => Or.imp_right .inr
        · exact PicturedEach.mono (spares_of_imp fun _ => .inr) (fun _ _ => trivial) hus'
    obtain ⟨D, hD, hclosed, hin, hvs'⟩ := below (fun p hp => Json.snd_mem_parts hp) hvs
    refine ⟨fun k => k = c ∨ D k, ?_, hclosed.insert hcell ((hvs.parts_cellWith hj).symm ▸ hin),
      .inr (.inl rfl), (pictured_node hj).mpr ⟨c, vs, rfl, .inl rfl, hcell, ?_⟩⟩
    · rintro k (rfl | hk)
      · exact ⟨hole, hc⟩
      · exact hD k hk
    · exact PicturedEach.mono (spares_of_imp fun _ => .inr) (fun _ _ => trivial) hvs'

end Cells

end Pictures

/-! ### The finished picture -/

/-- Where a reference into the row `id` leads: along a path of its value, or to what was made of
it. -/
def Decoder.Leads (d : Decoder) (s : Store) (id : Nat) (path : List String) (shape : Shape)
    (v : Value) : Prop :=
  ∃ i w, d.ids.lookup id = some i ∧ (d.entry i).state = .fulfilled w ∧
    if shape = .plain then s.walk w path = .ok v
    else d.derived.lookup (i, shape) = some v ∧ ∃ c, s.shaped shape w = .ok c ∧ s.cellOf? v = some c

/-- What a token stands for. What a temporary reference stands for is the host's business. -/
def Token.Means (d : Decoder) (s : Store) : Token → Value → Prop
  | .text t, v => v = .string t
  | .undefined, v => v = .undefined
  | .number x, v => v = .number x
  | .symbol name, v => v = .symbol name
  | .date t, v => v = .date t
  | .bigint n, v => v = .bigint n
  | .promise id, v => ∃ i, d.ids.lookup id = some i ∧ v = .cell (d.entry i).handle
  | .temporary _, _ => True
  | .row r, v => d.Leads s r.row r.path .plain v
  | .derived kind id, v => d.Leads s id [] (.derived kind) v
  | .binary kind id, v => d.Leads s id [] (.binary kind) v

/-- What a payload without parts says. -/
def Json.Says (d : Decoder) (s : Store) : Json → Value → Prop
  | .null, v => v = .null
  | .bool b, v => v = .bool b
  | .int n, v => v = .number (.ofInt n)
  | .float x, v => v = .number x
  | .str t, v => ∃ token, Token.parse t = .ok token ∧ token.Means d s v
  | _, _ => False

/-- **The value is what the payload says**, with every reference led to its end. -/
def Written (d : Decoder) (s : Store) (j : Json) (v : Value) : Prop :=
  Pictured (fun _ => Json.Says d s) (fun _ _ => True) s .root j v

theorem Token.means_of_reference? {d : Decoder} {s : Store} {t : Token} {id : Nat}
    {path : List String} {shape : Shape} (h : t.reference? = some (id, path, shape)) {v : Value} :
    t.Means d s v ↔ d.Leads s id path shape v := by
  cases t <;> simp only [Token.reference?, Option.some.injEq, Prod.mk.injEq, reduceCtorEq] at h
  all_goals
    obtain ⟨rfl, rfl, rfl⟩ := h
    rfl

section Referents

variable {d : Decoder} {s : Store} {leaf : Hole → Json → Value → Prop} {node : Hole → CellId → Prop}
  {P : Nat → Prop}

/-- What the leaves know of the rows they refer to, the picture knows. -/
theorem Pictured.referents (hleaf : ∀ h j v, leaf h j v → ∀ n ∈ j.referents, P n) {j : Json}
    {hole : Hole} {v : Value} (h : Pictured leaf node s hole j v) : ∀ n ∈ j.referents, P n := by
  induction j using Json.parts_induction generalizing hole v with
  | leaf j hj => exact hleaf hole j v ((pictured_leaf hj).mp h)
  | node j hj ih =>
    obtain ⟨c, vs, -, -, -, hvs⟩ := (pictured_node hj).mp h
    intro n hn
    rw [Json.referents_node hj] at hn
    obtain ⟨k, hk, hn⟩ := List.mem_flatMap.mp hn
    exact hvs.forall_parts (fun k hk _ _ hv => ih k hk hv) k hk n hn

theorem exists_token_of_mem_referents {t : String} {n : Nat} (h : n ∈ Json.referents (.str t)) :
    ∃ token path shape, Token.parse t = .ok token ∧ token.reference? = some (n, path, shape) := by
  cases hparse : Token.parse t with
  | error e => simp [Json.referents, hparse, Except.toOption] at h
  | ok token =>
    simp only [Json.referents, hparse, Except.toOption, Option.bind_some, Token.referent?_eq,
      Option.mem_toList, Option.map_eq_some_iff] at h
    obtain ⟨⟨id, path, shape⟩, href, rfl⟩ := h
    exact ⟨token, path, shape, rfl, href⟩

/-- **The rows a finished picture refers to are fulfilled.** -/
theorem Json.Says.fulfilled {j : Json} {v : Value} (h : j.Says d s v) :
    ∀ n ∈ j.referents, ∃ i w, d.ids.lookup n = some i ∧ (d.entry i).state = .fulfilled w := by
  intro n hn
  cases j with
  | str t =>
    obtain ⟨token, path, shape, hparse, href⟩ := exists_token_of_mem_referents hn
    obtain ⟨token', hparse', hmeans⟩ := h
    obtain rfl := Except.ok.inj (hparse.symm.trans hparse')
    obtain ⟨i, w, hi, hw, -⟩ := (Token.means_of_reference? href).mp hmeans
    exact ⟨i, w, hi, hw⟩
  | arr items => exact h.elim
  | obj fields => exact h.elim
  | _ => cases hn

end Referents

end GraphRows
