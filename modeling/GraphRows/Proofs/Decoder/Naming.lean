import GraphRows.Proofs.Decoder.Fulfilment
import GraphRows.Proofs.Decoder.Lineage
import GraphRows.Proofs.Store.Matching

/-!
# The names of cells

When all rows have come, every cell that can be reached from a fulfilled row has a name that does
not speak of numbers: it is the handle of a row, what a reference made of a row, a cell that a row
brought, or the array at a place of a row. No two cells have one name, and no cell has two. So the
cells of two decoders that have read the same rows can be told to be the same by their names, and
values match (`Twins`) if they are made of cells with the same names in the same way.

## Main results

* `Called.cell_eq`, `Called.name_eq`: names and cells are in one-to-one correspondence
* `Idle.twins_of_says`: what one token stands for, on both sides
* `Pictured.twins`: what one payload draws, on both sides
* `Idle.faulty`: a token that is refused on one side is refused on the other
-/

namespace GraphRows

open Decoder

/-! ### Names -/

/-- What a cell is. -/
inductive Name where
  /-- a cell of the host -/
  | host (c : CellId)
  /-- the handle of a row -/
  | handle (n : Nat)
  /-- what a reference has made of a row -/
  | made (n : Nat) (shape : Shape)
  /-- the `k`-th of the cells that a row has brought, the value of which is the `r`-th -/
  | brought (n r k : Nat)
  /-- what stands for a temporary reference -/
  | temporary (set : Nat) (id : String)
  /-- the array or object that a row is -/
  | root (n : Nat)
  /-- an array or object at a place of an array -/
  | item (array : Name) (index : Nat)
  /-- an array or object at a place of an object -/
  | field (object : Name) (key : String)

/-- The cell has the name. -/
inductive Called (base : Store) (O : CellId → Option Origin) (x : Decoding) : Name → CellId → Prop
  | host {c : CellId} (h : c < base.cells.size) : Called base O x (.host c) c
  | handle {n i : Nat} {c : CellId} (hn : x.decoder.ids.lookup n = some i)
      (h : (x.decoder.entry i).handle = c)
      (ho : O c = some (.handle i)) : Called base O x (.handle n) c
  | made {n i : Nat} {shape : Shape} {c : CellId} (hn : x.decoder.ids.lookup n = some i)
      (h : x.decoder.derived.lookup (i, shape) = some (.cell c)) (ho : O c = some (.made i shape)) :
      Called base O x (.made n shape) c
  | brought {n i r k : Nat} {c c' : CellId} (hn : x.decoder.ids.lookup n = some i)
      (h : (x.decoder.entry i).state = .fulfilled (.cell c')) (hc : c' + k = c + r)
      (ho : O c = some (.brought i r k)) : Called base O x (.brought n r k) c
  | temporary {set : Nat} {id : String} {c : CellId}
      (h : x.store.temporary? set id = some (.cell c))
      (ho : O c = some (.temporary set id)) : Called base O x (.temporary set id) c
  | root {n i : Nat} {c : CellId} (hn : x.decoder.ids.lookup n = some i)
      (h : (x.decoder.entry i).state = .fulfilled (.cell c)) (ho : O c = some (.node i .root)) :
        Called base O x (.root n) c
  | item {a : Name} {array c : CellId} {items : List Value} {k t : Nat}
      (ha : Called base O x a array)
      (harray : x.store.cell? array = some (.array items)) (h : items[k]? = some (.cell c))
      (ho : O c = some (.node t (.item array k))) : Called base O x (.item a k) c
  | field {a : Name} {object c : CellId} {fields : List (String × Value)} {key : String} {t : Nat}
      (ha : Called base O x a object) (hobject : x.store.cell? object = some (.object fields))
      (h : fields.lookup key = some (.cell c)) (ho : O c = some (.node t (.field object key))) :
        Called base O x (.field a key) c

section Names

variable {base : Store} {O : CellId → Option Origin} {x : Decoding} {a a' : Name} {c c' : CellId}

/-- **No two cells have one name.** -/
theorem Called.cell_eq (h : Called base O x a c) : ∀ {c'}, Called base O x a c' → c = c' := by
  induction h with
  | host h =>
    intro c' h'
    cases h' with
    | host => rfl
  | handle hn h =>
    intro c' h'
    cases h' with
    | handle hn' h' =>
      obtain rfl := Option.some.inj (hn.symm.trans hn')
      exact h.symm.trans h'
  | made hn h =>
    intro c' h'
    cases h' with
    | made hn' h' =>
      obtain rfl := Option.some.inj (hn.symm.trans hn')
      exact Value.cell.inj (Option.some.inj (h.symm.trans h'))
  | brought hn h hc =>
    intro c' h'
    cases h' with
    | brought hn' h' hc' =>
      obtain rfl := Option.some.inj (hn.symm.trans hn')
      obtain rfl := Value.cell.inj (EntryState.fulfilled.inj (h.symm.trans h'))
      exact Nat.add_right_cancel (hc.symm.trans hc')
  | temporary h =>
    intro c' h'
    cases h' with
    | temporary h' => exact Value.cell.inj (Option.some.inj (h.symm.trans h'))
  | root hn h =>
    intro c' h'
    cases h' with
    | root hn' h' =>
      obtain rfl := Option.some.inj (hn.symm.trans hn')
      exact Value.cell.inj (EntryState.fulfilled.inj (h.symm.trans h'))
  | item _ harray h _ ih =>
    intro c' h'
    cases h' with
    | item ha' harray' h' =>
      obtain rfl := ih ha'
      obtain rfl := Cell.array.inj (Option.some.inj (harray.symm.trans harray'))
      exact Value.cell.inj (Option.some.inj (h.symm.trans h'))
  | field _ hobject h _ ih =>
    intro c' h'
    cases h' with
    | field ha' hobject' h' =>
      obtain rfl := ih ha'
      obtain rfl := Cell.object.inj (Option.some.inj (hobject.symm.trans hobject'))
      exact Value.cell.inj (Option.some.inj (h.symm.trans h'))

/-- **No cell has two names**, as its origin tells which of them it has. -/
theorem Called.name_eq (F : Filed base O x)
    (hdistinct : ∀ n n' i, x.decoder.ids.lookup n = some i → x.decoder.ids.lookup n' =
      some i → n = n')
    (h : Called base O x a c) : ∀ {a'}, Called base O x a' c → a = a' := by
  have host : ∀ {c o}, O c = some o → ¬ c < base.cells.size :=
    fun ho => Nat.not_lt.mpr (F.bound _ _ ho).1
  induction h with
  | host h =>
    intro a' h'
    cases h' with
    | host => rfl
    | _ =>
      rename_i ho
      exact absurd h (host ho)
  | handle hn _ ho =>
    intro a' h'
    cases h' with
    | host h' => exact absurd h' (host ho)
    | handle hn' _ ho' =>
      cases ho.symm.trans ho'
      rw [hdistinct _ _ _ hn hn']
    | _ =>
      rename_i ho'
      cases ho.symm.trans ho'
  | made hn _ ho =>
    intro a' h'
    cases h' with
    | host h' => exact absurd h' (host ho)
    | made hn' _ ho' =>
      cases ho.symm.trans ho'
      rw [hdistinct _ _ _ hn hn']
    | _ =>
      rename_i ho'
      cases ho.symm.trans ho'
  | brought hn _ _ ho =>
    intro a' h'
    cases h' with
    | host h' => exact absurd h' (host ho)
    | brought hn' _ _ ho' =>
      cases ho.symm.trans ho'
      rw [hdistinct _ _ _ hn hn']
    | _ =>
      rename_i ho'
      cases ho.symm.trans ho'
  | temporary _ ho =>
    intro a' h'
    cases h' with
    | host h' => exact absurd h' (host ho)
    | _ =>
      rename_i ho'
      cases ho.symm.trans ho'
      try rfl
  | root hn _ ho =>
    intro a' h'
    cases h' with
    | host h' => exact absurd h' (host ho)
    | root hn' _ ho' =>
      cases ho.symm.trans ho'
      rw [hdistinct _ _ _ hn hn']
    | _ =>
      rename_i ho'
      cases ho.symm.trans ho'
  | item _ _ _ ho ih =>
    intro a' h'
    cases h' with
    | host h' => exact absurd h' (host ho)
    | item ha' _ _ ho' =>
      cases ho.symm.trans ho'
      rw [ih ha']
    | _ =>
      rename_i ho'
      cases ho.symm.trans ho'
  | field _ _ _ ho ih =>
    intro a' h'
    cases h' with
    | host h' => exact absurd h' (host ho)
    | field ha' _ _ ho' =>
      cases ho.symm.trans ho'
      rw [ih ha']
    | _ =>
      rename_i ho'
      cases ho.symm.trans ho'

end Names

/-! ### Twins -/

/-- Cells of two decoders that are the same from the beginning: one of the host's, or the `l`-th of
the cells of a gift that both have got for one row. -/
inductive Given (base : Store) (O O' : CellId → Option Origin) (x x' : Decoding) : CellId →
    CellId → Prop
  | host {c : CellId} (h : c < base.cells.size) : Given base O O' x x' c c
  | brought {n i i' k k' r l : Nat} {cells : CellId → List Cell} {v : CellId → Value}
      (huniform : (Gift.graph cells v).Uniform base.cells.size)
      (hi : x.decoder.ids.lookup n = some i) (hi' : x'.decoder.ids.lookup n = some i')
      (hv : (x.decoder.entry i).state = .fulfilled (.cell (k + r)))
      (hv' : (x'.decoder.entry i').state = .fulfilled (.cell (k' + r)))
      (hstands : Gift.Stands O x i k r (cells k)) (hstands' : Gift.Stands O' x' i' k' r (cells k'))
      (hl : Gift.Reaches (cells k) k r l) (hl' : Gift.Reaches (cells k') k' r l) :
      Given base O O' x x' (k + l) (k' + l)

/-- Values of two decoders that are the same up to the numbers of cells. -/
abbrev Twins (base : Store) (O O' : CellId → Option Origin) (x x' : Decoding) :
    Value → Value → Prop :=
  Match (Given base O O' x x') (Called base O x) (Called base O' x') x.store x'.store

namespace Given

variable {base : Store} {O O' : CellId → Option Origin} {x x' : Decoding} {c c' : CellId}

theorem symm (h : Given base O O' x x' c c') : Given base O' O x' x c' c := by
  cases h with
  | host h => exact .host h
  | brought huniform hi hi' hv hv' hstands hstands' hl hl' =>
    exact .brought huniform hi' hi hv' hv hstands' hstands hl' hl

theorem exists_name (h : Given base O O' x x' c c') :
    ∃ a, Called base O x a c ∧ Called base O' x' a c' := by
  cases h with
  | host h => exact ⟨.host c, .host h, .host h⟩
  | @brought n i i' k k' r l _ _ _ hi hi' hv hv' hstands hstands' hl hl' =>
    exact ⟨.brought n r l, .brought hi hv (Nat.add_right_comm k r l) (hstands l hl).1,
      .brought hi' hv' (Nat.add_right_comm k' r l) (hstands' l hl').1⟩

/-- **The contents of cells that are the same from the beginning** agree. What the cells of a gift
lead to is reached on both sides at once. -/
theorem agree (R : base.Region (· < base.cells.size)) (K : base.Keeps (· < base.cells.size) x.store)
    (K' : base.Keeps (· < base.cells.size) x'.store) (h : Given base O O' x x' c c') :
    ∃ cell cell', x.store.cell? c = some cell ∧ x'.store.cell? c' = some cell' ∧
      cell.Agree (Twins base O O' x x') cell' := by
  cases h with
  | host h =>
    obtain ⟨old, hold, hparts⟩ := R c h
    obtain ⟨cell, hcell, halike⟩ := K c old h hold
    obtain ⟨cell', hcell', halike'⟩ := K' c old h hold
    refine ⟨cell, cell', hcell, hcell', halike.shell_eq.trans halike'.shell_eq.symm, ?_⟩
    rw [halike.parts_eq, halike'.parts_eq]
    exact List.forall₂_same.mpr fun u hu => .of_inside (fun _ h => .host h) (hparts u hu)
  | @brought n i i' k k' r l cells v huniform hi hi' hv hv' hstands hstands' hl hl' =>
    obtain ⟨-, old, cell, hold, hcell, halike⟩ := hstands l hl
    obtain ⟨-, old', cell', hold', hcell', halike'⟩ := hstands' l hl'
    have hlength := (huniform k k').2.length_eq
    obtain ⟨old₁, hold₁, hshell, hparts⟩ := exists_getElem?_of_forall₂ (huniform k k').2 hold
    obtain rfl := Option.some.inj (hold₁.symm.trans hold')
    refine ⟨cell, cell', hcell, hcell', halike.shell_eq.trans
      (hshell.trans halike'.shell_eq.symm), ?_⟩
    rw [halike.parts_eq, halike'.parts_eq]
    refine List.forall₂_iff_get.mpr ⟨hparts.length_eq, fun m hm hm' => ?_⟩
    have hmem := List.get_mem old.parts ⟨m, hm⟩
    have hmem' := List.get_mem old₁.parts ⟨m, hm'⟩
    have hmoved := hparts.get hm hm'
    generalize old.parts.get ⟨m, hm⟩ = u at hmem hmoved
    generalize old₁.parts.get ⟨m, hm'⟩ = u' at hmem' hmoved
    cases hmoved with
    | scalar h => exact .scalar h
    | host h => exact .known (.host h)
    | new h =>
      exact .known (.brought huniform hi hi' hv hv' hstands hstands' (.part hl hold h hmem)
        (.part hl' hold' (hlength ▸ h) hmem'))

end Given

/-! ### Decoders at the end -/

/-- A decoder that all rows have come to and that is not at work. -/
structure Idle (p : Script) (gift : Nat → Option Gift) (options : DecoderOptions) (base : Store)
    (O : CellId → Option Origin)
    (C : CellId → Prop) (D : Nat → CellId → Prop) (x : Decoding) : Prop where
  lineage : Lineage p gift options base O [] x
  portrait : Portrait p C D [] x
  distinct : ∀ n n' i, x.decoder.ids.lookup n = some i → x.decoder.ids.lookup n' = some i → n = n'
  arrived : ∀ n, p.came n → ∃ i, x.decoder.ids.lookup n = some i ∧
    (x.decoder.entry i).state.isPending = false
  rested : ∀ i, (x.decoder.entry i).state ≠ .reviving
  awaited : ∀ i, (x.decoder.entry i).state.isTerminal → (x.decoder.entry i).watchers = []
  awaits : ∀ t, (x.decoder.entry t).state = .blocked →
    ∃ i, ∃ w ∈ (x.decoder.entry i).watchers, w.counts t

/-- What becomes of a row on one side becomes of it on the other. -/
structure Follows (base : Store) (O O' : CellId → Option Origin) (x x' : Decoding)
    (n : Nat) : Prop where
  rejected : ∀ i r, x.decoder.ids.lookup n = some i → (x.decoder.entry i).state = .rejected r →
    ∃ i' r', x'.decoder.ids.lookup n = some i' ∧ (x'.decoder.entry i').state = .rejected r'
  fulfilled : ∀ i v, x.decoder.ids.lookup n = some i → (x.decoder.entry i).state = .fulfilled v →
    ∃ i' v', x'.decoder.ids.lookup n = some i' ∧ (x'.decoder.entry i').state = .fulfilled v' ∧
      Twins base O O' x x' v v'

section Sides

variable {p : Script} {gift : Nat → Option Gift} {options : DecoderOptions} {base : Store}
  {O O' : CellId → Option Origin}
  {C C' : CellId → Prop} {D D' : Nat → CellId → Prop} {x x' : Decoding} {n : Nat} {v v' : Value}

/-! ### What tokens stand for -/

/-- Handles of one row. -/
theorem Idle.twins_handle (E : Idle p gift options base O C D x)
    (E' : Idle p gift options base O' C' D' x') {i i' : Nat} (hi : x.decoder.ids.lookup n = some i)
    (hi' : x'.decoder.ids.lookup n = some i') :
    Twins base O O' x x' (.cell (x.decoder.entry i).handle)
      (.cell (x'.decoder.entry i').handle) := by
  have hlt := E.portrait.ground.named n i hi
  have hlt' := E'.portrait.ground.named n i' hi'
  exact .of_agree (.handle hi rfl (E.lineage.filed.handles i hlt))
    (.handle hi' rfl (E'.lineage.filed.handles i' hlt'))
    (E.portrait.ground.handled.promise i hlt) (E'.portrait.ground.handled.promise i' hlt')
      ⟨rfl, .nil⟩

/-- Temporary references of one name. -/
theorem Idle.twins_temporary (hs : base.Sound) (E : Idle p gift options base O C D x)
    (E' : Idle p gift options base O' C' D' x') {set : Nat} {id : String}
    (hv : x.store.temporary? set id = some v) (hv' : x'.store.temporary? set id = some v') :
    Twins base O O' x x' v v' := by
  have given : ∀ {w}, base.temporary? set id = some w → Twins base O O' x x' v v' :=
      fun {w} hw => by
    obtain rfl := Option.some.inj ((E.lineage.filed.given set id w hw).symm.trans hv)
    obtain rfl := Option.some.inj ((E'.lineage.filed.given set id w hw).symm.trans hv')
    exact .of_inside (fun _ h => .host h) (hs.temporaries set id w hw)
  rcases E.lineage.filed.temporaries set id v hv with hw | ⟨c, rfl, ho, hcell⟩
  · exact given hw
  rcases E'.lineage.filed.temporaries set id v' hv' with hw | ⟨c', rfl, ho', hcell'⟩
  · exact given hw
  exact .of_agree (.temporary hv ho) (.temporary hv' ho') hcell hcell' ⟨rfl, .nil⟩

/-- Reading does not tell the two sides apart. -/
theorem Idle.reads (hs : base.Sound) (E : Idle p gift options base O C D x)
    (E' : Idle p gift options base O' C' D' x') : Reads (Twins base O O' x x') x.store x'.store :=
  Match.reads fun h => h.agree hs.cells E.lineage.filed.hosted E'.lineage.filed.hosted

/-- One reference into rows that match. -/
theorem Idle.twins_of_leads (hs : base.Sound) (E : Idle p gift options base O C D x)
    (E' : Idle p gift options base O' C' D' x') (hfollows : Follows base O O' x x' n)
    {path : List String} {shape : Shape} (h : x.decoder.Leads x.store n path shape v)
    (h' : x'.decoder.Leads x'.store n path shape v') : Twins base O O' x x' v v' := by
  obtain ⟨i, w, hi, hw, h⟩ := h
  obtain ⟨i', w', hi', hw', h'⟩ := h'
  obtain ⟨k, u, hk, hu, hmatch⟩ := hfollows.fulfilled i w hi hw
  obtain rfl := Option.some.inj (hk.symm.trans hi')
  obtain rfl := EntryState.fulfilled.inj (hu.symm.trans hw')
  by_cases hshape : shape = .plain
  · rw [if_pos hshape] at h h'
    obtain ⟨u', hu', htwins⟩ := (E.reads hs E').walk hmatch h
    obtain rfl := Except.ok.inj (hu'.symm.trans h')
    exact htwins
  · rw [if_neg hshape] at h h'
    obtain ⟨hmade, cell, hcell, hv⟩ := h
    obtain ⟨hmade', cell', hcell', hv'⟩ := h'
    obtain ⟨c, rfl, ho⟩ := E.lineage.filed.derived i shape v hmade
    obtain ⟨c', rfl, ho'⟩ := E'.lineage.filed.derived k shape v' hmade'
    obtain ⟨made, hshaped, hagree⟩ := (E.reads hs E').shaped hmatch hcell
    obtain rfl := Except.ok.inj (hshaped.symm.trans hcell')
    exact .of_agree (.made hi hmade ho) (.made hi' hmade' ho') hv hv' hagree

/-- **What one payload without parts says** matches on both sides. -/
theorem Idle.twins_of_says (hs : base.Sound) (E : Idle p gift options base O C D x)
    (E' : Idle p gift options base O' C' D' x') {j : Json}
    (hfollows : ∀ n ∈ j.referents, Follows base O O' x x' n) (h : j.Says x.decoder x.store v)
    (hb : Borrowed x j v) (h' : j.Says x'.decoder x'.store v') (hb' : Borrowed x' j v') :
    Twins base O O' x x' v v' := by
  cases j with
  | str text =>
    obtain ⟨token, hparse, hmeans⟩ := h
    obtain ⟨token', hparse', hmeans'⟩ := h'
    obtain rfl := Except.ok.inj (hparse.symm.trans hparse')
    cases href : token.reference? with
    | some r =>
      obtain ⟨id, path, shape⟩ := r
      have hid : token.referent? = some id := by
        rw [token.referent?_eq, href]
        rfl
      exact E.twins_of_leads hs E' (hfollows id (Json.mem_referents_str hparse hid))
        ((Token.means_of_reference? href).mp hmeans) ((Token.means_of_reference? href).mp hmeans')
    | none =>
      cases token with
      | promise id =>
        obtain ⟨i, hi, rfl⟩ := hmeans
        obtain ⟨i', hi', rfl⟩ := hmeans'
        exact E.twins_handle E' hi hi'
      | temporary id =>
        obtain ⟨set, hset, hv⟩ := hb text id rfl hparse
        obtain ⟨set', hset', hv'⟩ := hb' text id rfl hparse
        rw [E.lineage.options] at hset
        rw [E'.lineage.options] at hset'
        obtain rfl := Option.some.inj (hset.symm.trans hset')
        exact E.twins_temporary hs E' hv hv'
      | row r => cases href
      | derived kind id => cases href
      | binary kind id => cases href
      | _ =>
        obtain rfl := hmeans
        obtain rfl := hmeans'
        exact .scalar rfl
  | arr items => exact h.elim
  | obj fields => exact h.elim
  | _ =>
    obtain rfl := h
    obtain rfl := h'
    exact .scalar rfl

/-! ### What payloads draw -/

section Drawn

variable {leaf leaf' : Hole → Json → Value → Prop} {P : Nat → Prop} {t t' : Nat}

theorem lookup_of_mem_of_nodup {α : Type} {key : String} {a : α} : ∀ {fields : List (String × α)},
    (fields.map Prod.fst).Nodup → (key, a) ∈ fields → fields.lookup key = some a := by
  intro fields hnodup hmem
  induction fields with
  | nil => cases hmem
  | cons f fields ih =>
    obtain ⟨k, b⟩ := f
    obtain ⟨hnot, hnodup⟩ := List.nodup_cons.mp hnodup
    rcases List.mem_cons.mp hmem with heq | hrest
    · obtain ⟨rfl, rfl⟩ := Prod.mk.inj heq
      exact List.lookup_cons_self
    · have hne : key ≠ k := by
        rintro rfl
        exact hnot (List.mem_map.mpr ⟨_, hrest, rfl⟩)
      rw [List.lookup_cons, beq_false_of_ne hne]
      exact ih hnodup hrest

/-- The name of a place of the cell with the name `a`. -/
def Hole.named (a : Name) : Hole → Name
  | .item _ k => .item a k
  | .field _ key => .field a key
  | .root => a

/-- What is drawn at a place of a cell with a name has the name of the place. -/
theorem Called.place {a : Name} {c d : CellId} {j : Json} {vs : List Value}
    (hc : Called base O x a c) (hcell : x.store.cell? c = some (j.cellWith vs))
    (hdistinct : j.Distinct) {k : Nat} (hk : k < (j.places c).length)
    (hvs : (j.places c).length = vs.length) (hd : vs[k]? = some (.cell d))
    (ho : O d = some (.node t ((j.places c).get ⟨k, hk⟩).1)) :
    Called base O x (((j.places c).get ⟨k, hk⟩).1.named a) d := by
  cases j with
  | arr items =>
    simp only [Json.places, List.get_eq_getElem, List.getElem_mapIdx] at ho ⊢
    exact .item hc hcell hd ho
  | obj fields =>
    simp only [Json.places, List.get_eq_getElem, List.getElem_map] at ho ⊢
    have hlength : (fields.map Prod.fst).length = vs.length := by simpa [Json.places] using hvs
    refine .field hc hcell (lookup_of_mem_of_nodup ?_ (List.mem_of_getElem? (i := k) ?_)) ho
    · rw [List.map_fst_zip (Nat.le_of_eq hlength)]
      exact hdistinct.1
    · simp [List.getElem?_zip_eq_some, hd, show k < fields.length by simpa [Json.places] using hk]
  | _ => cases hk

/-- At the places of two cells stands the same, and the places are named alike. -/
theorem Json.places_alike (j : Json) (c c' : CellId) (a : Name) {k : Nat}
    (hk : k < (j.places c).length) (hk' : k < (j.places c').length) :
    ((j.places c').get ⟨k, hk'⟩).2 = ((j.places c).get ⟨k, hk⟩).2 ∧
      ((j.places c').get ⟨k, hk'⟩).1.named a = ((j.places c).get ⟨k, hk⟩).1.named a := by
  cases j with
  | arr items => simp [Json.places, Hole.named]
  | obj fields => simp [Json.places, Hole.named]
  | _ => cases hk

theorem Json.agree_cellWith {R : Value → Value → Prop} (j : Json) {vs vs' : List Value}
    (h : List.Forall₂ R vs vs') : Cell.Agree R (j.cellWith vs) (j.cellWith vs') := by
  cases j with
  | obj fields =>
    refine Cell.agree_object ?_
    induction h generalizing fields with
    | nil => simp
    | cons hv hvs ih =>
      cases fields with
      | nil => exact .nil
      | cons f fields => exact .cons ⟨rfl, hv⟩ (ih fields)
  | _ => exact Cell.agree_array h

/-- **What one payload draws** on both sides matches, if its leaves do. -/
theorem Pictured.twins
    (hleaf : ∀ h h' j v v', (∀ n ∈ j.referents, P n) → leaf h j v → leaf' h' j v' →
      Twins base O O' x x' v v')
    {j : Json} {h h' : Hole} {v v' : Value} {a : Name} (hP : ∀ n ∈ j.referents, P n)
    (hdistinct : j.Distinct)
    (hname : ∀ c, v = .cell c → O c = some (.node t h) → Called base O x a c)
    (hname' : ∀ c, v' = .cell c → O' c = some (.node t' h') → Called base O' x' a c)
    (hv : Pictured leaf (fun h c => O c = some (.node t h)) x.store h j v)
    (hv' : Pictured leaf' (fun h c => O' c = some (.node t' h)) x'.store h' j v') :
    Twins base O O' x x' v v' := by
  induction j using Json.parts_induction generalizing h h' v v' a with
  | leaf j hj => exact hleaf _ _ _ _ _ hP ((pictured_leaf hj).mp hv) ((pictured_leaf hj).mp hv')
  | node j hj ih =>
    obtain ⟨c, vs, rfl, ho, hcell, hvs⟩ := (pictured_node hj).mp hv
    obtain ⟨c', vs', rfl, ho', hcell', hvs'⟩ := (pictured_node hj).mp hv'
    have hc := hname c rfl ho
    have hc' := hname' c' rfl ho'
    have hplaces : (j.places c').length = (j.places c).length := by
      rw [← List.length_map (f := Prod.snd), ← List.length_map (f := Prod.snd), j.map_snd_places,
        j.map_snd_places]
    refine .of_agree hc hc' hcell hcell' (j.agree_cellWith (List.forall₂_iff_get.mpr
      ⟨hvs.length_eq.symm.trans (hplaces.symm.trans hvs'.length_eq), fun k hk hk' => ?_⟩))
    have hq : k < (j.places c).length := hvs.length_eq ▸ hk
    have hq' : k < (j.places c').length := hvs'.length_eq ▸ hk'
    obtain ⟨hpart, hnamed⟩ := j.places_alike c c' a hq hq'
    have hmem := Json.snd_mem_parts (List.get_mem (j.places c) ⟨k, hq⟩)
    refine ih _ hmem (a := ((j.places c).get ⟨k, hq⟩).1.named a)
      (fun n hn => hP n (Json.mem_referents_of_mem_parts hmem hn))
      (hdistinct.parts _ hmem) ?_ ?_ (hvs.get hq hk) (hpart ▸ hvs'.get hq' hk')
    · exact fun d hd ho => hc.place hcell hdistinct hq hvs.length_eq
        ((List.getElem?_eq_getElem hk).trans (congrArg some hd)) ho
    · intro d hd ho
      rw [← hnamed]
      exact hc'.place hcell' hdistinct hq' hvs'.length_eq
        ((List.getElem?_eq_getElem hk').trans (congrArg some hd)) ho

end Drawn

/-! ### What is refused -/

/-- **A string that is to blame on one side** is to blame on the other. -/
theorem Idle.faulty (hs : base.Sound) (E : Idle p gift options base O C D x)
    (E' : Idle p gift options base O' C' D' x') {text : String}
    (hfollows : ∀ n ∈ (Json.str text).referents, Follows base O O' x x' n)
    (h : Faulty x.decoder x.store text) : Faulty x'.decoder x'.store text := by
  rcases h with h | ⟨token, hparse, h⟩
  · exact .inl h
  refine .inr ⟨token, hparse, ?_⟩
  have refers : ∀ {id path shape}, token.reference? = some (id, path, shape) →
    Follows base O O' x x' id := fun href =>
    hfollows _ (Json.mem_referents_str hparse (by rw [token.referent?_eq, href]; rfl))
  cases h with
  | temporary h =>
    refine .temporary ?_
    rw [E'.lineage.options, ← E.lineage.options]
    exact h
  | rejected href hid hr =>
    obtain ⟨i', r', hid', hr'⟩ := (refers href).rejected _ _ hid hr
    exact .rejected href hid' hr'
  | unfit href hid hw h =>
    obtain ⟨i', w', hid', hw', hmatch⟩ := (refers href).fulfilled _ _ hid hw
    refine .unfit href hid' hw' fun u' hu' => ?_
    obtain ⟨u, hu, hmatch'⟩ := (E'.reads hs E).walk (hmatch.symm Given.symm) hu'
    obtain ⟨hshape, hnot⟩ := h u hu
    refine ⟨hshape, fun c' hc' => ?_⟩
    obtain ⟨c, hc, -⟩ := (E'.reads hs E).shaped hmatch' hc'
    exact hnot c hc

/-- A string that says something is not to blame. -/
theorem not_faulty_of_says {text : String} (h : (Json.str text).Says x.decoder x.store v)
    (hb : Borrowed x (.str text) v) : ¬ Faulty x.decoder x.store text := by
  obtain ⟨token, hparse, hmeans⟩ := h
  rintro (⟨f, hf⟩ | ⟨token', hparse', hrefused⟩)
  · cases hparse.symm.trans hf
  obtain rfl := Except.ok.inj (hparse.symm.trans hparse')
  cases hrefused with
  | temporary hnone =>
    obtain ⟨set, hset, -⟩ := hb text _ rfl hparse
    cases hnone.symm.trans hset
  | rejected href hid hr =>
    obtain ⟨i, w, hi, hw, -⟩ := (Token.means_of_reference? href).mp hmeans
    obtain rfl := Option.some.inj (hid.symm.trans hi)
    cases hr.symm.trans hw
  | unfit href hid hu hunfit =>
    obtain ⟨i, w, hi, hw, hlead⟩ := (Token.means_of_reference? href).mp hmeans
    obtain rfl := Option.some.inj (hid.symm.trans hi)
    obtain rfl := EntryState.fulfilled.inj (hu.symm.trans hw)
    split at hlead
    · rename_i hshape
      exact (hunfit _ hlead).1 hshape
    · rename_i hshape
      obtain ⟨-, c, hc, -⟩ := hlead
      rw [Token.path_eq_nil href hshape] at hunfit
      exact (hunfit _ rfl).2 c hc

/-- A string that refers to a row that is not settled is not to blame. -/
theorem not_faulty_of_unsettled {text : String} {token : Token} {id i : Nat} {path : List String}
    {shape : Shape} (hparse : Token.parse text = .ok token)
    (href : token.reference? = some (id, path, shape)) (hid : x.decoder.ids.lookup id = some i)
    (hi : (x.decoder.entry i).state.isTerminal = false) : ¬ Faulty x.decoder x.store text := by
  rintro (⟨f, hf⟩ | ⟨token', hparse', hrefused⟩)
  · cases hparse.symm.trans hf
  obtain rfl := Except.ok.inj (hparse.symm.trans hparse')
  cases hrefused with
  | temporary hnone => cases href
  | rejected href' hid' hr =>
    obtain ⟨rfl, -⟩ := Prod.mk.inj (Option.some.inj (href.symm.trans href'))
    obtain rfl := Option.some.inj (hid.symm.trans hid')
    rw [hr] at hi
    cases hi
  | unfit href' hid' hw =>
    obtain ⟨rfl, -⟩ := Prod.mk.inj (Option.some.inj (href.symm.trans href'))
    obtain rfl := Option.some.inj (hid.symm.trans hid')
    rw [hw] at hi
    cases hi

end Sides

end GraphRows
