import GraphRows.Proofs.Decoder.Drawing

/-!
# Where cells come from

Two decoders that read the same rows in different orders make the same cells, but at different times
and so under different numbers. To say which cells are the same, every cell that a decoder makes is
remembered with its origin: it is the handle of an entry, was made of an entry by a reference, was
brought by a row, stands for a temporary reference, or was drawn at a place of the draft of an
entry. No two cells have the same origin by accident, since an origin is given to a cell when it is
new.

Reading a row also tells why it failed, if it did: one of its tokens cannot be read, or is refused.

## Main results

* `DecodeM.entryOf_files`, `DecodeM.resolve_files`: the cells of single steps
* `DecodeM.revive_files`: the cells of a row, and the reason it fails
-/

namespace GraphRows

open Decoder

variable {c : CellId} {j : Json} {text : String} {token : Token} {v : Value}

/-! ### Stores that grow -/

namespace Store

variable {s s' s'' : Store}

/-- Every cell is there as it was. -/
def Adds (s s' : Store) : Prop := ∀ c cell, s.cell? c = some cell → s'.cell? c = some cell

theorem Adds.refl (s : Store) : Adds s s := fun _ _ h => h

theorem Adds.trans (h : Adds s s') (h' : Adds s' s'') : Adds s s'' :=
  fun c cell hc => h' c cell (h c cell hc)

theorem Adds.keeps (h : Adds s s') (C : CellId → Prop) : Keeps C s s' :=
  fun c cell _ hc => ⟨cell, h c cell hc, .same cell⟩

theorem Adds.size (h : Adds s s') : s.cells.size ≤ s'.cells.size := by
  refine Nat.le_of_not_lt fun hlt => ?_
  obtain ⟨cell, hcell⟩ := cell?_isSome hlt
  exact Nat.lt_irrefl _ (cell?_lt_size (h _ cell hcell))

theorem adds_alloc (s : Store) (c : Cell) : Adds s (s.alloc c).2 := fun _ _ h =>
  (cell?_alloc_old s c (cell?_lt_size h)).trans h

/-- A cell is written that was not there in the beginning. -/
theorem Adds.write (h : Adds s s') (hc : s.cells.size ≤ c) (cell : Cell) :
    Adds s (s'.write c cell) :=
  fun k old hk =>
    (cell?_write_ne s' cell (Nat.ne_of_gt (Nat.lt_of_lt_of_le (cell?_lt_size hk) hc))).trans
    (h k old hk)

end Store

/-! ### Tokens -/

namespace Json

mutual

/-- The strings of a payload, in the order it is read. -/
def texts : Json → List String
  | .str s => [s]
  | .arr items => itemTexts items
  | .obj fields => fieldTexts fields
  | _ => []

/-- The strings of some values. -/
def itemTexts : List Json → List String
  | [] => []
  | j :: rest => texts j ++ itemTexts rest

/-- The strings of the values of some fields. -/
def fieldTexts : List (String × Json) → List String
  | [] => []
  | (_, j) :: rest => texts j ++ fieldTexts rest

end

theorem texts_node {j : Json} (h : j.isNode = true) : j.texts = j.parts.flatMap texts := by
  cases j with
  | arr items =>
    change itemTexts items = items.flatMap texts
    induction items with
    | nil => rfl
    | cons k rest ih => rw [itemTexts, ih h, List.flatMap_cons]
  | obj fields =>
    change fieldTexts fields = (fields.map Prod.snd).flatMap texts
    induction fields with
    | nil => rfl
    | cons f rest ih => rw [fieldTexts, ih h, List.map_cons, List.flatMap_cons]
  | _ => cases h

theorem mem_texts_of_mem_parts {j k : Json} {text : String} (h : k ∈ j.parts)
    (htext : text ∈ k.texts) : text ∈ j.texts := by
  rw [texts_node (isNode_of_mem_parts h)]
  exact List.mem_flatMap.mpr ⟨k, h, htext⟩

end Json

/-- A token is refused: it names a temporary reference where there are none, or it refers to a row
that is rejected or to something that is not there. -/
inductive Token.Refused (d : Decoder) (s : Store) : Token → Prop
  | temporary {id : String} (h : d.options.temporaries = none) : Refused d s (.temporary id)
  | rejected {t : Token} {id i : Nat} {path : List String} {shape : Shape} {r : Rejection}
      (href : t.reference? = some (id, path, shape)) (hid : d.ids.lookup id = some i)
      (hr : (d.entry i).state = .rejected r) : Refused d s t
  | unfit {t : Token} {id i : Nat} {path : List String} {shape : Shape} {w : Value}
      (href : t.reference? = some (id, path, shape)) (hid : d.ids.lookup id = some i)
      (hw : (d.entry i).state = .fulfilled w)
      (h : ∀ u, s.walk w path = .ok u → shape ≠ .plain ∧ ∀ c, s.shaped shape u ≠ .ok c) :
        Refused d s t

/-- A string that cannot be read as a token, or as one that is refused. -/
def Faulty (d : Decoder) (s : Store) (text : String) : Prop :=
  (∃ f, Token.parse text = .error f) ∨ ∃ token, Token.parse text = .ok token ∧ token.Refused d s

/-- A temporary reference stands for what its set has for the name. -/
def Borrowed (x : Decoding) (j : Json) (v : Value) : Prop :=
  ∀ text id, j = .str text → Token.parse text = .ok (.temporary id) →
    ∃ set, x.decoder.options.temporaries = some set ∧ x.store.temporary? set id = some v

/-- A watcher for a hole of `t`, which stands where one of the strings with `T` says. -/
def Asked (T : String → Prop) (t i : Nat) (w : Watcher) (d : Decoder) : Prop :=
  ∃ h path shape cyclic text token id, w = .hole t h path shape cyclic ∧ T text ∧
    Token.parse text = .ok token ∧
    token.reference? = some (id, path, shape) ∧ d.ids.lookup id = some i

/-! ### Origins -/

/-- Where a cell comes from. -/
inductive Origin where
  /-- the handle of an entry -/
  | handle (i : Nat)
  /-- what a reference has made of an entry -/
  | made (i : Nat) (shape : Shape)
  /-- the `k`-th of the cells that a row has brought for its entry, the value of which is the
  `r`-th -/
  | brought (i r k : Nat)
  /-- what stands for a temporary reference -/
  | temporary (set : Nat) (id : String)
  /-- an array or object at a place of the draft of an entry -/
  | node (t : Nat) (h : Hole)

/-- The cells that came since `base` have the origins `O`, as far as anything is known of them. -/
structure Filed (base : Store) (O : CellId → Option Origin) (x : Decoding) : Prop where
  hosted : base.Keeps (· < base.cells.size) x.store
  cells : base.cells.size ≤ x.store.cells.size
  bound : ∀ c o, O c = some o → base.cells.size ≤ c ∧ c < x.store.cells.size
  handles : ∀ i < x.decoder.entries.size, O (x.decoder.entry i).handle = some (.handle i)
  derived : ∀ i shape v, x.decoder.derived.lookup (i, shape) = some v → ∃ c, v = .cell c ∧
    O c = some (.made i shape)
  sets : ∀ set, x.decoder.options.temporaries = some set → set < x.store.temporaries.size
  given : ∀ set id v, base.temporary? set id = some v → x.store.temporary? set id = some v
  temporaries : ∀ set id v, x.store.temporary? set id = some v → base.temporary? set id = some v ∨
    ∃ c, v = .cell c ∧ O c = some (.temporary set id) ∧ x.store.cell? c = some (.temporary id)

/-- What a step adds that writes to no cell that was there: cells, entries, and watchers for holes
of `t`. -/
structure Grows (T : String → Prop) (t : Nat) (O O' : CellId → Option Origin)
    (x y : Decoding) : Prop where
  options : y.decoder.options = x.decoder.options
  closed : y.decoder.closed = x.decoder.closed
  ids : ∀ n i, x.decoder.ids.lookup n = some i → y.decoder.ids.lookup n = some i
  state : ∀ i, (y.decoder.entry i).state = (x.decoder.entry i).state
  watchers : ∀ i w, w ∈ (y.decoder.entry i).watchers → w ∈ (x.decoder.entry i).watchers ∨
    Asked T t i w y.decoder
  adds : x.store.Adds y.store
  temporaries : ∀ set id v, x.store.temporary? set id = some v → y.store.temporary? set id = some v
  kept : ∀ c o, O c = some o → O' c = some o

variable {base : Store} {T T' : String → Prop} {t : Nat} {O O' O'' : CellId → Option Origin}
  {x y z : Decoding}

theorem Asked.mono {i : Nat} {w : Watcher} {d d' : Decoder} (h : Asked T t i w d)
    (hT : ∀ text, T text → T' text)
    (hids : ∀ n i, d.ids.lookup n = some i → d'.ids.lookup n = some i) : Asked T' t i w d' := by
  obtain ⟨k, path, shape, cyclic, text, token, id, hw, htext, hparse, href, hid⟩ := h
  exact ⟨k, path, shape, cyclic, text, token, id, hw, hT text htext, hparse, href, hids id i hid⟩

theorem Borrowed.mono (h : Borrowed x j v) (hoptions : y.decoder.options = x.decoder.options)
    (htemporaries : ∀ set id v, x.store.temporary? set id = some v → y.store.temporary? set id =
      some v) : Borrowed y j v := by
  intro text id hj hparse
  obtain ⟨set, hset, hv⟩ := h text id hj hparse
  exact ⟨set, hoptions ▸ hset, htemporaries set id v hv⟩

theorem borrowed_of_ne (h : ∀ text id, j = .str text → Token.parse text ≠ .ok (.temporary id)) :
    Borrowed x j v := fun text id hj hparse => absurd hparse (h text id hj)

namespace Grows

theorem refl (T : String → Prop) (t : Nat) (O : CellId → Option Origin) (x : Decoding) :
    Grows T t O O x x :=
  ⟨rfl, rfl, fun _ _ h => h, fun _ => rfl, fun _ _ => .inl, .refl _, fun _ _ _ h => h,
    fun _ _ h => h⟩

theorem trans (h : Grows T t O O' x y) (h' : Grows T t O' O'' y z) : Grows T t O O'' x z := by
  refine ⟨h'.options.trans h.options, h'.closed.trans h.closed, fun n i hi =>
    h'.ids n i (h.ids n i hi),
    fun i => (h'.state i).trans (h.state i), fun i w hw => ?_, h.adds.trans h'.adds,
    fun set id v hv => h'.temporaries set id v (h.temporaries set id v hv), fun c o hc =>
      h'.kept c o (h.kept c o hc)⟩
  rcases h'.watchers i w hw with hw | hw
  · exact (h.watchers i w hw).imp_right fun hw => hw.mono (fun _ h => h) h'.ids
  · exact .inr hw

theorem mono (h : Grows T t O O' x y) (hT : ∀ text, T text → T' text) : Grows T' t O O' x y :=
  { h with
    watchers := fun i w hw => (h.watchers i w hw).imp_right fun hw => hw.mono hT fun _ _ h => h }

/-- A cell is written that was not there in the beginning. -/
theorem write (h : Grows T t O O' x y) (hc : x.store.cells.size ≤ c) (cell : Cell) :
    Grows T t O O' x { y with store := y.store.write c cell } :=
  { h with adds := h.adds.write hc cell }

end Grows

namespace Filed

/-- What was filed stays filed, and what is new has to be. -/
theorem grow (F : Filed base O x) (W : Grows T t O O' x y)
    (hbound : ∀ c o, O' c = some o → O c = some o ∨ base.cells.size ≤ c ∧ c < y.store.cells.size)
    (hhandles : ∀ i < y.decoder.entries.size, i < x.decoder.entries.size ∧
      (y.decoder.entry i).handle = (x.decoder.entry i).handle ∨ O' (y.decoder.entry i).handle =
      some (.handle i))
    (hderived : ∀ i shape v, y.decoder.derived.lookup (i, shape) =
      some v → x.decoder.derived.lookup (i, shape) = some v ∨ ∃ c, v = .cell c ∧
      O' c = some (.made i shape))
    (hsize : y.store.temporaries.size = x.store.temporaries.size)
    (htemporaries : ∀ set id v, y.store.temporary? set id = some v → x.store.temporary? set id =
      some v ∨ ∃ c, v = .cell c ∧ O' c = some (.temporary set id) ∧
      y.store.cell? c = some (.temporary id)) : Filed base O' y where
  hosted := F.hosted.trans (W.adds.keeps _)
  cells := Nat.le_trans F.cells W.adds.size
  bound c o hc := by
    rcases hbound c o hc with hc | hc
    · exact ⟨(F.bound c o hc).1, Nat.lt_of_lt_of_le (F.bound c o hc).2 W.adds.size⟩
    · exact hc
  handles i hi := by
    rcases hhandles i hi with ⟨hlt, hhandle⟩ | hnew
    · rw [hhandle]
      exact W.kept _ _ (F.handles i hlt)
    · exact hnew
  derived i shape v hv := by
    rcases hderived i shape v hv with hv | hv
    · obtain ⟨c, rfl, hc⟩ := F.derived i shape v hv
      exact ⟨c, rfl, W.kept _ _ hc⟩
    · exact hv
  sets set hset := by
    rw [hsize]
    exact F.sets set (W.options ▸ hset)
  given set id v hv := W.temporaries set id v (F.given set id v hv)
  temporaries set id v hv := by
    rcases htemporaries set id v hv with hv | hv
    · refine (F.temporaries set id v hv).imp_right ?_
      rintro ⟨c, rfl, hc, hcell⟩
      exact ⟨c, rfl, W.kept _ _ hc, W.adds _ _ hcell⟩
    · exact .inr hv

theorem eq_none (F : Filed base O x) (hc : x.store.cells.size ≤ c) : O c = none := by
  cases h : O c with
  | none => rfl
  | some o => exact absurd (F.bound c o h).2 (Nat.not_lt.mpr hc)

/-- The origin of a new cell is entered. -/
theorem kept_update (F : Filed base O x) {new : Origin} {o : Origin} (hc : O c = some o) :
    Function.update O x.store.cells.size (some new) c = some o := by
  rw [Function.update_of_ne (Nat.ne_of_lt (F.bound c o hc).2), hc]

theorem of_update {n : CellId} {new o : Origin} (h : Function.update O n (some new) c = some o) :
    O c = some o ∨ c = n := by
  by_cases hc : c = n
  · exact .inr hc
  · rw [Function.update_of_ne hc] at h
    exact .inl h

/-- A new cell. -/
theorem alloc (F : Filed base O x) (T : String → Prop) (t : Nat) (cell : Cell) (o : Origin) :
    Filed base (Function.update O x.store.cells.size (some o))
      { x with store := (x.store.alloc cell).2 } ∧
      Grows T t O (Function.update O x.store.cells.size (some o)) x
        { x with store := (x.store.alloc cell).2 } := by
  have W : Grows T t O (Function.update O x.store.cells.size (some o)) x
      { x with store := (x.store.alloc cell).2 } :=
    ⟨rfl, rfl, fun _ _ h => h, fun _ => rfl, fun _ _ => .inl, Store.adds_alloc _ _, fun _ _ _ h =>
      h, fun _ _ => F.kept_update⟩
  refine ⟨F.grow W (fun c o hc => ?_) (fun i hi => .inl ⟨hi, rfl⟩) (fun _ _ _ => .inl) rfl
    fun _ _ _ => .inl, W⟩
  refine (of_update hc).imp_right ?_
  rintro rfl
  exact ⟨F.cells, by simp [Store.alloc]⟩

/-- The origins of more cells become known. -/
theorem name (F : Filed base O x) (hkept : ∀ c o, O c = some o → O' c = some o)
    (hbound : ∀ c o, O' c = some o → O c = some o ∨ base.cells.size ≤ c ∧ c < x.store.cells.size)
    (T : String → Prop) (t : Nat) : Filed base O' x ∧ Grows T t O O' x x := by
  have W : Grows T t O O' x x := { Grows.refl T t O x with kept := hkept }
  exact ⟨F.grow W hbound (fun i hi => .inl ⟨hi, rfl⟩) (fun _ _ _ => .inl) rfl fun _ _ _ => .inl, W⟩

/-- A cell that is drawn is written. -/
theorem write (F : Filed base O x) {t : Nat} {h : Hole} (hc : O c = some (.node t h))
    (cell : Cell) : Filed base O { x with store := x.store.write c cell } := by
  have hsize : (x.store.write c cell).cells.size = x.store.cells.size := by simp [Store.write]
  have hkeeps : x.store.Keeps (· < base.cells.size) (x.store.write c cell) :=
    Store.keeps_write (C := (· < base.cells.size)) (Nat.not_lt.mpr (F.bound c _ hc).1) cell
  refine { F with
    hosted := F.hosted.trans hkeeps
    cells := hsize ▸ F.cells
    bound := hsize ▸ F.bound
    temporaries := fun set id v hv => ?_ }
  refine (F.temporaries set id v hv).imp_right ?_
  rintro ⟨k, rfl, hk, hcell⟩
  refine ⟨k, rfl, hk, (Store.cell?_write_ne _ _ ?_).trans hcell⟩
  rintro rfl
  cases hc.symm.trans hk

end Filed

/-! ### Single steps -/

namespace DecodeM

/-- **The entry of an id.** -/
theorem entryOf_files (F : Filed base O x) (hopen : x.decoder.closed = none) (T : String → Prop)
    (t id : Nat) :
    Ensures (· = x) (entryOf id) fun i y => ∃ O', Filed base O' y ∧ Grows T t O O' x y ∧
      y.decoder.ids.lookup id = some i ∧ ∀ c < x.store.cells.size, O' c = O c := by
  rintro x rfl
  cases h : x.decoder.ids.lookup id with
  | some i =>
    rw [entryOf_of_some h]
    exact ⟨O, F, .refl _ _ _ _, h, fun _ _ => rfl⟩
  | none =>
    rw [entryOf_of_none h hopen]
    let e : Entry := { state := .pending, handle := x.store.newPromise.1 }
    let y : Decoding := ⟨{ x.decoder with
      entries := x.decoder.entries.push e
      ids := (id, x.decoder.entries.size) :: x.decoder.ids }, x.store.newPromise.2⟩
    have hentries : y.decoder.entries = x.decoder.entries.push e := rfl
    have hpush := (isBlank_pending x.store.newPromise.1).push hentries
    have W : Grows T t O (Function.update O x.store.cells.size
        (some (.handle x.decoder.entries.size))) x y :=
      ⟨rfl, rfl, fun n i hi => lookup_cons_of_lookup h hi, fun i => (hpush i).1, fun i w hw =>
        .inl ((hpush i).2.2 ▸ hw), Store.adds_alloc _ _, fun _ _ _ h => h, fun _ _ => F.kept_update⟩
    refine ⟨_, F.grow W (fun c o hc => ?_) (fun i hi => ?_) (fun _ _ _ => .inl) rfl
      (fun _ _ _ => .inl), W, List.lookup_cons_self,
      fun c hc => Function.update_of_ne (Nat.ne_of_lt hc) ..⟩
    · refine (Filed.of_update hc).imp_right ?_
      rintro rfl
      exact ⟨F.cells, by simp [Store.newPromise, Store.alloc]⟩
    · have hentry : y.decoder.entry i = if i =
        x.decoder.entries.size then e else x.decoder.entry i := entry_push x.decoder e i
      rcases Nat.lt_or_ge i x.decoder.entries.size with hlt | hge
      · rw [if_neg (Nat.ne_of_lt hlt)] at hentry
        exact .inl ⟨hlt, congrArg (·.handle) hentry⟩
      · obtain rfl : i = x.decoder.entries.size := by
          simp only [Array.size_push] at hi
          omega
        rw [if_pos rfl] at hentry
        refine .inr ?_
        rw [show (y.decoder.entry x.decoder.entries.size).handle = x.store.cells.size from congrArg
          (·.handle) hentry]
        exact Function.update_self ..

/-- **A reference to a fulfilled entry** leads to a value, or there is nothing where it leads. -/
theorem resolve_files (F : Filed base O x) (T : String → Prop) (t index : Nat) (w : Value)
    (path : List String) (shape : Shape) :
    Ensures (· = x) (resolve index w path shape) fun r y => ∃ O', Filed base O' y ∧
      Grows T t O O' x y ∧ ∀ e, r = .error e → ∀ u, y.store.walk w path = .ok u → shape ≠ .plain ∧
      ∀ c, y.store.shaped shape u ≠ .ok c := by
  unfold resolve
  refine .bind .store fun s => ?_
  split
  · rename_i hwalk
    refine .pure ?_
    rintro x ⟨rfl, rfl⟩
    refine ⟨O, F, .refl _ _ _ _, fun e _ u hu => ?_⟩
    rw [hwalk] at hu
    cases hu
  rename_i u hwalk
  split
  · refine .pure ?_
    rintro x ⟨rfl, rfl⟩
    exact ⟨O, F, .refl _ _ _ _, by rintro _ ⟨⟩⟩
  rename_i hplain
  refine .bind .decoder fun d => ?_
  split
  · refine .pure ?_
    rintro x ⟨⟨rfl, rfl⟩, rfl⟩
    exact ⟨O, F, .refl _ _ _ _, by rintro _ ⟨⟩⟩
  rename_i hnone
  refine .bind .store fun s' => ?_
  split
  · rename_i f hshaped
    refine .pure ?_
    rintro x ⟨⟨⟨rfl, rfl⟩, rfl⟩, rfl⟩
    refine ⟨O, F, .refl _ _ _ _, fun e _ u' hu => ⟨by simpa using hplain, fun c hc => ?_⟩⟩
    obtain rfl := Except.ok.inj (hwalk.symm.trans hu)
    rw [hshaped] at hc
    cases hc
  rename_i c hc
  rintro y ⟨⟨⟨rfl, rfl⟩, rfl⟩, rfl⟩
  let O' := Function.update O y.store.cells.size (some (.made index shape))
  let z : Decoding :=
    ⟨{ y.decoder with derived := ((index, shape), (y.store.make c).1) :: y.decoder.derived },
      (y.store.make c).2⟩
  have W : Grows T t O O' y z :=
    ⟨rfl, rfl, fun _ _ h => h, fun _ => rfl, fun _ _ => .inl, Store.adds_alloc _ c, fun _ _ _ h =>
      h, fun _ _ => F.kept_update⟩
  have F' : Filed base O' z := by
    refine F.grow W (fun k o hk => ?_) (fun i hi => .inl ⟨hi, rfl⟩) (fun i shape' v hv => ?_) rfl
      (fun _ _ _ => .inl)
    · refine (Filed.of_update hk).imp_right ?_
      rintro rfl
      exact ⟨F.cells, by simp [z, Store.make]⟩
    · rw [List.lookup_cons] at hv
      split at hv
      · rename_i hkey
        obtain ⟨rfl, rfl⟩ := Prod.mk.inj (eq_of_beq hkey)
        obtain rfl := Option.some.inj hv
        exact .inr ⟨_, rfl, Function.update_self ..⟩
      · exact .inl hv
  exact ⟨O', F', W, by rintro _ ⟨⟩⟩

/-- **A hole is left.** -/
theorem leaveHole_files (F : Filed base O x) {t index id : Nat} {path : List String} {shape : Shape}
    (hole : Hole) (cyclic : Bool) (hparse : Token.parse text = .ok token)
    (href : token.reference? = some (id, path, shape))
    (hid : x.decoder.ids.lookup id = some index) :
    Ensures (· = x) (leaveHole t index path shape hole cyclic) fun r y => ∃ O', Filed base O' y ∧
      Grows (· = text) t O O' x y ∧ r = .ok .undefined := by
  rintro x rfl
  have left : ∀ d : Decoder, d.options = x.decoder.options → d.closed = x.decoder.closed →
      d.ids = x.decoder.ids → d.derived = x.decoder.derived → d.entries.size =
        x.decoder.entries.size →
      (∀ i, (d.entry i).state = (x.decoder.entry i).state ∧ (d.entry i).watchers =
        (x.decoder.entry i).watchers ∧ (d.entry i).handle = (x.decoder.entry i).handle) →
      ∃ O', Filed base O' ⟨d.modifyEntry index fun e =>
        { e with watchers := e.watchers ++ [.hole t hole path shape cyclic] }, x.store⟩ ∧
        Grows (· = text) t O O' x
          ⟨d.modifyEntry index fun e =>
            { e with watchers := e.watchers ++ [.hole t hole path shape cyclic] }, x.store⟩ := by
    intro d hoptions hclosed hids hderived hsize hentry
    have hfield : ∀ i,
        ((d.modifyEntry index fun e =>
          { e with watchers := e.watchers ++ [.hole t hole path shape cyclic] }).entry i).state =
        (x.decoder.entry i).state ∧
        ((d.modifyEntry index fun e =>
          { e with watchers := e.watchers ++ [.hole t hole path shape cyclic] }).entry i).handle =
        (x.decoder.entry i).handle := by
      intro i
      rw [entry_modifyEntry]
      split
      · exact ⟨(hentry i).1, (hentry i).2.2⟩
      · exact ⟨(hentry i).1, (hentry i).2.2⟩
    have W : Grows (· = text) t O O x
        ⟨d.modifyEntry index fun e =>
          { e with watchers := e.watchers ++ [.hole t hole path shape cyclic] }, x.store⟩ := by
      refine ⟨hoptions, hclosed, fun n i hi => hids ▸ hi, fun i => (hfield i).1, fun i w hw => ?_,
        .refl _, fun _ _ _ h => h, fun _ _ h => h⟩
      rw [entry_modifyEntry] at hw
      split at hw
      · rename_i hi
        obtain rfl := hi.1
        rcases List.mem_append.mp hw with hw | hw
        · exact .inl ((hentry _).2.1 ▸ hw)
        · obtain rfl := List.mem_singleton.mp hw
          exact .inr ⟨hole, path, shape, cyclic, text, token, id, rfl, rfl, hparse,
            href, hids ▸ hid⟩
      · exact .inl ((hentry i).2.1 ▸ hw)
    refine ⟨O, F.grow W (fun _ _ h => .inl h) (fun i hi => .inl ⟨?_, (hfield i).2⟩)
      (fun i shape' v hv => .inl (hderived ▸ hv)) rfl fun _ _ _ h => .inl h, W⟩
    rwa [size_modifyEntry, hsize] at hi
  cases cyclic with
  | true =>
    obtain ⟨O', F', W⟩ := left x.decoder rfl rfl rfl rfl rfl fun i => ⟨rfl, rfl, rfl⟩
    exact ⟨O', F', W, rfl⟩
  | false =>
    obtain ⟨O', F', W⟩ := left (x.decoder.modifyDraft t fun e =>
      { e with holes := e.holes + 1, waitingOn := e.waitingOn ++ [index] })
      rfl rfl rfl rfl (size_modifyEntry ..) fun i => by
        rw [modifyDraft, entry_modifyEntry]; split <;> exact ⟨rfl, rfl, rfl⟩
    exact ⟨O', F', W, rfl⟩

/-- **A reference** is followed, or leaves a hole, or is refused. -/
theorem reference_files (F : Filed base O x) (hopen : x.decoder.closed = none) {id : Nat}
    {path : List String} {shape : Shape} (t : Nat) (hole : Hole)
    (hparse : Token.parse text = .ok token) (href : token.reference? = some (id, path, shape)) :
    Ensures (· = x) (reference t id path shape hole) fun r y => ∃ O', Filed base O' y ∧
      Grows (· = text) t O O' x y ∧ ∀ e, r = .error e → token.Refused y.decoder y.store := by
  unfold reference
  refine .bind (entryOf_files F hopen (· = text) t id) fun index => .bind .decoder fun d => ?_
  have left : ∀ z O₁ cyclic, Filed base O₁ z → Grows (· = text) t O O₁ x z →
      z.decoder.ids.lookup id = some index →
      ∃ O', Filed base O' (leaveHole t index path shape hole cyclic z).2 ∧
        Grows (· = text) t O O' x (leaveHole t index path shape hole cyclic z).2 ∧
        ∀ e, (leaveHole t index path shape hole cyclic z).1 = .error e →
          token.Refused (leaveHole t index path shape hole cyclic z).2.decoder
            (leaveHole t index path shape hole cyclic z).2.store := by
    intro z O₁ cyclic F₁ W₁ hid
    obtain ⟨O₂, F₂, W₂, hr⟩ := leaveHole_files F₁ hole cyclic hparse href hid z rfl
    exact ⟨O₂, F₂, W₁.trans W₂, fun e he => absurd (hr.symm.trans he) (by rintro ⟨⟩)⟩
  split
  · rename_i w hw
    rintro z ⟨⟨O₁, F₁, W₁, hid, -⟩, rfl⟩
    obtain ⟨O₂, F₂, W₂, hfail⟩ := resolve_files F₁ (· = text) t index w path shape z rfl
    exact ⟨O₂, F₂, W₁.trans W₂, fun e he => .unfit href (W₂.ids id index hid)
      ((W₂.state index).trans hw) (hfail e he)⟩
  · rename_i r hr
    refine .pure ?_
    rintro z ⟨⟨O₁, F₁, W₁, hid, -⟩, rfl⟩
    exact ⟨O₁, F₁, W₁, fun e _ => .rejected href hid hr⟩
  · rintro z ⟨⟨O₁, F₁, W₁, hid, -⟩, rfl⟩
    exact left z O₁ true F₁ W₁ hid
  · rintro z ⟨⟨O₁, F₁, W₁, hid, -⟩, rfl⟩
    exact left z O₁ false F₁ W₁ hid
  · refine .bind .decoder fun d' => ?_
    split
    · refine .bind ((habit_ensures _).partialValue? index path shape hole) fun o => ?_
      split
      · refine .pure ?_
        rintro z ⟨⟨⟨O₁, F₁, W₁, hid, -⟩, rfl⟩, rfl⟩
        exact ⟨O₁, F₁, W₁, by rintro _ ⟨⟩⟩
      · rintro z ⟨⟨⟨O₁, F₁, W₁, hid, -⟩, rfl⟩, rfl⟩
        exact left z O₁ true F₁ W₁ hid
    · rintro z ⟨⟨⟨O₁, F₁, W₁, hid, -⟩, rfl⟩, rfl⟩
      exact left z O₁ false F₁ W₁ hid

/-- **A temporary reference** stands for what its set has for the name, from now on. -/
theorem temporary_files (F : Filed base O x) (T : String → Prop) (t : Nat) {set : Nat}
    (hset : x.decoder.options.temporaries = some set) (id : String) :
    Ensures (· = x) (onStore (·.resolveTemporary set id)) fun v y => ∃ O', Filed base O' y ∧
      Grows T t O O' x y ∧ y.store.temporary? set id = some v := by
  refine .onStore ?_
  rintro x rfl
  unfold Store.resolveTemporary
  split
  · rename_i v hv
    exact ⟨O, F, .refl _ _ _ _, hv⟩
  rename_i hnone
  have hlt := F.sets set hset
  let s : Store := ((x.store.make (.temporary id)).2.registerTemporary
    set (x.store.make (.temporary id)).1 id).2
  have hlookup : ∀ set' id', s.temporary? set' id' =
      if set' = set ∧ id' = id then some (.cell x.store.cells.size) else x.store.temporary? set'
        id' := by
    intro set' id'
    change (((x.store.temporaries.modify set _)[set']?).getD {}).values.lookup id' = _
    rw [Array.getElem?_modify]
    by_cases hs : set' = set
    · subst hs
      rw [if_pos rfl, Array.getElem?_eq_getElem hlt]
      by_cases hi : id' = id
      · subst hi
        simp [Json.lookup_setField_self, Store.make]
      · simp [hi, Json.lookup_setField_ne _ _ hi, Store.temporary?, Store.temporarySet, hlt]
    · simp [hs, Ne.symm hs, Store.temporary?, Store.temporarySet]
  have W : Grows T t O (Function.update O x.store.cells.size (some (.temporary set id))) x
      { x with store := s } := by
    refine ⟨rfl, rfl, fun _ _ h => h, fun _ => rfl, fun _ _ => .inl, Store.adds_alloc _
      (.temporary id), fun set' id' v hv => ?_, fun _ _ => F.kept_update⟩
    rw [hlookup, if_neg]
    · exact hv
    · rintro ⟨rfl, rfl⟩
      rw [hnone] at hv
      cases hv
  refine ⟨_, F.grow W (fun c o hc => ?_) (fun i hi => .inl ⟨hi, rfl⟩) (fun _ _ _ => .inl) ?_
    (fun set' id' v hv => ?_), W, ?_⟩
  · refine (Filed.of_update hc).imp_right ?_
    rintro rfl
    exact ⟨F.cells, by simp [Store.make, Store.registerTemporary, Value.identity?]⟩
  · simp [Store.make, Store.registerTemporary, Value.identity?]
  · rw [hlookup] at hv
    split at hv
    · rename_i heq
      obtain ⟨rfl, rfl⟩ := heq
      obtain rfl := Option.some.inj hv
      exact .inr ⟨_, rfl, Function.update_self .., Store.cell?_alloc_new x.store (.temporary id')⟩
    · exact .inl hv
  · exact (hlookup set id).trans (if_pos ⟨rfl, rfl⟩)

/-! ### A row -/

/-- What reading a part of a row comes to: its cells are filed, and if it fails, one of its strings
is to blame. -/
def Files {α : Type} (base : Store) (T : String → Prop) (t : Nat) (O : CellId → Option Origin)
    (x : Decoding) (shown : (CellId → Option Origin) → Decoding → α → Prop) (r : Except Rejection α)
    (y : Decoding) : Prop :=
  ∃ O', Filed base O' y ∧ Grows T t O O' x y ∧ (∀ v, r = .ok v → shown O' y v) ∧
    ∀ e, r = .error e → ∃ text, T text ∧ Faulty y.decoder y.store text

/-- **The value of a token.** -/
theorem reviveToken_files (F : Filed base O x) (hopen : x.decoder.closed = none) (t : Nat)
    (hole : Hole) (hparse : Token.parse text = .ok token) :
    Ensures (· = x) (reviveToken t hole token) (Files base (· = text) t O x
      fun _ y v => Borrowed y (.str text) v) := by
  have other : (∀ id, token ≠ .temporary id) → ∀ (y : Decoding) (v : Value),
      Borrowed y (.str text) v := by
    intro hne y v
    refine borrowed_of_ne fun text' id htext hparse' => hne id ?_
    obtain rfl := Json.str.inj htext
    exact Except.ok.inj (hparse.symm.trans hparse')
  have still : (∀ id, token ≠ .temporary id) →
      ∀ {v : Value}, Ensures (· = x) (Pure.pure (.ok v) : DecodeM Outcome)
      (Files base (· = text) t O x fun _ y v => Borrowed y (.str text) v) := by
    intro hne v
    refine .pure ?_
    rintro x rfl
    exact ⟨O, F, .refl _ _ _ _, fun u _ => other hne x u, by rintro _ ⟨⟩⟩
  have follow : (∀ id, token ≠ .temporary id) → ∀ {id path shape}, token.reference? =
      some (id, path, shape) →
      Ensures (· = x) (reference t id path shape hole) (Files base (· = text) t O x fun _ y v =>
        Borrowed y (.str text) v) := by
    intro hne id path shape href
    refine (reference_files F hopen t hole hparse href).post ?_
    rintro r y ⟨O', F', W, hfail⟩
    exact ⟨O', F', W, fun v _ => other hne y v, fun e he =>
      ⟨text, rfl, .inr ⟨token, hparse, hfail e he⟩⟩⟩
  cases token with
  | text s => exact still (fun _ h => by cases h)
  | undefined => exact still (fun _ h => by cases h)
  | number n => exact still (fun _ h => by cases h)
  | symbol name => exact still (fun _ h => by cases h)
  | date d => exact still (fun _ h => by cases h)
  | bigint n => exact still (fun _ h => by cases h)
  | promise id =>
    refine .bind (entryOf_files F hopen (· = text) t id) fun i => .bind .decoder fun d => .pure ?_
    rintro y ⟨⟨O', F', W, -⟩, rfl⟩
    exact ⟨O', F', W, fun v _ => other (fun _ h => by cases h) y v, by rintro _ ⟨⟩⟩
  | temporary id =>
    refine .bind .decoder fun d => ?_
    split
    · rename_i set hset
      refine .of_exists ?_
      rintro ⟨_, rfl, rfl⟩
      refine .bind ((temporary_files F (· = text) t hset id).pre fun y hy => hy.1) fun u => .pure ?_
      rintro y ⟨O', F', W, hu⟩
      refine ⟨O', F', W, fun v hv text' id' htext hparse' => ?_, by rintro _ ⟨⟩⟩
      obtain rfl := Except.ok.inj hv
      obtain rfl := Json.str.inj htext
      obtain rfl := Token.temporary.inj (Except.ok.inj (hparse.symm.trans hparse'))
      exact ⟨set, W.options ▸ hset, hu⟩
    · rename_i hset
      refine .pure ?_
      rintro y ⟨rfl, rfl⟩
      exact ⟨O, F, .refl _ _ _ _, by rintro _ ⟨⟩, fun e _ => ⟨text, rfl,
        .inr ⟨_, hparse, .temporary hset⟩⟩⟩
  | row r => exact follow (fun _ h => by cases h) rfl
  | derived kind id => exact follow (fun _ h => by cases h) rfl
  | binary kind id => exact follow (fun _ h => by cases h) rfl

/-- The cells of the draft of `t` since there were `n` cells. -/
def Drawn (t n : Nat) (O : CellId → Option Origin) (h : Hole) (c : CellId) : Prop :=
  O c = some (.node t h) ∧ n ≤ c

/-- What a step adds leaves a picture as it is. -/
theorem spares_grows (W : Grows T t O O' x y) {t' n n' : Nat} (hn : n' ≤ n) :
    Spares (fun _ => True) (fun _ => Borrowed x)
    (fun _ => Borrowed y) (Drawn t' n O) (Drawn t' n' O') x.store y.store where
  below _ _ _ _ _ _ := trivial
  leaves _ _ _ _ h := h.mono W.options W.temporaries
  nodes _ c _ h := ⟨W.kept c _ h.1, Nat.le_trans hn h.2⟩
  cells _ c _ _ cell h _ _ := W.adds c cell h

/-- A cell is written that was there before the picture. -/
theorem spares_write_drawn {n n' : Nat} {array : CellId} (harray : array < n) (hn : n' ≤ n)
    (cell : Cell) :
    Spares (fun _ => True) (fun _ => Borrowed y)
      (fun _ => Borrowed { y with store := y.store.write array cell })
      (Drawn t n O) (Drawn t n' O) y.store (y.store.write array cell) where
  below _ _ _ _ _ _ := trivial
  leaves _ _ _ _ h := h
  nodes _ _ _ h := ⟨h.1, Nat.le_trans hn h.2⟩
  cells _ _ _ h _ hold _ _ :=
    (Store.cell?_write_ne _ _ (Nat.ne_of_lt (Nat.lt_of_lt_of_le harray h.2))).trans hold

/-- A place that nothing is done for. -/
theorem files_leaf (F : Filed base O x) (t : Nat) (hole : Hole)
    (hpic : Pictured (fun _ => Borrowed x) (Drawn t x.store.cells.size O) x.store hole j v) :
    Ensures (· = x) (Pure.pure (.ok v) : DecodeM Outcome) (Files base (· ∈ j.texts) t O x
      fun O' y v => Pictured (fun _ => Borrowed y) (Drawn t x.store.cells.size O')
      y.store hole j v) := by
  refine .pure ?_
  rintro x rfl
  refine ⟨O, F, .refl _ _ _ _, fun u hu => ?_, by rintro _ ⟨⟩⟩
  obtain rfl := Except.ok.inj hu
  exact hpic

/-- **An array or object is finished**: what is below it was drawn, and its cell is written. -/
theorem files_node (F : Filed base O x) {hole : Hole} {e : Cell} (F' : Filed base O' y)
    (W : Grows T t (Function.update O x.store.cells.size (some (.node t hole))) O'
      { x with store := (x.store.alloc e).2 } y)
    (full : Cell) :
    Filed base O' { y with store := y.store.write x.store.cells.size full } ∧
      Grows T t O O' x { y with store := y.store.write x.store.cells.size full } ∧
      Drawn t x.store.cells.size O' hole x.store.cells.size ∧
      (y.store.write x.store.cells.size full).cell? x.store.cells.size = some full := by
  have hnode : O' x.store.cells.size = some (.node t hole) := W.kept _ _ (Function.update_self ..)
  exact ⟨F'.write hnode full, ((F.alloc T t e (.node t hole)).2.trans W).write (Nat.le_refl _) full,
    ⟨hnode, Nat.le_refl _⟩, Store.cell?_write_self _ _ (F'.bound _ _ hnode).2⟩

/-- The cells of some places, if each is filed. -/
theorem reviveEach_files (t : Nat) {T : String → Prop} {ps : List (Hole × Json)}
    (hT : ∀ q ∈ ps, ∀ text ∈ q.2.texts, T text)
    (hfiles : ∀ q ∈ ps, ∀ {O : CellId → Option Origin} {x : Decoding},
      Filed base O x → x.decoder.closed = none →
      Ensures (· = x) (revive t q.1 q.2) (Files base (· ∈ q.2.texts) t O x
      fun O' y v => Pictured (fun _ => Borrowed y) (Drawn t x.store.cells.size O')
      y.store q.1 q.2 v))
    {O : CellId → Option Origin} {x : Decoding} (F : Filed base O x)
    (hopen : x.decoder.closed = none) :
    Ensures (· = x) (reviveEach t ps) (Files base T t O x fun O' y vs =>
      PicturedEach (fun _ => Borrowed y) (Drawn t x.store.cells.size O') y.store ps vs) := by
  induction ps generalizing O x with
  | nil =>
    refine .pure ?_
    rintro x rfl
    exact ⟨O, F, .refl _ _ _ _, fun u hu => Except.ok.inj hu ▸ .nil, by rintro _ ⟨⟩⟩
  | cons q ps ih =>
    obtain ⟨hq, hps⟩ := List.forall_mem_cons.mp hT
    refine .orFail (hfiles q List.mem_cons_self F hopen) ?_ ?_
    · rintro r y ⟨O', F', W, -, hfail⟩
      refine ⟨O', F', W.mono hq, by rintro _ ⟨⟩, fun e _ => ?_⟩
      obtain ⟨text, htext, hfaulty⟩ := hfail r rfl
      exact ⟨text, hq text htext, hfaulty⟩
    · rintro v y₁ ⟨O₁, F₁, W₁, hok₁, -⟩
      refine Ensures.orFail (ih hps (fun q hq => hfiles q (List.mem_cons_of_mem _ hq)) F₁
        (W₁.closed.trans hopen)) ?_ (fun vs => .pure ?_) y₁ rfl
      · rintro r y₂ ⟨O₂, F₂, W₂, -, hfail⟩
        exact ⟨O₂, F₂, (W₁.mono hq).trans W₂, by rintro _ ⟨⟩, fun e _ => hfail r rfl⟩
      · rintro y₂ ⟨O₂, F₂, W₂, hok₂, -⟩
        refine ⟨O₂, F₂, (W₁.mono hq).trans W₂, fun us hus => ?_, by rintro _ ⟨⟩⟩
        obtain rfl := Except.ok.inj hus
        exact .cons ((hok₁ v rfl).mono (spares_grows W₂ (Nat.le_refl _)) trivial)
          (PicturedEach.mono (spares_grows (.refl T t O₂ y₂) W₁.adds.size) (fun _ _ => trivial)
            (hok₂ vs rfl))

/-- **The cells of a row** come from its places; and if the row fails, one of its strings is to
blame. -/
theorem revive_files (t : Nat) (j : Json) (hole : Hole) {O : CellId → Option Origin} {x : Decoding}
    (F : Filed base O x) (hopen : x.decoder.closed = none) :
    Ensures (· = x) (revive t hole j) (Files base (· ∈ j.texts) t O x fun O' y v =>
      Pictured (fun _ => Borrowed y) (Drawn t x.store.cells.size O') y.store hole j v) := by
  induction j using Json.parts_induction generalizing hole O x with
  | leaf j hj =>
    cases j with
    | str s =>
      unfold revive
      split
      · rename_i token hparse
        refine (reviveToken_files F hopen t hole hparse).post ?_
        rintro r y ⟨O', F', W, hok, hfail⟩
        refine ⟨O', F', W.mono fun text h => List.mem_singleton.mpr h, hok, fun e he => ?_⟩
        obtain ⟨text, rfl, hfaulty⟩ := hfail e he
        exact ⟨text, List.mem_singleton_self text, hfaulty⟩
      · rename_i f hparse
        refine .pure ?_
        rintro x rfl
        exact ⟨O, F, .refl _ _ _ _, by rintro _ ⟨⟩, fun e _ => ⟨s, List.mem_singleton_self s,
          .inl ⟨f, hparse⟩⟩⟩
    | arr items => cases hj
    | obj fields => cases hj
    | _ =>
      unfold revive
      exact files_leaf F t hole (borrowed_of_ne fun _ _ h => by cases h)
  | node j hj ih =>
    rw [revive_node t hole hj]
    have hsize : (x.store.alloc (j.cellWith [])).2.cells.size = x.store.cells.size + 1 := by
      simp [Store.alloc]
    have F₁ := F.alloc (· ∈ j.texts) t (j.cellWith []) (.node t hole)
    refine .bind (Q := fun c z => c = x.store.cells.size ∧
      z = { x with store := (x.store.alloc (j.cellWith [])).2 }) (.onStore ?_) fun c => ?_
    · rintro x rfl
      exact ⟨rfl, rfl⟩
    rintro z ⟨rfl, rfl⟩
    refine Ensures.orFail (reviveEach_files t
      (fun q hq _ => Json.mem_texts_of_mem_parts (Json.snd_mem_parts hq))
      (fun q hq _ _ F hopen => ih q.2 (Json.snd_mem_parts hq) q.1 F hopen) F₁.1 hopen) ?_ ?_ _ rfl
    · rintro r y ⟨O', F', W, -, hfail⟩
      exact ⟨O', F', F₁.2.trans W, by rintro _ ⟨⟩, fun e _ => hfail r rfl⟩
    · rintro vs y ⟨O', F', W, hok, -⟩
      obtain ⟨F'', W', hnode, hcell⟩ := files_node F F' W (j.cellWith vs)
      refine ⟨O', F'', W', fun v hv => ?_, by rintro _ ⟨⟩⟩
      obtain rfl := Except.ok.inj hv
      exact (pictured_node hj).mpr ⟨_, vs, rfl, hnode, hcell,
        PicturedEach.mono (spares_write_drawn (by simp [hsize]) (by simp [hsize]) _)
          (fun _ _ => trivial) (hok vs rfl)⟩

end DecodeM

end GraphRows
