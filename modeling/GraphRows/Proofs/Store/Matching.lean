import GraphRows.Proofs.Store.Regions

/-!
# Stores side by side

Two stores that were made from the same one in different ways hold the same values under different
numbers. Two values match if they are the same scalar, two cells that are known to be the same from
the beginning, or two cells with the same name whose contents match. What a name is does not matter
here, only that both sides have the same ones.

Reading does not look at numbers. So what is found along a path of two matching values matches, and
so does what a reference makes of them; and if there is nothing on one side, there is nothing on the
other.

## Main results

* `Reads.walk`, `Reads.shaped`: reading on both sides
* `Match.agree`: the contents of matching values
-/

namespace GraphRows

variable {cell : Cell} {c : CellId} {fields fields' : List (String × Value)}
  {items items' : List Value} {shape : Shape} {key : String}

namespace Cell

/-- The cell with its parts blanked out. Of promises and streams nothing is left. -/
def shell : Cell → Cell
  | .array items => .array (items.map fun _ => .undefined)
  | .set items => .set (items.map fun _ => .undefined)
  | .object fields => .object (fields.map fun f => (f.1, .undefined))
  | .form entries => .form (entries.map fun e => (e.1, .undefined))
  | .map entries => .map (entries.map fun _ => (.undefined, .undefined))
  | .server id bound => .server id (bound.map fun _ => .undefined)
  | .promise _ => .promise {}
  | .stream _ => .stream default
  | c => c

/-- The cells are alike and their parts are related. -/
def Agree (R : Value → Value → Prop) (c c' : Cell) : Prop :=
  c.shell = c'.shell ∧ List.Forall₂ R c.parts c'.parts

theorem length_parts_shell (c : Cell) : c.shell.parts.length = c.parts.length := by
  cases c with
  | server id bound => cases bound <;> rfl
  | map entries => simp [shell, parts, List.length_flatMap]
  | _ => simp [shell, parts]

theorem length_parts_eq {c c' : Cell} (h : c.shell = c'.shell) :
    c.parts.length = c'.parts.length := by
  rw [← length_parts_shell c, h, length_parts_shell]

theorem Alike.shell_eq {c c' : Cell} (h : c.Alike c') : c'.shell = c.shell := by
  cases h <;> rfl

section Agree

variable {R : Value → Value → Prop} {c : Cell}

theorem agree_array (h : List.Forall₂ R items items') : Agree R (.array items) (.array items') := by
  refine ⟨congrArg Cell.array ?_, h⟩
  rw [List.map_const', List.map_const', h.length_eq]

theorem agree_set (h : List.Forall₂ R items items') : Agree R (.set items) (.set items') := by
  refine ⟨congrArg Cell.set ?_, h⟩
  rw [List.map_const', List.map_const', h.length_eq]

/-- Lists of named values, with the same names in the same order. -/
theorem fields_of_forall₂
    (h : List.Forall₂ (fun f g => f.1 = g.1 ∧ R f.2 g.2) fields fields') :
    (fields.map fun f => (f.1, Value.undefined)) = (fields'.map fun f => (f.1, Value.undefined)) ∧
      List.Forall₂ R (fields.map (·.2)) (fields'.map (·.2)) := by
  induction h with
  | nil => exact ⟨rfl, .nil⟩
  | cons hfg _ ih =>
    rw [List.map_cons, List.map_cons, hfg.1, ih.1]
    exact ⟨rfl, .cons hfg.2 ih.2⟩

theorem agree_object (h : List.Forall₂ (fun f g => f.1 = g.1 ∧ R f.2 g.2) fields fields') :
    Agree R (.object fields) (.object fields') :=
  ⟨congrArg Cell.object (fields_of_forall₂ h).1, (fields_of_forall₂ h).2⟩

theorem agree_form (h : List.Forall₂ (fun f g => f.1 = g.1 ∧ R f.2 g.2) fields fields') :
    Agree R (.form fields) (.form fields') :=
  ⟨congrArg Cell.form (fields_of_forall₂ h).1, (fields_of_forall₂ h).2⟩

theorem agree_map {entries entries' : List (Value × Value)}
    (h : List.Forall₂ (fun e e' => R e.1 e'.1 ∧ R e.2 e'.2) entries entries') :
    Agree R (.map entries) (.map entries') := by
  refine ⟨congrArg Cell.map (by rw [List.map_const', List.map_const', h.length_eq]), ?_⟩
  induction h with
  | nil => exact .nil
  | cons he _ ih => exact .cons he.1 (.cons he.2 ih)

theorem Agree.array (h : Agree R (.array items) c) :
    ∃ items', c = .array items' ∧ List.Forall₂ R items items' := by
  cases c with
  | array items' => exact ⟨items', rfl, h.2⟩
  | _ => cases h.1

theorem Agree.set (h : Agree R (.set items) c) :
    ∃ items', c = .set items' ∧ List.Forall₂ R items items' := by
  cases c with
  | set items' => exact ⟨items', rfl, h.2⟩
  | _ => cases h.1

theorem Agree.binary {data : Binary} (h : Agree R (.binary data) c) : c = .binary data := by
  cases c with
  | binary data' => exact h.1.symm
  | _ => cases h.1

theorem Agree.object (h : Agree R (.object fields) c) :
    ∃ fields', c = .object fields' ∧ List.Forall₂ (fun f g => f.1 = g.1 ∧ R f.2 g.2)
      fields fields' := by
  cases c with
  | object fields' =>
    refine ⟨fields', rfl, ?_⟩
    obtain ⟨hshell, hparts⟩ := h
    replace hshell := Cell.object.inj hshell
    induction fields generalizing fields' with
    | nil =>
      obtain rfl := List.map_eq_nil_iff.mp hshell.symm
      exact .nil
    | cons f fields ih =>
      cases fields' with
      | nil => cases hshell
      | cons g fields' =>
        obtain ⟨hfg, hrest⟩ := List.cons.inj hshell
        obtain ⟨hR, hparts⟩ := List.forall₂_cons.mp hparts
        exact .cons ⟨(Prod.mk.inj hfg).1, hR⟩ (ih fields' hparts hrest)
  | _ => cases h.1

end Agree

end Cell

/-! ### Lists -/

section Lists

variable {α β : Type} {R : α → β → Prop}

theorem exists_getElem?_of_forall₂ {l : List α} {l' : List β} (h : List.Forall₂ R l l') {i : Nat}
    {a : α} (ha : l[i]? = some a) : ∃ b, l'[i]? = some b ∧ R a b := by
  induction h generalizing i with
  | nil => cases ha
  | cons hab _ ih =>
    cases i with
    | zero =>
      obtain rfl := Option.some.inj ha
      exact ⟨_, rfl, hab⟩
    | succ i => exact ih ha

theorem exists_lookup_of_forall₂ {κ : Type} [BEq κ] {l : List (κ × α)} {l' : List (κ × β)}
    (h : List.Forall₂ (fun f g => f.1 = g.1 ∧ R f.2 g.2) l l') {k : κ} {a : α}
    (ha : l.lookup k = some a) : ∃ b, l'.lookup k = some b ∧ R a b := by
  induction h with
  | nil => cases ha
  | @cons f g l l' hfg _ ih =>
    obtain ⟨key, a'⟩ := f
    obtain ⟨key', b'⟩ := g
    obtain ⟨rfl, hR⟩ : key = key' ∧ R a' b' := hfg
    rw [List.lookup_cons] at ha ⊢
    cases hk : k == key with
    | true =>
      rw [hk] at ha
      obtain rfl := Option.some.inj ha
      exact ⟨b', rfl, hR⟩
    | false =>
      rw [hk] at ha
      exact ih ha

theorem exists_mapM_of_forall₂ {γ δ : Type} {Q : γ → δ → Prop} {f : α → Except Fault γ}
    {g : β → Except Fault δ} (hfg : ∀ a b c, R a b → f a = .ok c → ∃ d, g b = .ok d ∧ Q c d)
    {l : List α} {l' : List β} (h : List.Forall₂ R l l') :
    ∀ {cs : List γ}, l.mapM f = .ok cs → ∃ ds, l'.mapM g = .ok ds ∧ List.Forall₂ Q cs ds := by
  induction h with
  | nil =>
    intro cs hcs
    obtain rfl := Except.ok.inj hcs
    exact ⟨[], rfl, .nil⟩
  | @cons a b l l' hab _ ih =>
    intro cs hcs
    rw [List.mapM_cons] at hcs ⊢
    obtain ⟨c, hc, hcs⟩ := Store.bind_eq_ok.mp hcs
    obtain ⟨rest, hrest, hcs⟩ := Store.bind_eq_ok.mp hcs
    obtain rfl := Except.ok.inj hcs
    obtain ⟨d, hd, hQ⟩ := hfg a b c hab hc
    obtain ⟨ds, hds, hQs⟩ := ih hrest
    exact ⟨d :: ds, Store.bind_eq_ok.mpr ⟨d, hd, Store.bind_eq_ok.mpr ⟨ds, hds, rfl⟩⟩, .cons hQ hQs⟩

end Lists

/-! ### Reading on both sides -/

/-- Only objects have fields. -/
theorem Store.exists_object_of_field? {s : Store} {v u : Value} (h : s.field? v key = some u) :
    ∃ fields, s.cellOf? v = some (.object fields) := by
  unfold Store.field? at h
  split at h
  · rename_i fields hcell
    exact ⟨fields, hcell⟩
  · cases h

/-- Reading does not tell the two sides apart: what is no cell is related to itself only, cells are
related to cells, and the contents of related values agree. -/
structure Reads (R : Value → Value → Prop) (s s' : Store) : Prop where
  scalar : ∀ {v v' : Value}, R v v' → v.identity? = none → v' = v
  cell : ∀ {c : CellId} {v' : Value}, R (.cell c) v' → ∃ c', v' = .cell c'
  agree : ∀ {v v' : Value} {cell : Cell}, R v v' → s.cellOf? v = some cell →
    ∃ cell', s'.cellOf? v' = some cell' ∧ cell.Agree R cell'

namespace Reads

variable {R : Value → Value → Prop} {s s' : Store} {v v' u : Value} (B : Reads R s s')

include B

theorem step? (h : R v v') (hu : s.step? v key = some u) :
    ∃ u', s'.step? v' key = some u' ∧ R u u' := by
  unfold Store.step? at hu ⊢
  split at hu
  · rename_i fields hcell
    obtain ⟨cell', hcell', hagree⟩ := B.agree h hcell
    obtain ⟨fields', rfl, hfields⟩ := hagree.object
    rw [hcell']
    exact exists_lookup_of_forall₂ hfields hu
  · rename_i items hcell
    obtain ⟨cell', hcell', hagree⟩ := B.agree h hcell
    obtain ⟨items', rfl, hitems⟩ := hagree.array
    obtain ⟨i, hi, hu⟩ := Option.bind_eq_some_iff.mp hu
    obtain ⟨u', hu', hmatch⟩ := exists_getElem?_of_forall₂ hitems hu
    rw [hcell', hi]
    exact ⟨u', hu', hmatch⟩
  · cases hu

/-- **Walking along a path** of matching values. -/
theorem walk {path : List String} : ∀ {v v' : Value}, R v v' → s.walk v path = .ok u →
    ∃ u', s'.walk v' path = .ok u' ∧ R u u' := by
  induction path with
  | nil =>
    intro v v' h hu
    obtain rfl := Except.ok.inj hu
    exact ⟨v', rfl, h⟩
  | cons key rest ih =>
    intro v v' h hu
    rw [Store.walk_cons] at hu ⊢
    cases hstep : s.step? v key with
    | none => simp [hstep] at hu
    | some w =>
      obtain ⟨w', hstep', hw⟩ := B.step? h hstep
      rw [hstep] at hu
      rw [hstep']
      exact ih hw hu

theorem itemsBehind (h : R v v')
    (hitems : s.itemsBehind shape v = .ok items) :
    ∃ items', s'.itemsBehind shape v' = .ok items' ∧ List.Forall₂ R items items' := by
  unfold Store.itemsBehind at hitems ⊢
  split at hitems
  · rename_i hcell
    obtain rfl := Except.ok.inj hitems
    obtain ⟨cell', hcell', hagree⟩ := B.agree h hcell
    obtain ⟨items', rfl, hmatch⟩ := hagree.array
    rw [hcell']
    exact ⟨items', rfl, hmatch⟩
  · cases hitems

theorem item? (h : R v v') {i : Nat} (hu : s.item? v i = some u) :
    ∃ u', s'.item? v' i = some u' ∧ R u u' := by
  unfold Store.item? at hu ⊢
  split at hu
  · rename_i hcell
    obtain ⟨cell', hcell', hagree⟩ := B.agree h hcell
    obtain ⟨items', rfl, hmatch⟩ := hagree.array
    rw [hcell']
    exact exists_getElem?_of_forall₂ hmatch hu
  · rename_i hcell
    obtain ⟨cell', hcell', hagree⟩ := B.agree h hcell
    obtain ⟨items', rfl, hmatch⟩ := hagree.set
    rw [hcell']
    exact exists_getElem?_of_forall₂ hmatch hu
  · cases hu

theorem pairBehind (h : R v v') {p : Value × Value} (hp : s.pairBehind shape v = .ok p) :
    ∃ p', s'.pairBehind shape v' = .ok p' ∧ R p.1 p'.1 ∧ R p.2 p'.2 := by
  unfold Store.pairBehind at hp ⊢
  cases h₀ : s.item? v 0 with
  | none => simp [h₀] at hp
  | some k =>
    cases h₁ : s.item? v 1 with
    | none => simp [h₀, h₁] at hp
    | some w =>
      obtain ⟨k', h₀', hk⟩ := B.item? h h₀
      obtain ⟨w', h₁', hw⟩ := B.item? h h₁
      rw [h₀, h₁] at hp
      obtain rfl := Except.ok.inj hp
      rw [h₀', h₁']
      exact ⟨(k', w'), rfl, hk, hw⟩

theorem formEntryBehind (h : R v v') {p : String × Value}
    (hp : s.formEntryBehind shape v = .ok p) :
    ∃ p', s'.formEntryBehind shape v' = .ok p' ∧ p.1 = p'.1 ∧ R p.2 p'.2 := by
  unfold Store.formEntryBehind at hp ⊢
  obtain ⟨⟨k, w⟩, hpair, hp⟩ := Store.bind_eq_ok.mp hp
  obtain ⟨⟨k', w'⟩, hpair', hk, hw⟩ := B.pairBehind h hpair
  rw [hpair']
  cases k with
  | string key =>
    obtain rfl : k' = .string key := B.scalar hk rfl
    obtain rfl := Except.ok.inj hp
    exact ⟨(key, w'), rfl, rfl, hw⟩
  | _ => cases hp

theorem blobParts? (h : List.Forall₂ R items items') {p : String × Bytes}
    (hp : Store.blobParts? s items = some p) : Store.blobParts? s' items' = some p := by
  unfold Store.blobParts? at hp
  split at hp
  · rename_i mime data rest
    obtain ⟨mime', tail, hmime, htail, rfl⟩ := List.forall₂_cons_left_iff.mp h
    obtain ⟨data', rest', hdata, -, rfl⟩ := List.forall₂_cons_left_iff.mp htail
    obtain rfl := B.scalar hmime rfl
    split at hp
    · rename_i hcell
      obtain ⟨cell', hcell', hagree⟩ := B.agree hdata hcell
      obtain rfl := hagree.binary
      rw [Store.blobParts?, hcell']
      exact hp
    · cases hp
  · cases hp

theorem field? (h : R v v') (hu : s.field? v key = some u) :
    ∃ u', s'.field? v' key = some u' ∧ R u u' := by
  unfold Store.field? at hu ⊢
  split at hu
  · rename_i hcell
    obtain ⟨cell', hcell', hagree⟩ := B.agree h hcell
    obtain ⟨fields', rfl, hfields⟩ := hagree.object
    rw [hcell']
    exact exists_lookup_of_forall₂ hfields hu
  · cases hu

/-- The bound arguments of a server reference. -/
theorem boundArguments (h : R v v') (hobject : s.cellOf? v = some (.object fields))
    (id key : String) :
    Cell.Agree R (.server id (Store.boundArguments (s.field? v key)))
      (.server id (Store.boundArguments (s'.field? v' key))) := by
  have nothing : Cell.Agree R (.server id none) (.server id none) := ⟨rfl, .nil⟩
  cases hu : s.field? v key with
  | none =>
    cases hu' : s'.field? v' key with
    | none => exact nothing
    | some u' =>
      obtain ⟨cell', hcell', hagree⟩ := B.agree h hobject
      obtain ⟨fields', rfl, hfields⟩ := hagree.object
      rw [Store.field?, hcell'] at hu'
      rw [Store.field?, hobject] at hu
      have hflip := hfields.flip.imp (S := fun f g => f.1 = g.1 ∧ R g.2 f.2) fun _ _ h =>
        ⟨h.1.symm, h.2⟩
      obtain ⟨u, hsome, -⟩ := exists_lookup_of_forall₂ (R := fun a b => R b a) hflip hu'
      cases hu.symm.trans hsome
  | some u =>
    obtain ⟨u', hu', hmatch⟩ := B.field? h hu
    rw [hu']
    cases u with
    | cell c =>
      obtain ⟨c', rfl⟩ := B.cell hmatch
      exact ⟨rfl, .cons hmatch .nil⟩
    | null =>
      obtain rfl := B.scalar hmatch rfl
      exact nothing
    | undefined =>
      obtain rfl := B.scalar hmatch rfl
      exact nothing
    | _ =>
      obtain rfl := B.scalar hmatch rfl
      exact ⟨rfl, .cons hmatch .nil⟩

/-- **What a reference makes of matching values** agrees. -/
theorem shaped (h : R v v') (hcell : s.shaped shape v = .ok cell) :
    ∃ cell', s'.shaped shape v' = .ok cell' ∧ cell.Agree R cell' := by
  cases shape with
  | plain => cases hcell
  | binary kind =>
    obtain ⟨data, hdata, view, hview, rfl⟩ := Store.shaped_binary.mp hcell
    obtain ⟨cell', hdata', hagree⟩ := B.agree h hdata
    obtain rfl := hagree.binary
    exact ⟨_, Store.shaped_binary.mpr ⟨data, hdata', view, hview, rfl⟩, rfl, .nil⟩
  | derived kind =>
    cases kind with
    | server =>
      obtain ⟨id, hid, rfl⟩ := Store.shaped_server.mp hcell
      obtain ⟨fields, hobject⟩ := Store.exists_object_of_field? hid
      obtain ⟨u', hid', hu'⟩ := B.field? h hid
      obtain rfl := B.scalar hu' rfl
      exact ⟨_, Store.shaped_server.mpr ⟨id, hid', rfl⟩, B.boundArguments h hobject id "bound"⟩
    | set =>
      obtain ⟨items, hitems, rfl⟩ := Store.shaped_set.mp hcell
      obtain ⟨items', hitems', hmatch⟩ := B.itemsBehind h hitems
      exact ⟨_, Store.shaped_set.mpr ⟨items', hitems', rfl⟩, Cell.agree_set hmatch⟩
    | blob =>
      obtain ⟨items, hitems, p, hp, rfl⟩ := Store.shaped_blob.mp hcell
      obtain ⟨items', hitems', hmatch⟩ := B.itemsBehind h hitems
      exact ⟨_, Store.shaped_blob.mpr ⟨items', hitems', p, B.blobParts? hmatch hp, rfl⟩, rfl, .nil⟩
    | map =>
      obtain ⟨items, hitems, pairs, hpairs, rfl⟩ := Store.shaped_map.mp hcell
      obtain ⟨items', hitems', hmatch⟩ := B.itemsBehind h hitems
      obtain ⟨pairs', hpairs', hagree⟩ := exists_mapM_of_forall₂ (R := R)
        (g := s'.pairBehind (.derived .map)) (f := s.pairBehind (.derived .map))
        (fun _ _ _ hv hp => B.pairBehind hv hp) hmatch hpairs
      exact ⟨_, Store.shaped_map.mpr ⟨items', hitems', pairs', hpairs', rfl⟩, Cell.agree_map hagree⟩
    | form =>
      obtain ⟨items, hitems, entries, hentries, rfl⟩ := Store.shaped_form.mp hcell
      obtain ⟨items', hitems', hmatch⟩ := B.itemsBehind h hitems
      obtain ⟨entries', hentries', hagree⟩ :=
        exists_mapM_of_forall₂ (R := R) (g := s'.formEntryBehind (.derived .form))
          (f := s.formEntryBehind (.derived .form))
          (fun _ _ _ hv hp => B.formEntryBehind hv hp) hmatch hentries
      exact ⟨_, Store.shaped_form.mpr ⟨items', hitems', entries', hentries', rfl⟩,
        Cell.agree_form hagree⟩

end Reads

/-! ### Values under a translation of cells -/

/-- The values are the same, where cells are translated by `β`. -/
def Value.Same (β : CellId → CellId → Prop) : Value → Value → Prop
  | .cell c, .cell c' => β c c'
  | v, v' => v = v'

/-! ### Matching values -/

/-- Two values match, where the cells that `L` relates are known to be the same and `N` and `N'`
name the other cells. -/
inductive Match {ι : Type} (L : CellId → CellId → Prop) (N N' : ι → CellId → Prop) (s s' : Store) :
    Value → Value → Prop
  | scalar {v : Value} (h : v.identity? = none) : Match L N N' s s' v v
  | known {c c' : CellId} (h : L c c') : Match L N N' s s' (.cell c) (.cell c')
  | cell {a : ι} {c c' : CellId} {cell cell' : Cell} (hname : N a c) (hname' : N' a c')
      (hcell : s.cell? c = some cell) (hcell' : s'.cell? c' = some cell')
        (hshell : cell.shell = cell'.shell)
      (hparts : ∀ (k : Nat) u u', cell.parts[k]? = some u → cell'.parts[k]? = some u' →
        Match L N N' s s' u u') :
      Match L N N' s s' (.cell c) (.cell c')

namespace Match

variable {ι : Type} {L : CellId → CellId → Prop} {N N' : ι → CellId → Prop} {s s' : Store}
  {v v' u : Value}

theorem symm {M : CellId → CellId → Prop} (hknown : ∀ {c c'}, L c c' → M c' c)
    (h : Match L N N' s s' v v') : Match M N' N s' s v' v := by
  induction h with
  | scalar h => exact .scalar h
  | known h => exact .known (hknown h)
  | cell hname hname' hcell hcell' hshell _ ih =>
    exact .cell hname' hname hcell' hcell hshell.symm fun k u u' hu hu' => ih k u' u hu' hu

/-- Two cells with one name that agree. -/
theorem of_agree {a : ι} {c' : CellId} {cell' : Cell} (hname : N a c) (hname' : N' a c')
    (hcell : s.cell? c = some cell) (hcell' : s'.cell? c' = some cell')
    (h : cell.Agree (Match L N N' s s') cell') : Match L N N' s s' (.cell c) (.cell c') := by
  refine .cell hname hname' hcell hcell' h.1 fun k u u' hu hu' => ?_
  obtain ⟨w, hw, hmatch⟩ := exists_getElem?_of_forall₂ h.2 hu
  obtain rfl := Option.some.inj (hw.symm.trans hu')
  exact hmatch

/-- What is no cell matches nothing but itself. -/
theorem eq_of_scalar (h : Match L N N' s s' v v') (hv : v.identity? = none) : v' = v := by
  cases h with
  | scalar => rfl
  | known => cases hv
  | cell => cases hv

/-- A value that leads to cells known to be the same matches itself. -/
theorem of_inside {C : CellId → Prop} (hknown : ∀ c, C c → L c c) (h : v.Inside C) :
    Match L N N' s s' v v := by
  cases v with
  | cell c => exact .known (hknown c h)
  | _ => exact .scalar rfl

/-- Matching cells have a name in common. -/
theorem exists_name (hknown : ∀ {c c'}, L c c' → ∃ a, N a c ∧ N' a c') {c' : CellId}
    (h : Match L N N' s s' (.cell c) (.cell c')) : ∃ a, N a c ∧ N' a c' := by
  cases h with
  | scalar h => cases h
  | known h => exact hknown h
  | cell hname hname' => exact ⟨_, hname, hname'⟩

theorem exists_cell (h : Match L N N' s s' v v') (hv : v = .cell c) : ∃ c', v' = .cell c' := by
  cases h with
  | scalar h =>
    rw [hv] at h
    cases h
  | known => exact ⟨_, rfl⟩
  | cell => exact ⟨_, rfl⟩

/-- Matching values are the same under the translation of matching cells. -/
theorem same (h : Match L N N' s s' v v') :
    v.Same (fun c c' => Match L N N' s s' (.cell c) (.cell c')) v' := by
  cases h with
  | scalar hv =>
    cases v with
    | cell c => cases hv
    | _ => rfl
  | known h => exact .known h
  | cell hname hname' hcell hcell' hshell hparts =>
    exact .cell hname hname' hcell hcell' hshell hparts

/-- **The contents of matching values** agree if those of the cells known to be the same do. -/
theorem agree
    (hknown : ∀ {c c'}, L c c' → ∃ cell cell', s.cell? c = some cell ∧ s'.cell? c' = some cell' ∧
      cell.Agree (Match L N N' s s') cell')
    (h : Match L N N' s s' v v') (hcell : s.cellOf? v = some cell) :
    ∃ cell', s'.cellOf? v' = some cell' ∧ cell.Agree (Match L N N' s s') cell' := by
  cases h with
  | scalar h =>
    cases v with
    | cell c => cases h
    | _ => cases hcell
  | known h =>
    obtain ⟨cell₁, cell', hcell₁, hcell', hagree⟩ := hknown h
    obtain rfl : cell₁ = cell := Option.some.inj (hcell₁.symm.trans hcell)
    exact ⟨cell', hcell', hagree⟩
  | @cell a c c' cell₁ cell' _ _ hcell₁ hcell' hshell hparts =>
    obtain rfl : cell₁ = cell := Option.some.inj (hcell₁.symm.trans hcell)
    refine ⟨cell', hcell', hshell, List.forall₂_iff_get.mpr ⟨Cell.length_parts_eq hshell,
      fun k h h' => ?_⟩⟩
    exact hparts k _ _ (List.getElem?_eq_getElem h) (List.getElem?_eq_getElem h')

/-- Reading does not tell matching values apart. -/
theorem reads
    (hknown : ∀ {c c'}, L c c' → ∃ cell cell', s.cell? c = some cell ∧ s'.cell? c' = some cell' ∧
      cell.Agree (Match L N N' s s') cell') : Reads (Match L N N' s s') s s' where
  scalar h hv := h.eq_of_scalar hv
  cell h := h.exists_cell rfl
  agree h hcell := h.agree hknown hcell

end Match

end GraphRows
