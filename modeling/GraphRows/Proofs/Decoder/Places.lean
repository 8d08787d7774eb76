import GraphRows.Proofs.Decoder.Entries
import GraphRows.Proofs.Json.Mentions

/-!
# The places of a payload

An array and an object are read alike: a cell is allocated, the parts are read one after another,
each for its place in the cell, and then the cell is written. `Json.places` lists the places of both
with what stands there, so that whatever is said of reading a payload needs one case for the
payloads without parts, one for those with parts, and one induction over places.

## Main results

* `Json.parts_induction`: induction over the parts of a payload
* `DecodeM.revive_node`: an array or object is read by reading its places
-/

namespace GraphRows

namespace Hole

/-- The cell of a hole below the root. -/
def cell? : Hole → Option CellId
  | .root => none
  | .item array _ => some array
  | .field object _ => some object

end Hole

namespace Json

/-- The payload is an array or an object. -/
def isNode : Json → Bool
  | .arr _ => true
  | .obj _ => true
  | _ => false

/-- What stands in an array or object, in order. -/
def parts : Json → List Json
  | .arr items => items
  | .obj fields => fields.map Prod.snd
  | _ => []

/-- The places of an array or object in the cell `c`, with what stands there. -/
def places (c : CellId) : Json → List (Hole × Json)
  | .arr items => items.mapIdx fun i j => (.item c i, j)
  | .obj fields => fields.map fun f => (.field c f.1, f.2)
  | _ => []

/-- The cell of an array or object with some values at its places. -/
def cellWith (vs : List Value) : Json → Cell
  | .obj fields => .object ((fields.map Prod.fst).zip vs)
  | _ => .array vs

variable {j : Json} {c : CellId} {n : Nat}

theorem map_snd_places (j : Json) (c : CellId) : (j.places c).map Prod.snd = j.parts := by
  cases j with
  | arr items =>
    exact List.ext_getElem (by simp [places, parts]) fun i _ _ => by simp [places, parts]
  | obj fields => simp [places, parts]
  | _ => rfl

theorem snd_mem_parts {p : Hole × Json} (h : p ∈ j.places c) : p.2 ∈ j.parts :=
  map_snd_places j c ▸ List.mem_map_of_mem h

theorem cellWith_ne_promise (j : Json) (vs : List Value) (p : Promise) :
    j.cellWith vs ≠ .promise p := by
  cases j <;> exact fun h => by cases h

theorem cellWith_ne_stream (j : Json) (vs : List Value) (st : Stream) :
    j.cellWith vs ≠ .stream st := by
  cases j <;> exact fun h => by cases h

/-- An object without values has no fields. -/
theorem eq_nil_of_cellWith_nil (j : Json) (fields : List (String × Value))
    (h : j.cellWith [] = .object fields) : fields = [] := by
  cases j with
  | obj fs => exact (Cell.object.inj h).symm.trans List.zip_nil_right
  | _ => cases h

theorem cell?_of_mem_places {p : Hole × Json} (h : p ∈ j.places c) : p.1.cell? = some c := by
  cases j with
  | arr items =>
    obtain ⟨i, hi, rfl⟩ := List.mem_mapIdx.mp h
    rfl
  | obj fields =>
    obtain ⟨f, hf, rfl⟩ := List.mem_map.mp h
    rfl
  | _ => cases h

theorem isNode_of_mem_parts {k : Json} (h : k ∈ j.parts) : j.isNode = true := by
  cases j with
  | arr items => rfl
  | obj fields => rfl
  | _ => cases h

theorem sizeOf_lt_of_mem_parts {k : Json} (h : k ∈ j.parts) : sizeOf k < sizeOf j := by
  cases j with
  | arr items =>
    have := List.sizeOf_lt_of_mem (show k ∈ items from h)
    simp
    omega
  | obj fields =>
    obtain ⟨⟨key, k⟩, hf, rfl⟩ := List.mem_map.mp h
    have := List.sizeOf_lt_of_mem hf
    simp at this ⊢
    omega
  | _ => cases h

/-- **Induction over the parts of a payload.** -/
theorem parts_induction {P : Json → Prop} (leaf : ∀ j : Json, j.isNode = false → P j)
    (node : ∀ j : Json, j.isNode = true → (∀ k ∈ j.parts, P k) → P j) (j : Json) : P j := by
  by_cases h : j.isNode = true
  · exact node j h fun k hk => parts_induction leaf node k
  · exact leaf j (Bool.eq_false_iff.mpr h)
termination_by sizeOf j
decreasing_by exact sizeOf_lt_of_mem_parts hk

theorem referents_node (h : j.isNode = true) : j.referents = j.parts.flatMap referents := by
  cases j with
  | arr items =>
    change itemReferents items = items.flatMap referents
    induction items with
    | nil => rfl
    | cons k rest ih => rw [itemReferents, ih h, List.flatMap_cons]
  | obj fields =>
    change fieldReferents fields = (fields.map Prod.snd).flatMap referents
    induction fields with
    | nil => rfl
    | cons f rest ih => rw [fieldReferents, ih h, List.map_cons, List.flatMap_cons]
  | _ => cases h

theorem mem_referents_of_mem_parts {k : Json} (h : k ∈ j.parts) (hn : n ∈ k.referents) :
    n ∈ j.referents := by
  rw [referents_node (isNode_of_mem_parts h)]
  exact List.mem_flatMap.mpr ⟨k, h, hn⟩

theorem mentions_of_mem_parts {k : Json} (h : k ∈ j.parts) (hn : k.Mentions n) : j.Mentions n := by
  cases j with
  | arr items => exact mentionsItem_iff.mpr ⟨k, h, hn⟩
  | obj fields =>
    obtain ⟨f, hf, rfl⟩ := List.mem_map.mp h
    exact mentionsField_iff.mpr ⟨f, hf, hn⟩
  | _ => cases h

/-- The parts of a payload without repeated keys have none either. -/
theorem Distinct.parts (h : j.Distinct) : ∀ k ∈ j.parts, k.Distinct := by
  cases j with
  | arr items =>
    change DistinctItems items at h
    change ∀ k ∈ items, k.Distinct
    induction items with
    | nil => simp
    | cons k rest ih => exact List.forall_mem_cons.mpr ⟨h.1, ih h.2⟩
  | obj fields =>
    replace h : DistinctFields fields := h.2
    change ∀ k ∈ fields.map Prod.snd, k.Distinct
    induction fields with
    | nil => simp
    | cons f rest ih => exact List.forall_mem_cons.mpr ⟨h.1, ih h.2⟩
  | _ => simp [Json.parts]

/-- The places of a payload without repeated keys differ. -/
theorem Distinct.nodup (h : j.Distinct) (c : CellId) : ((j.places c).map Prod.fst).Nodup := by
  cases j with
  | arr items =>
    refine List.pairwise_iff_getElem.mpr fun i k _ _ hik h => Nat.ne_of_lt hik ?_
    simpa [places] using h
  | obj fields =>
    rw [places, List.map_map, show Prod.fst ∘ (fun f : String × Json => (Hole.field c f.1, f.2)) =
      Hole.field c ∘ Prod.fst from rfl, ← List.map_map]
    exact h.1.map fun k k' hk => by injection hk
  | _ => simp [places]

end Json

namespace DecodeM

variable {target : Nat} {j : Json} {c : CellId}

/-- Goes on with `k` unless the step before has failed. -/
abbrev orFail {ε α β : Type} (k : α → DecodeM (Except ε β)) : Except ε α → DecodeM (Except ε β) :=
  ExceptT.bindCont k

/-- The values at some places, up to the first that fails. -/
def reviveEach (target : Nat) : List (Hole × Json) → DecodeM (Except Rejection (List Value))
  | [] => pure (.ok [])
  | p :: rest => revive target p.1 p.2 >>= orFail fun v =>
      reviveEach target rest >>= orFail fun vs => pure (.ok (v :: vs))

theorem reviveItems_eq (target array : Nat) (js : List Json) : ∀ i, reviveItems target array i js =
    reviveEach target (js.mapIdx fun k j => (.item array (i + k), j)) := by
  induction js with
  | nil => intro i; rw [reviveItems]; rfl
  | cons j js ih =>
    intro i
    rw [reviveItems, List.mapIdx_cons, reviveEach]
    refine congrArg _ (funext fun r => ?_)
    cases r with
    | error r => rfl
    | ok v =>
      change (reviveItems target array (i + 1) js >>= _) = _
      rw [ih (i + 1)]
      simp only [Nat.add_assoc, Nat.add_comm 1]
      refine congrArg _ (funext fun rs => ?_)
      cases rs <;> rfl

theorem reviveFields_eq (target object : Nat) (fs : List (String × Json)) :
    reviveFields target object fs =
    reviveEach target (fs.map fun f => (.field object f.1, f.2)) >>=
      orFail fun vs => pure (.ok ((fs.map Prod.fst).zip vs)) := by
  induction fs with
  | nil => rw [reviveFields]; rfl
  | cons f fs ih =>
    rw [reviveFields, List.map_cons, reviveEach, bind_assoc]
    refine congrArg _ (funext fun r => ?_)
    cases r with
    | error r => rfl
    | ok v =>
      change (reviveFields target object fs >>= _) = (_ >>= _) >>= _
      rw [ih, bind_assoc, bind_assoc]
      refine congrArg _ (funext fun rs => ?_)
      cases rs <;> rfl

/-- **An array or object is read by reading its places.** -/
theorem revive_node (target : Nat) (hole : Hole) (h : j.isNode = true) : revive target hole j = (do
    let c ← onStore (·.alloc (j.cellWith []))
    reviveEach target (j.places c) >>= orFail fun vs => do
      modifyStore (·.write c (j.cellWith vs))
      return .ok (.cell c)) := by
  cases j with
  | arr items =>
    rw [revive]
    refine congrArg _ (funext fun array => ?_)
    rw [reviveItems_eq]
    simp only [Nat.zero_add]
    refine congrArg _ (funext fun r => ?_)
    cases r <;> rfl
  | obj fields =>
    rw [revive]
    simp only [Json.cellWith, List.zip_nil_right]
    refine congrArg _ (funext fun object => ?_)
    rw [reviveFields_eq, bind_assoc]
    refine congrArg _ (funext fun r => ?_)
    cases r <;> rfl
  | _ => cases h

/-- A step that may fail, and what is done if it does not. -/
theorem Ensures.orFail {ε α β : Type} {P : Decoding → Prop} {R : Except ε α → Decoding → Prop}
    {Q : Except ε β → Decoding → Prop} {m : DecodeM (Except ε α)} {k : α → DecodeM (Except ε β)}
    (hm : Ensures P m R) (hfail : ∀ e y, R (.error e) y → Q (.error e) y)
    (hk : ∀ v, Ensures (R (.ok v)) (k v) Q) : Ensures P (m >>= orFail k) Q := by
  refine hm.bind fun r => ?_
  cases r with
  | error e => exact .pure (hfail e)
  | ok v => exact hk v

end DecodeM

end GraphRows
