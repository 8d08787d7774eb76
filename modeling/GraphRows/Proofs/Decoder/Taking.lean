import GraphRows.Proofs.Decoder.Delivering

/-!
# Rows keep a decoder in good order

What a row is, its tag says: a model, binary data, or one of the other kinds. `RawRow.sort?` reads
the tag; what matters about a row here is whether it brings a value for its id, whether it ends a
stream, and what its payload refers to. Acting on a row is acting on its kind and then running
watchers.

## Main results

* `DecodeM.takeRow_eq`: the two halves of acting on a row
* `DecodeM.takeIn_ensures`: the first half keeps the decoder in good order, for every row
-/

namespace GraphRows

/-- What its tag makes of a row. -/
inductive RowSort where
  | model
  | binary (kind : BinaryKind)
  | tagged (tag : RowTag)

namespace RowSort

/-- A row that settles the entry of its id. -/
def isValue : RowSort → Bool
  | .tagged .hint | .tagged .close | .tagged .debug | .tagged .console | .tagged .timing => false
  | _ => true

/-- A row that ends the stream of its id. -/
def isFinal : RowSort → Bool
  | .tagged .error | .tagged .postpone | .tagged .close => true
  | _ => false

/-- A row that opens a stream. -/
def isOpening : RowSort → Bool
  | .tagged (.stream _) => true
  | _ => false

/-- A row whose payload is a model. -/
def isModel : RowSort → Bool
  | .model | .tagged .close => true
  | _ => false

end RowSort

namespace RawRow

/-- What the tag makes of the row. A row of an unknown kind is nothing. -/
def sort? (row : RawRow) : Option RowSort :=
  if row.tag == 0 then some .model
  else
    match BinaryKind.ofTag? row.tag with
    | some kind => some (.binary kind)
    | none => (RowTag.ofTag? row.tag).map .tagged

/-- The row settles the entry of its id. -/
def isValue (row : RawRow) : Bool := row.sort?.any RowSort.isValue

/-- The row ends the stream of its id. -/
def isFinal (row : RawRow) : Bool := row.sort?.any RowSort.isFinal

/-- The row opens a stream. -/
def isOpening (row : RawRow) : Bool := row.sort?.any RowSort.isOpening

/-- The model the row carries. -/
def model? (row : RawRow) : Option Json :=
  if row.sort?.any RowSort.isModel then (Json.read
    (Utf8.decodeLossy row.payload)).toOption else none

/-- The row says that something went wrong. -/
def Refuses (row : RawRow) : Prop :=
  row.sort? = some (.tagged .error) ∨ row.sort? = some (.tagged .postpone) ∨
    ∃ kind f, row.sort? = some (.binary kind) ∧ Binary.make kind row.payload = .error f

theorem model?_eq_some {row : RawRow} {s : RowSort} (hs : row.sort? = some s) (hmodel : s.isModel)
    {j : Json} (hj : Json.read (Utf8.decodeLossy row.payload) = .ok j) : row.model? = some j := by
  rw [model?, hs, Option.any_some, if_pos hmodel, hj]
  rfl

theorem model?_eq_none {row : RawRow} (h : row.sort?.any RowSort.isModel = false) :
    row.model? = none := by
  rw [model?, if_neg (by simp [h])]

end RawRow

open Decoder

namespace DecodeM

variable {a : Affairs} {id : Nat}

/-! ### One row -/

/-- The row of an id is going to be read, for the entry it has. -/
theorem beginRow {d : Decoder} {i : Nat} (ha : a.busy = none) (T : Tidy a d)
    (hid : d.ids.lookup id = some i) :
    Tidy { a with busy := some i, arrived := fun k => a.arrived k ∨ k = id } d :=
  ⟨(T.orderly.begin ha i).arrive hid fun _ => rfl, T.waits⟩

/-- The entry of an id that no row has come for, about to be read; or else a row has come. -/
theorem openRow?_ensures (hclosed : a.closed = none) (ha : a.busy = none) (hwanted : a.wanted id) :
    Ensures (fun x => Tidy a x.decoder) (openRow? id) fun o x =>
      match o with
      | some i =>
        Tidy { a with busy := some i, arrived := fun k => a.arrived k ∨ k = id } x.decoder ∧
          i < x.decoder.entries.size ∧ (x.decoder.entry i).state = .pending ∧
            (∀ p ∈ x.decoder.streams, p.1 ≠ id) ∧
          (∀ k, x.decoder.ids.lookup k = some i → k = id) ∧ ¬ a.arrived id
      | none => Tidy { a with arrived := fun k => a.arrived k ∨ k = id } x.decoder := by
  unfold openRow?
  refine .bind (entryOf_ensures (P := fun x => Tidy a x.decoder) hclosed (fun _ T => T) hwanted
    fun _ _ _ _ _ _ _ T => T) fun i => .bind .decoder fun d => .pure ?_
  rintro x ⟨⟨T, hid⟩, rfl⟩
  cases hpending : (x.decoder.entry i).state.isPending with
  | true =>
    have hnew : ¬ a.arrived id := by
      intro harrived
      obtain ⟨j, hj, hbusy⟩ := T.orderly.arrived id harrived
      obtain rfl := Option.some.inj (hid.symm.trans hj)
      exact absurd (hbusy hpending) (by simp [ha])
    refine ⟨beginRow ha T hid, T.orderly.named id i hid, ?_, ?_, fun k hk =>
      T.orderly.distinct k id i hk hid, hnew⟩
    · cases hs : (x.decoder.entry i).state <;> simp [hs, EntryState.isPending] at hpending ⊢
    · rintro p hp rfl
      exact hnew (T.orderly.streamed p hp)
  | false => exact ⟨T.orderly.arrive hid fun h => absurd h (by simp [hpending]), T.waits⟩

/-- The entry of an item, about to be read. -/
theorem newEntry_ensures (ha : a.busy = none) :
    Ensures (fun x => Tidy a x.decoder) (newEntry .pending) fun i x =>
      Tidy { a with busy := some i } x.decoder ∧ i < x.decoder.entries.size ∧
        (x.decoder.entry i).state = .pending ∧ ∀ k, x.decoder.ids.lookup k ≠ some i := by
  intro x T
  have hblank := isBlank_pending x.store.newPromise.1
  refine ⟨⟨T.orderly.newEntry ha hblank, T.waits.newEntry hblank rfl (fun _ _ h => h)
    (fun _ _ h => .inl h) rfl⟩, ?_, ?_, fun k hk => Nat.lt_irrefl _ (T.orderly.named k _ hk)⟩
  · exact Array.size_push _ ▸ Nat.lt_succ_self _
  · exact ((hblank.push (d := x.decoder) rfl x.decoder.entries.size).1).trans
      (by rw [entry_of_size_le x.decoder (Nat.le_refl _)])

/-- An entry that was about to be read settles instead. -/
theorem settleRow_ensures {i : Nat} (ha : a.busy = some i) (o : Outcome) :
    Ensures (fun x => Tidy a x.decoder ∧ i < x.decoder.entries.size ∧ a.Heard x.decoder i)
      (settleEntry i o) fun _ x => Tidy { a with busy := none } x.decoder :=
  (settleEntry_ensures i o).post fun _ _ h => (finish_settled ha h.1 h.2).1

/-- A stream that is open has an entry already. -/
theorem arrive_of_stream {x : Decoding} {b : Prop} (T : Tidy a x.decoder)
    (hst : (x.decoder.stream? id).isSome) :
    Tidy { a with arrived := fun k => a.arrived k ∨ k = id ∧ b } x.decoder := by
  obtain ⟨st, hst⟩ := Option.isSome_iff_exists.mp hst
  have harrived := T.orderly.streamed _ (Orderly.mem_of_stream? hst)
  have heq : (fun k => a.arrived k ∨ k = id ∧ b) = a.arrived := funext fun k =>
    propext ⟨fun h => h.elim (fun h => h) fun h => h.1 ▸ harrived, .inl⟩
  rw [heq]
  exact T

theorem loadModule_ensures {P : Decoder → Prop} (payload : Bytes) :
    Ensures (fun x => P x.decoder) (loadModule payload) fun _ x => P x.decoder := by
  unfold loadModule
  split
  · exact .pure fun x hx => hx
  · split
    · exact .pure fun x hx => hx
    · refine .bind .decoder fun d => ?_
      dsimp only
      split
      · exact .bind (Q := fun _ x => P x.decoder) (.modifyStore fun x hx => hx.1) fun _ =>
          .onStore fun x hx => hx
      · exact .onStore fun x hx => hx.1

/-! ### Every kind of row -/

/-- Act on what a row is. -/
def takeSort (id : Nat) (payload : Bytes) : RowSort → DecodeM Unit
  | .model => takeModel id (Utf8.decodeLossy payload)
  | .binary kind => takeBinary id kind payload
  | .tagged .text => takeValue id (.ok (.string (Utf8.decodeLossy payload)))
  | .tagged .importing => takeImport id payload
  | .tagged .hint => takeHint payload
  | .tagged .error => takeValue id (.error (errorReason payload))
  | .tagged .postpone => takeValue id (.error (postponeReason payload))
  | .tagged (.stream kind) => openStream id kind
  | .tagged .close => closeStream id (Utf8.decodeLossy payload)
  | .tagged _ => pure ()

/-- Act on a row, but for the watchers. -/
def takeIn (row : RawRow) : DecodeM Unit :=
  match row.sort? with
  | some sort => takeSort row.id row.payload sort
  | none => pure ()

theorem takeRow_eq (row : RawRow) : takeRow row = takeIn row >>= fun _ => runWatchers := by
  unfold takeRow takeIn RawRow.sort?
  split
  · rfl
  · cases BinaryKind.ofTag? row.tag with
    | some kind => rfl
    | none =>
      cases RowTag.ofTag? row.tag with
      | none => rfl
      | some tag => cases tag <;> rfl

/-! ### Rows in general -/

/-- What it takes to take the row in: from states with `A none` to states with `R`, by way of states
with `A (some o)` where the outcome `o` is at hand, and of states with `J o i` where the entry `i`
is open besides. -/
structure Receives (row : RawRow) (A : Option Outcome → Decoding → Prop) (R : Decoding → Prop)
    (J : Option Outcome → Nat → Decoding → Prop) : Prop where
  rest : row.isValue = false → ∀ x, A none x →
    (row.isFinal → (x.decoder.stream? row.id).isSome = false) → R x
  text : row.sort? = some (.tagged .text) → ∀ x, A none x →
    A (some (.ok (.string (Utf8.decodeLossy row.payload)))) x
  refused : row.Refuses → ∀ r x, A none x → A (some (.error r)) x
  binary : ∀ kind data, row.sort? = some (.binary kind) → Binary.make kind row.payload = .ok data →
    Ensures (A none) (onStore (·.make (.binary data))) fun v => A (some (.ok v))
  openRow : row.isValue → ∀ o, Ensures (fun x => A o x ∧
    (row.isFinal → (x.decoder.stream? row.id).isSome = false))
    (openRow? row.id) fun r x => (r = none → R x) ∧ ∀ i, r = some i → J o i x
  settle : row.sort?.any RowSort.isModel = false →
    ∀ i o, Ensures (J (some o) i) (settleEntry i o) fun _ => R
  revive : row.sort? = some .model →
    ∀ i, Ensures (J none i) (reviveRow i (Utf8.decodeLossy row.payload)) fun _ => R
  load : row.sort? = some (.tagged .importing) →
    ∀ i, Ensures (J none i) (loadModule row.payload >>= settleEntry i) fun _ => R
  stream : ∀ kind, row.sort? = some (.tagged (.stream kind)) → ∀ i, Ensures (J none i) (do
    let stream ← onStore (·.newStream kind)
    modifyDecoder fun d => { d with streams := d.streams ++ [(row.id, { stream })] }
    settleEntry i (.ok (.cell stream))) fun _ => R
  /-- a model that is an item or the last word of a stream has an entry of its own -/
  item : row.sort?.any RowSort.isModel → ∀ e : Nat → StreamEntry, (∀ i, (e i).waitsFor? = some i) →
    (row.isFinal → ∀ i, (e i).isEnding) → Ensures
    (fun x => A none x ∧ (x.decoder.stream? row.id).isSome) (do
      let i ← newEntry .pending
      reviveRow i (Utf8.decodeLossy row.payload)
      enqueue row.id (e i)) fun _ => R
  enqueue : ∀ o e, e.waitsFor? = none → (row.isFinal → e.isEnding) →
    Ensures (fun x => A o x ∧ (x.decoder.stream? row.id).isSome) (enqueue row.id e) fun _ => R
  note : row.isValue = false → ∀ h, Ensures (A none) (modifyStore (·.note (.hint h)))
    fun _ => A none

namespace Receives

variable {row : RawRow} {A : Option Outcome → Decoding → Prop} {R : Decoding → Prop}
  {J : Option Outcome → Nat → Decoding → Prop}

/-- What comes for a stream that is open, or else for a row. -/
theorem branch {o : Option Outcome} {m m' : DecodeM Unit}
    (h : Ensures (fun x => A o x ∧ (x.decoder.stream? row.id).isSome) m fun _ => R)
    (h' : Ensures (fun x => A o x ∧ (row.isFinal → (x.decoder.stream? row.id).isSome = false)) m'
      fun _ => R) :
    Ensures (A o) (decoder >>= fun d => if (d.stream? row.id).isSome then m else m') fun _ =>
      R := by
  refine .bind .decoder fun d => ?_
  split
  · rename_i hst
    refine h.pre ?_
    rintro x ⟨hx, rfl⟩
    exact ⟨hx, hst⟩
  · rename_i hst
    refine h'.pre ?_
    rintro x ⟨hx, rfl⟩
    exact ⟨hx, fun _ => Bool.eq_false_iff.mpr hst⟩

variable (T : Receives row A R J)
include T

theorem opened (hvalue : row.isValue) {o : Option Outcome} {f : Option Nat → DecodeM Unit}
    (hnone : f none = Pure.pure ()) (hf : ∀ i, Ensures (J o i) (f (some i)) fun _ => R) :
    Ensures (fun x => A o x ∧ (row.isFinal → (x.decoder.stream? row.id).isSome = false))
      (openRow? row.id >>= f) fun _ => R := by
  refine .bind (T.openRow hvalue o) fun r => ?_
  cases r with
  | none =>
    rw [hnone]
    exact .pure fun x hx => hx.1 rfl
  | some i => exact (hf i).pre fun x hx => hx.2 i rfl

theorem takeValue (hvalue : row.isValue) (hmodel : row.sort?.any RowSort.isModel = false)
    (o : Outcome) (hfinal : row.isFinal → ∃ r, o = .error r) :
    Ensures (A (some o)) (takeValue row.id o) fun _ => R := by
  refine branch (T.enqueue _ _ (by cases o <;> rfl) fun h => ?_)
    (T.opened hvalue rfl fun i => T.settle hmodel i o)
  obtain ⟨r, rfl⟩ := hfinal h
  rfl

/-- **The row is taken in**, whatever it is. -/
theorem takeIn : Ensures (A none) (takeIn row) fun _ => R := by
  unfold DecodeM.takeIn
  cases hsort : row.sort? with
  | none =>
    have hfinal : row.isFinal = false := by rw [RawRow.isFinal, hsort, Option.any_none]
    exact .pure fun x hx => T.rest (by rw [RawRow.isValue, hsort, Option.any_none]) x hx
      fun h => by simp [hfinal] at h
  | some sort =>
    have hvalue : row.isValue = sort.isValue := by rw [RawRow.isValue, hsort, Option.any_some]
    have hfinal : row.isFinal = sort.isFinal := by rw [RawRow.isFinal, hsort, Option.any_some]
    have hmodel : row.sort?.any RowSort.isModel = sort.isModel := by rw [hsort, Option.any_some]
    have idle : sort.isValue = false → sort.isFinal = false → ∀ x, A none x → R x :=
      fun hv hf x hx => T.rest (hvalue.trans hv) x hx fun h => by simp [hfinal, hf] at h
    have passing : ∀ {P : Prop}, sort.isFinal = false → row.isFinal → P :=
      fun hf h => by simp [hfinal, hf] at h
    cases sort with
    | model =>
      exact branch (T.item (hmodel.trans rfl) .entry (fun _ => rfl) (passing rfl))
        (T.opened (hvalue.trans rfl) rfl (T.revive hsort))
    | binary kind =>
      change Ensures _ (DecodeM.takeBinary row.id kind row.payload) _
      unfold DecodeM.takeBinary
      split
      · rename_i f hmake
        exact (T.takeValue (hvalue.trans rfl) (hmodel.trans rfl) _ (passing rfl)).pre
          (T.refused (.inr (.inr ⟨kind, f, hsort, hmake⟩)) _)
      · rename_i data hmake
        exact .bind (T.binary kind data hsort hmake) fun v => T.takeValue (hvalue.trans rfl)
          (hmodel.trans rfl) _ (passing rfl)
    | tagged tag =>
      cases tag with
      | text =>
        exact (T.takeValue (hvalue.trans rfl) (hmodel.trans rfl)
          (.ok (.string (Utf8.decodeLossy row.payload))) (passing rfl)).pre
          (T.text hsort)
      | error =>
        exact (T.takeValue (hvalue.trans rfl) (hmodel.trans rfl) (.error (errorReason row.payload))
          fun _ => ⟨_, rfl⟩).pre (T.refused (.inl hsort) _)
      | postpone =>
        exact (T.takeValue (hvalue.trans rfl) (hmodel.trans rfl)
          (.error (postponeReason row.payload)) fun _ => ⟨_, rfl⟩).pre
          (T.refused (.inr (.inl hsort)) _)
      | importing =>
        exact (T.opened (hvalue.trans rfl) rfl (T.load hsort)).pre fun x hx => ⟨hx, passing rfl⟩
      | hint =>
        exact ((habit_ensures (A none)).takeHint (T.note (hvalue.trans rfl)) row.payload).post
          fun _ => idle rfl rfl
      | stream kind =>
        exact (T.opened (hvalue.trans rfl) rfl (T.stream kind hsort)).pre fun x hx =>
          ⟨hx, passing rfl⟩
      | close =>
        refine branch ?_ (.pure fun x hx => T.rest (hvalue.trans rfl) x hx.1 hx.2)
        split
        · exact T.enqueue none _ rfl fun _ => rfl
        · exact T.item (hmodel.trans rfl) (.close ∘ some) (fun _ => rfl) fun _ _ => rfl
      | debug => exact .pure (idle rfl rfl)
      | console => exact .pure (idle rfl rfl)
      | timing => exact .pure (idle rfl rfl)

end Receives

/-- **What a row says is taken in.** A row with a value has come then; a stream that opens has no
end, and a last row is one. -/
theorem takeIn_ensures {wanted arrived unended unended' spoken : Nat → Prop}
    {refers : Nat → Nat → Prop} {reader : RowReader} (row : RawRow)
    (hvalue : row.isValue → wanted row.id)
    (hmentions : ∀ j, row.model? = some j → ∀ n, j.Mentions n → wanted n)
    (hspoken : ∀ j, row.model? = some j → ∀ n ∈ j.referents, spoken n)
    (hrefers : row.isValue → ¬ arrived row.id → ∀ j, row.model? = some j → ∀ n ∈ j.referents,
      refers row.id n)
    (hunended : ∀ k, unended k → k = row.id ∧ row.isFinal ∨ unended' k)
    (hopening : row.isOpening → unended' row.id) :
    Ensures (fun x => Tidy { wanted, arrived, unended, reader, spoken, refers } x.decoder)
      (takeIn row) fun _ x =>
      Tidy
        { wanted, arrived := fun k => arrived k ∨ k = row.id ∧ row.isValue, unended := unended',
          reader, spoken, refers } x.decoder := by
  let a : Affairs :=
    { wanted, arrived := fun k => arrived k ∨ k = row.id ∧ row.isValue, unended := unended', reader,
      spoken, refers }
  -- where no stream of the id is open, one may as well have ended
  have regard : ∀ {b : Affairs} {x : Decoding}, b.unended = unended →
      (row.isFinal → (x.decoder.stream? row.id).isSome = false) →
      Tidy b x.decoder → Tidy { b with unended := unended' } x.decoder := by
    rintro b x rfl hst T
    refine ⟨T.orderly.regard (fun _ h => h) fun p hp h => .inr ((hunended p.1 h).resolve_left ?_),
      T.waits⟩
    rintro ⟨hid, hfinal⟩
    have hnone := List.lookup_eq_none_iff.mp
      (Option.isSome_eq_false_iff.mp (hst hfinal) |> Option.isNone_iff_eq_none.mp) p hp
    simp [hid] at hnone
  have ended : ∀ {e : StreamEntry}, (row.isFinal → e.isEnding) → ∀ k, unended k → k = row.id ∧
      e.isEnding ∨ unended' k :=
    fun he k hk => (hunended k hk).imp_left fun h => ⟨h.1, he h.2⟩
  refine Receives.takeIn
    (A := fun _ x => Tidy { wanted, arrived, unended, reader, spoken, refers } x.decoder)
    (J := fun _ i x => (Tidy { a with busy := some i } x.decoder ∧
      i < x.decoder.entries.size ∧ (x.decoder.entry i).state = .pending ∧
      (∀ p ∈ x.decoder.streams, p.1 ≠ row.id) ∧
        (∀ k, x.decoder.ids.lookup k = some i → k = row.id) ∧ ¬ arrived row.id) ∧
      a.Heard x.decoder i) {
    rest := fun hv x T hst => ?_
    text := fun _ _ T => T
    refused := fun _ _ _ T => T
    binary := fun _ _ _ _ => .onStore fun _ T => T
    openRow := fun hv _ => ?_
    settle := fun _ i o => (settleRow_ensures (a := { a with busy := some i }) rfl o).pre
      fun x hx => ⟨hx.1.1, hx.1.2.1, hx.2⟩
    revive := fun hsort i => ?_
    load := fun _ i =>
      .bind ((loadModule_ensures (P := fun d => Tidy { a with busy := some i } d ∧
        i < d.entries.size ∧ a.Heard d i) _).pre fun x hx => ⟨hx.1.1, hx.1.2.1, hx.2⟩)
      fun o => settleRow_ensures (a := { a with busy := some i }) rfl o
    stream := fun kind hsort i => ?_
    item := fun hm e hwaits hending => ?_
    enqueue := fun _ e hwaits hending => ?_
    note := fun _ _ => .modifyStore fun _ T => T }
  · have T' := regard rfl hst T
    simpa [a, hv] using T'
  · refine ((openRow?_ensures rfl rfl (hvalue hv)).pre fun x hx => regard rfl hx.2 hx.1).post
      fun r x hx => ?_
    simp only [a, hv, and_true]
    cases r with
    | none => exact ⟨fun _ => hx, by rintro _ ⟨⟩⟩
    | some i =>
      refine ⟨by rintro ⟨⟩, ?_⟩
      rintro _ ⟨⟩
      exact ⟨hx, fun _ k hk => .inr (hx.2.2.2.2.1 k hk)⟩
  · have hv : row.isValue := by rw [RawRow.isValue, hsort]; rfl
    have hread : ∀ {j}, Json.read (Utf8.decodeLossy row.payload) = .ok j → row.model? = some j :=
      RawRow.model?_eq_some hsort rfl
    rintro x ⟨hx, -⟩
    refine ((reviveRow_ensures (a := { a with busy := some i }) (N := (· = row.id)) rfl rfl
      (fun k hk => .inr ⟨hk, hv⟩) (fun j hj => hmentions j (hread hj))
      fun j hj n hn => ⟨hspoken j (hread hj) n hn, ?_⟩) x ⟨hx.1, hx.2.1, hx.2.2.1, hx.2.2.2.2.1⟩).1
    rintro k rfl
    exact hrefers hv hx.2.2.2.2.2 j (hread hj) n hn
  · refine .bind (Q := fun _ x => Tidy { a with busy := some i } x.decoder ∧
      i < x.decoder.entries.size ∧ a.Heard x.decoder i ∧ ∀ p ∈ x.decoder.streams, p.1 ≠ row.id)
      (.onStore fun x hx => ⟨hx.1.1, hx.1.2.1, hx.2, hx.1.2.2.2.1⟩) fun stream =>
      .bind (.modifyDecoder fun x hx =>
        ⟨⟨hx.1.orderly.openStream stream (.inr ⟨rfl, ?_⟩) (hopening ?_) hx.2.2.2,
        hx.1.waits.congr rfl rfl rfl⟩, hx.2.1, hx.2.2.1⟩)
      fun _ => settleRow_ensures (a := { a with busy := some i }) rfl _
    · rw [RawRow.isValue, hsort]; rfl
    · rw [RawRow.isOpening, hsort]; rfl
  · obtain ⟨sort, hsort, hm⟩ := (Option.any_eq_true _ _).mp hm
    have hread : ∀ {j}, Json.read (Utf8.decodeLossy row.payload) = .ok j → row.model? = some j :=
      RawRow.model?_eq_some hsort hm
    let b (i : Option Nat) : Affairs := { a with unended, busy := i }
    refine .bind (((newEntry_ensures (a := b none) rfl).pre fun x hx =>
      arrive_of_stream hx.1 hx.2).post fun i x hx =>
      ⟨hx.1, hx.2.1, hx.2.2.1, fun k hk => absurd hk (hx.2.2.2 k)⟩) fun i =>
      .bind (reviveRow_ensures (a := b (some i)) (N := fun _ => False) rfl rfl
        (fun _ => False.elim) (fun j hj => hmentions j (hread hj))
        fun j hj n hn => ⟨hspoken j (hread hj) n hn, fun _ => False.elim⟩) fun _ =>
      (enqueue_ensures (a := b none) rfl (ended (hending · i))).pre fun x hx =>
        ⟨hx.1, fun j hj => ?_⟩
    exact Option.some.inj ((hwaits i).symm.trans hj) ▸ lt_size_of_not_isPending _ hx.2
  · refine (enqueue_ensures (a := { a with unended }) rfl (ended hending)).pre fun x hx =>
      ⟨arrive_of_stream hx.1 hx.2, fun j hj => ?_⟩
    rw [hwaits] at hj
    cases hj

end DecodeM

end GraphRows
