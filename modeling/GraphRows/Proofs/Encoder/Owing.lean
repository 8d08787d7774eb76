import GraphRows.Proofs.Encoder.Upholding
import GraphRows.Proofs.Store.Sinks

/-!
# Rendering keeps the books

Whatever rendering does, the books are in order afterwards, and every row the result speaks of is
provided for. So they are in order after any message was acted on.

## Main results

* `Render.upholds_books`: the simple steps of rendering
* `Render.handleAll_ensures`: acting on any messages
-/

namespace GraphRows

/-- What rendering leaves alone: the sinks, and how the encoder stands to its own. -/
structure Around where
  sinks : Array Sink
  status : Status
  sink : Option Nat
  batch : Batch
  flowing : Bool

/-- What is around an encoder. -/
def Around.of (e : Encoder) (s : Store) : Around := ⟨s.sinks, e.status, e.sink, e.batch, e.flowing⟩

/-- The books are in order, and what is around is as it was. -/
structure InOrder {η : Type} (around : Around) (said : Nat → Prop) (out : List Row)
    (own due ends : List Nat) (x : Encoding η) : Prop where
  ledger : Ledger said out own due ends x.encoder
  around : Around.of x.encoder x.store = around

/-- A change of the store that leaves the sinks alone. -/
theorem InOrder.onStore {η : Type} {around : Around} {said : Nat → Prop} {out : List Row}
    {own due ends : List Nat} {x : Encoding η} {s : Store}
    (hx : InOrder around said out own due ends x) (hs : s.sinks = x.store.sinks) :
    InOrder around said out own due ends { x with store := s } :=
  ⟨hx.ledger, by rw [← hx.around, Around.of, Around.of, hs]⟩

/-- A host whose thunks leave the sinks alone. -/
def Quiet {η : Type} (run : Force η) : Prop :=
  ∀ id a s h r a' s' h', run id a s h = some (r, a', s', h') → s'.sinks = s.sinks

namespace Around

theorem of_emitRejection (e : Encoder) (s : Store) (id : Nat) (reason : Rejection) :
    Around.of (e.emitRejection s id reason).1 (e.emitRejection s id reason).2 = Around.of e s := by
  cases reason with
  | postpone r =>
    simp only [Encoder.emitRejection]
    split <;> rfl
  | error cause =>
    simp only [Encoder.emitRejection, Encoder.reportError]
    cases e.digest <;> rfl

theorem of_fatalRow (e : Encoder) (s : Store) :
    Around.of (e.fatalRow s).2.1 (e.fatalRow s).2.2 = Around.of e s := by
  unfold Encoder.fatalRow
  split
  · rfl
  · exact of_emitRejection _ _ _ _

theorem of_queueHint (e : Encoder) (s : Store) (h : Hint) :
    Around.of (e.queueHint h).2 s = Around.of e s := by
  unfold Encoder.queueHint
  split <;> rfl

theorem of_queueHints (e : Encoder) (s : Store) (hints : List Hint) :
    Around.of (hints.foldl (fun e h => (e.queueHint h).2) e) s = Around.of e s := by
  induction hints generalizing e with
  | nil => rfl
  | cons h hints ih => exact (ih _).trans (of_queueHint e s h)

theorem of_takeTask (e : Encoder) (s : Store) (id : Nat) :
    Around.of (e.takeTask id).2 s = Around.of e s := by
  unfold Encoder.takeTask
  split <;> rfl

theorem of_takeStream (e : Encoder) (s : Store) (id : Nat) :
    Around.of (e.takeStream id).2 s = Around.of e s := by
  unfold Encoder.takeStream
  split <;> rfl

end Around

namespace Render

open EncodeM Encoder

variable {η : Type} {around : Around} {said : Nat → Prop} {out : List Row} {own due ends : List Nat}

/-- The books as an invariant of rendering: what is known to be provided for is spoken of. -/
abbrev Books (around : Around) (out : List Row) (ends : List Nat) : Invariant η := fun K own due =>
  InOrder around (fun n => K (.row n)) out own due ends

/-- A change of the store that leaves the sinks alone. -/
theorem modifyStore_ensures {f : Store → Store} (h : ∀ s, (f s).sinks = s.sinks) :
    Ensures (InOrder (η := η) around said out own [] ends) (modifyStore f) fun _ =>
      InOrder around said out own [] ends :=
  .modifyStore fun x hx => hx.onStore (h x.store)

theorem force_books {run : Force η} (hrun : Quiet run) {K : Fact → Prop} (id : CellId)
    (recalled : List CellId) : Keeps (Books around out ends) K [] [] (force run id recalled) := by
  intro own x a y hx hy
  unfold force at hy
  split at hy
  · cases hy
  · rename_i r a' store host hforce
    obtain ⟨-, rfl⟩ := Prod.mk.inj (Option.some.inj hy)
    refine InOrder.onStore (x := ⟨_, x.store, host⟩)
      ⟨(hx.ledger.queueHints a'.hints).weaken fun n hn => ?_, ?_⟩ (hrun _ _ _ _ _ _ _ _ hforce)
    · rcases hn with hn | ⟨_, _, ⟨⟩⟩ | ⟨_, _, ⟨⟩⟩
      exact hn
    · exact (Around.of_queueHints x.encoder x.store a'.hints).trans hx.around

theorem renderStream_books {K : Fact → Prop} (id : CellId) (st : Stream) :
    Ensures (Books (η := η) around out ends K own []) (renderStream id st) fun r =>
      Books around out ends (also K r) own [] := by
  have failed : ∀ {reason} {x : Encoding η}, Books around out ends K own [] x →
      Books around out ends (also K (.error (.throw reason) : Rendered Json)) own [] x := by
    refine fun hx => ⟨hx.ledger.weaken fun n hn => ?_, hx.around⟩
    rcases hn with hn | ⟨_, ⟨⟩, _⟩ | ⟨_, _, _, ⟨⟩, _⟩
    exact hn
  unfold renderStream
  split
  · exact .pure fun x hx => failed hx
  refine .bind (.onEncoder (Q := fun task x => Ledger (fun n => K (.row n) ∨ n = task.id) out
    (task.id :: own) [] ends x.encoder ∧
    Around.of x.encoder x.store = around ∧ task.model = .cell id)
    fun x hx => ⟨?_, hx.around, rfl⟩) fun task => ?_
  · refine (hx.ledger.createTask _ _).imp fun n hn => hn.imp_right ?_
    rintro rfl
    exact .inr (.inr List.mem_cons_self)
  by_cases hmodel : task.model = .cell id
  case neg => exact fun x a y hx => absurd hx.2.2 hmodel
  -- the row that opens the stream and the one that will end it are owed apart
  refine .bind (.modifyEncoder (Q := fun _ => InOrder around (fun n => K (.row n) ∨ n = task.id) out
    own [task.id] ends) fun x hx => ⟨hx.1.release, hx.2.1⟩) fun _ => ?_
  refine .bind (.modifyEncoder (Q := fun _ x => ∃ e : Encoder,
      x.encoder = { e with pending := e.pending + 1 } ∧ InOrder around
        (fun n => K (.row n) ∨ n = task.id) out own [task.id] ends
        { x with encoder := e }) fun x hx => ⟨x.encoder, rfl, hx⟩) fun _ => ?_
  refine .bind (.modifyEncoder (Q := fun _ => InOrder around (fun n => K (.row n) ∨ n = task.id)
    out own [] (task.id :: ends)) ?_) fun _ => ?_
  · rintro x ⟨e, he, hx⟩
    exact ⟨he ▸ hx.ledger.pushOpening st.kind, he ▸ hx.around⟩
  refine .bind (.modifyEncoder (Q := fun _ => InOrder around (fun n => K (.row n) ∨ n = task.id)
    out own [] ends) fun x hx => ⟨hx.ledger.keepStream ⟨id, hmodel⟩, hx.around⟩) fun _ =>
      .bind .store fun s => .bind .encoder fun e => ?_
  split
  · rename_i s' hs'
    refine .bind (.modifyStore (Q := fun _ => InOrder around (fun n => K (.row n) ∨ n = task.id) out
      own [] ends) fun x hx => ?_)
      fun _ => .pure fun x hx => ⟨hx.ledger.weaken fun n hn => ?_, hx.around⟩
    · refine hx.1.1.onStore ((Store.sinks_subscribe hs').trans ?_)
      rw [hx.1.2]
    · rcases hn with hn | ⟨_, ⟨⟩, n, hn, ⟨⟩⟩ | ⟨_, _, _, ⟨⟩, _⟩
      · exact .inl hn
      · exact .inr (Ledger.eq_of_mentions_rowJson hn)
  · exact .pure fun x hx => failed ⟨hx.1.1.ledger.weaken fun n hn => .inl hn, hx.1.1.around⟩

/-- **The simple steps of rendering keep the books**, on a host whose thunks leave the sinks
alone. -/
theorem upholds_books {run : Force η} (hrun : Quiet run) : Upholds run (Books around out ends) where
  weaken hx h := ⟨hx.ledger.weaken fun n => h (.row n), hx.around⟩
  encoder hx := by
    refine ⟨hx.ledger.imp fun n hn => hn.imp_right ?_, hx.around⟩
    rintro ⟨n, hn, ⟨⟩⟩
    exact hx.ledger.provides n (.inl (.memory hn))
  store hx := by
    refine ⟨hx.ledger.weaken fun n hn => hn.elim (fun h => h) ?_, hx.around⟩
    rintro ⟨_, _, ⟨⟩⟩
  owned hx := by
    refine ⟨hx.ledger.imp fun n hn => hn.imp_right ?_, hx.around⟩
    rintro ⟨⟩
    exact .inr (.inr (List.mem_append_right _ List.mem_cons_self))
  allocateRow hx := by
    refine ⟨hx.ledger.allocateRow.imp fun n hn => hn.imp_right ?_, hx.around⟩
    rintro ⟨⟩
    exact .inr (.inr List.mem_cons_self)
  createTask model recalled hx hrecalled := by
    refine ⟨(hx.ledger.createTask model recalled).imp fun n hn => hn.imp_right ?_, hx.around⟩
    rintro (⟨⟨⟩⟩ | ⟨_, _, ⟨⟩⟩)
    exact .inr (.inr List.mem_cons_self)
  dropAbortable hx := ⟨hx.ledger.release, hx.around⟩
  push hx hq hvalue hopen hsafe hm :=
    ⟨hx.ledger.push _ _ hq hvalue hopen hsafe fun n hn => hx.ledger.provides n (.inr (hm n hn)), by
      rename_i q _
      cases q <;> exact hx.around⟩
  emitRejection reason hx := ⟨hx.ledger.emitRejection _ reason,
    (Around.of_emitRejection _ _ _ reason).trans hx.around⟩
  fatalRow hx := by
    refine ⟨(hx.ledger.fatalRow _).weaken fun n hn => hn.imp_right ?_,
      (Around.of_fatalRow _ _).trans hx.around⟩
    rintro ⟨⟩
    rfl
  remember hx hnext h := ⟨hx.ledger.remember hnext fun n hn => (h n hn).imp_right fun h =>
    hx.ledger.provides n (.inr h), hx.around⟩
  andThen hx ht _ _ := InOrder.onStore (x := ⟨_, _, _⟩) ⟨hx.ledger.keepTask ht, hx.around⟩
    (Store.sinks_andThen _ _ _)
  post hx ht _ := InOrder.onStore (x := ⟨_, _, _⟩) ⟨hx.ledger.keepTask ht, hx.around⟩
    (Store.sinks_post _ _ _)
  make hx _ _ := hx.onStore rfl
  force id recalled _ := force_books hrun id _
  renderStream id st := (renderStream_books id st).pre fun x hx => hx.1

/-! ### Acting on messages -/

section Messages

variable {run : Force η}

/-- What is spoken of is known, and nothing is said about promises. -/
def knows (said : Nat → Prop) : Fact → Prop
  | .row n => said n
  | .promise _ => True

theorem Keeps.books {m : EncodeM η Unit} {mine : List Nat}
    (h : Keeps (Books around out ends) (knows said) mine [] m) :
    Ensures (InOrder around said out (mine ++ own) [] ends) m fun _ =>
      InOrder around said out own [] ends :=
  (h own).post fun _ _ hx => ⟨hx.ledger.weaken fun _ => .inl, hx.around⟩

theorem emitItem_ensures (hrun : Quiet run) (fuel : Nat) (task : Task) (item : Value) :
    Ensures (InOrder around said out own [] (task.id :: ends)) (emitItem run fuel task item)
      fun _ => InOrder around said out own [] (task.id :: ends) := by
  unfold emitItem
  refine .bind .store fun s => .pre (P := InOrder around said out own [] (task.id :: ends)) ?_
    fun x hx => hx.1
  extract_lets finish
  have push : ∀ b : RowBody, b.isItem = true →
      Ensures (InOrder around (fun n => said n ∨ b.Mentions n) out own [] (task.id :: ends))
        (finish (.ok b)) fun _ => InOrder around said out own [] (task.id :: ends) := by
    intro b hitem
    -- the item is counted before it is queued
    refine .bind (.modifyEncoder (Q := fun _ x => ∃ e : Encoder, x.encoder =
      { e with pending := e.pending + 1 } ∧
      Ledger (fun n => said n ∨ b.Mentions n) out own [] (task.id :: ends) e ∧
        Around.of e x.store = around)
      fun x hx => ⟨x.encoder, rfl, hx.ledger, hx.around⟩) fun _ =>
      .bind (.modifyEncoder (Q := fun _ => InOrder around said out own [] (task.id :: ends)) ?_)
        fun _ => .pure fun x hx => hx
    rintro x ⟨e, he, L, haround⟩
    refine ⟨?_, he ▸ haround⟩
    rw [he]
    exact (L.pushItem hitem fun n hn => L.provides n (.inr (.inr hn))).weaken fun n hn => .inl hn
  have fail : ∀ r : Rejection, Ensures (InOrder around said out own [] (task.id :: ends))
      (finish (.error r)) fun _ => InOrder around said out own [] (task.id :: ends) :=
        fun r => .pure fun x hx => hx
  split
  · rw [pure_bind]
    exact (push _ rfl).pre fun x hx => ⟨hx.ledger.weaken fun n hn =>
      hn.elim (fun h => h) False.elim, hx.around⟩
  · rw [pure_bind]
    exact (push _ rfl).pre fun x hx => ⟨hx.ledger.weaken fun n hn =>
      hn.elim (fun h => h) False.elim, hx.around⟩
  · refine .bind (((upholds_books hrun).renders fuel).model (K := knows said) task.id "" _
      (by rintro _ ⟨⟩) own) fun r => ?_
    have forget : ∀ x : Encoding η, Books around out (task.id :: ends)
        (also (knows said) r) own [] x →
        InOrder around said out own [] (task.id :: ends) x := fun x hx =>
          ⟨hx.ledger.weaken fun _ => .inl, hx.around⟩
    split
    · rw [pure_bind]
      exact (push _ rfl).pre fun x hx => ⟨hx.ledger.weaken fun n hn => hn.imp_right fun hn =>
        .inl ⟨_, rfl, n, hn, rfl⟩, hx.around⟩
    · rw [pure_bind]
      exact (fail _).pre forget
    · refine .bind .store fun s => ?_
      rw [pure_bind]
      exact (fail _).pre fun x hx => forget x hx.1

theorem emitEnd_ensures (id : Nat) (reason : Rejection) :
    Ensures (InOrder (η := η) around said out own [] (id :: ends)) (EncodeM.emitRejection id reason)
      fun _ => InOrder around said out own [] ends :=
  .onBoth fun x hx => ⟨hx.ledger.emitEnd x.store reason,
    (Around.of_emitRejection x.encoder x.store id reason).trans hx.around⟩

/-- Writing the events of a stream that was taken out ends it or gives it back. -/
theorem writeEvents_ensures (hrun : Quiet run) (fuel : Nat) {task : Task}
    (htask : ∃ c, task.model = .cell c) (source : CellId) :
    Ensures (InOrder around said out own [] (task.id :: ends)) (writeEvents run fuel task source)
      fun _ => InOrder around said out own [] ends := by
  induction fuel with
  | zero => exact .exhausted
  | succ fuel ih =>
    unfold writeEvents
    refine .bind (.onStore (Q := fun _ => InOrder around said out own [] (task.id :: ends))
      fun x hx => hx.onStore (Store.sinks_next x.store source)) fun event => ?_
    split
    · exact .modifyEncoder fun x hx => ⟨hx.ledger.keepStream htask, hx.around⟩
    · refine .bind (emitItem_ensures hrun fuel task _) fun r => ?_
      split
      · exact ih
      · exact .bind (emitEnd_ensures task.id _) fun _ => modifyStore_ensures fun s =>
          Store.sinks_cancel s source _
    · exact .modifyEncoder fun x hx => ⟨hx.ledger.finish (.inl rfl) rfl fun _ h =>
        h.elim, hx.around⟩
    · refine .bind (((upholds_books hrun).renders fuel).outline (K := knows said) _ own) fun row =>
        .modifyEncoder fun x hx => ?_
      refine ⟨(hx.ledger.finish (.inl rfl) rfl fun n hn => ?_).weaken fun _ => .inl, hx.around⟩
      exact hx.ledger.provides n (.inr (.inr (congrArg _ (Ledger.eq_of_mentions_rowJson hn))))
    · exact emitEnd_ensures task.id _

theorem takeTask_ensures (id : Nat) :
    Ensures (InOrder (η := η) around said out own [] ends) (onEncoder (·.takeTask id)) fun r x =>
      match r with
      | some task => task.id = id ∧ task.status = .pending ∧
        InOrder around said out (task.id :: own) [] ends x
      | none => InOrder around said out own [] ends x := by
  refine .onEncoder fun x hx => ?_
  have haround := (Around.of_takeTask x.encoder x.store id).trans hx.around
  cases h : x.encoder.takeTask id with
  | mk r e =>
    rw [h] at haround
    cases r with
    | some task =>
      obtain ⟨hid, hready, L⟩ := hx.ledger.takeTask h
      exact ⟨hid, hready, hid ▸ L, haround⟩
    | none => exact ⟨(Ledger.takeTask_none h).1 ▸ hx.ledger, haround⟩

theorem takeStream_ensures (id : Nat) :
    Ensures (InOrder (η := η) around said out own [] ends) (onEncoder (·.takeStream id)) fun r x =>
      match r with
      | some task => (∃ c, task.model = .cell c) ∧ InOrder around said out own []
        (task.id :: ends) x
      | none => InOrder around said out own [] ends x := by
  refine .onEncoder fun x hx => ?_
  have haround := (Around.of_takeStream x.encoder x.store id).trans hx.around
  cases h : x.encoder.takeStream id with
  | mk r e =>
    rw [h] at haround
    cases r with
    | some task =>
      obtain ⟨hid, hmodel, L⟩ := hx.ledger.takeStream h
      exact ⟨hmodel, hid ▸ L, haround⟩
    | none => exact ⟨Ledger.takeStream_none h ▸ hx.ledger, haround⟩

/-- **Acting on a message keeps the books**, whatever the message is. -/
theorem handle_ensures (hrun : Quiet run) (fuel : Nat) (ping : Ping) :
    Ensures (InOrder around said out own [] ends) (handle run fuel ping) fun _ =>
      InOrder around said out own [] ends := by
  cases ping with
  | retry id =>
    refine .bind (takeTask_ensures id) fun r => ?_
    cases r with
    | some task =>
      exact fun x a y hx => Keeps.books
        (((upholds_books hrun).renders fuel).task task hx.2.1 fun _ _ => trivial) x a y hx.2.2
    | none => exact .pure fun x hx => hx
  | fulfilled id v =>
    refine .bind (takeTask_ensures id) fun r => ?_
    cases r with
    | some task =>
      exact fun x a y hx => Keeps.books (((upholds_books hrun).renders fuel).task
        { task with model := v } hx.2.1 fun _ _ => trivial) x a y hx.2.2
    | none => exact .pure fun x hx => hx
  | rejected id reason =>
    refine .bind (takeTask_ensures id) fun r => ?_
    cases r with
    | some task =>
      exact (Keeps.books ((upholds_books hrun).drop ((upholds_books hrun).reject id reason))).pre
        fun x hx => hx.1 ▸ hx.2.2
    | none => exact .pure fun x hx => hx
  | stream id =>
    refine .bind (takeStream_ensures id) fun r => ?_
    cases r with
    | some task =>
      refine fun x a y hx hy => ?_
      obtain ⟨⟨source, hsource⟩, hx⟩ := hx
      simp only [hsource] at hy
      exact writeEvents_ensures hrun fuel ⟨source, hsource⟩ source x a y hx hy
    | none => exact .pure fun x hx => hx

/-- **Acting on all messages keeps the books.** -/
theorem handleAll_ensures (hrun : Quiet run) (fuel : Nat) :
    Ensures (InOrder around said out own [] ends) (handleAll run fuel) fun _ =>
      InOrder around said out own [] ends := by
  induction fuel with
  | zero => exact .exhausted
  | succ fuel ih =>
    unfold handleAll
    refine .bind .encoder fun e => .bind (.onStore
      (Q := fun _ => InOrder around said out own [] ends)
      fun x hx => hx.1.onStore (Store.sinks_receive x.store e.mailbox)) fun r => ?_
    cases r with
    | none => exact .pure fun x hx => hx
    | some ping => exact .bind (handle_ensures hrun fuel ping) fun _ => ih

end Messages

end Render

end GraphRows
