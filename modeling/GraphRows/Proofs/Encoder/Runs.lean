import GraphRows.Proofs.Encoder.Output

/-!
# Runs of an encoder

An encoder is driven from outside: it is let to work, given a sink, asked for more, offered hints,
aborted; between these calls promises settle, streams are pushed, and someone reads what the sink
holds. A run is any sequence of such steps. The steps from outside are described by the one thing
that matters here, that they leave the sink of the encoder to the encoder; nothing is said about
what they do to values, mailboxes or other encoders.

`taken` is what was read from the sink, so what the sink was ever given is `taken` followed by what
it holds.

## Main results

* `Flows.step`, `Reached.flows`: the sink was given the text of rows whose books are in order
* `Reached.selfContained`: once the sink is closed, those rows stand on their own
-/

namespace GraphRows

variable {around : Around} {e : Encoder} {out : List Row}

/-- An encoder with its surroundings, and what was taken out of its sink so far. -/
structure Stage (η : Type) extends Encoding η where
  taken : Bytes := []

namespace Stage

variable {η : Type}

/-- What the sink `i` was ever given. -/
def given (x : Stage η) (i : Nat) : Bytes := x.taken ++ (x.store.sink i).bytes

/-- One step of a run of an encoder with the sink `i`. -/
inductive Step (run : Force η) (i : Nat) (x : Stage η) : Stage η → Prop
  | work {fuel : Nat} {r : Except Fault Unit} {e : Encoder} {s : Store} {host : η}
      (h : x.encoder.work run fuel x.store x.host = some (r, e, s, host)) :
        Step run i x ⟨⟨e, s, host⟩, x.taken⟩
  | start {e : Encoder} {s : Store} (h : x.encoder.startFlowing x.store i = .ok (e, s)) :
      Step run i x ⟨⟨e, s, x.host⟩, x.taken⟩
  | pull : Step run i x ⟨⟨(x.encoder.pull x.store).1, (x.encoder.pull x.store).2, x.host⟩, x.taken⟩
  | hint (h : Hint) :
      Step run i x
        ⟨⟨(x.encoder.hint x.store h).2.1, (x.encoder.hint x.store h).2.2, x.host⟩, x.taken⟩
  | abort (reason : Option Rejection) :
      Step run i x ⟨⟨(x.encoder.abort x.store reason).1, (x.encoder.abort x.store reason).2,
        x.host⟩, x.taken⟩
  | outside {s : Store} {host : η} (h : s.sinks[i]? = x.store.sinks[i]?) :
      Step run i x ⟨⟨x.encoder, s, host⟩, x.taken⟩
  | take : Step run i x ⟨⟨x.encoder, x.store.setSink i (x.store.sink i).pop.2, x.host⟩,
      x.taken ++ (x.store.sink i).pop.1.getD []⟩

/-- A stage that a new encoder of `model` can reach when it is given a new sink. -/
inductive Reached (run : Force η) (i : Nat) (model : Value) : Stage η → Prop
  | create {s : Store} {sink : Sink} {manifest : Manifest} {options : EncoderOptions} {host : η}
      (hsink : s.sinks[i]? = some sink) (hnew : sink.chunks = [] ∧ sink.closes = 0) :
      Reached run i model ⟨⟨(Encoder.create s model manifest options).1,
        (Encoder.create s model manifest options).2, host⟩, []⟩
  | step {x y : Stage η} (hx : Reached run i model x) (h : Step run i x y) : Reached run i model y

end Stage

namespace Encoder

/-- What an abort does before it sends anything. -/
def answerAll (e : Encoder) (s : Store) (reason : Option Rejection) : Encoder × Store :=
  let (e, s) := { e with status := .aborting }.abortTasks s (reason.getD .aborted)
  let (e, s) := e.abortStreams s (reason.getD .aborted)
  (e, s.clearMailbox e.mailbox)

theorem abort_eq {s : Store} {reason : Option Rejection} (hopen : e.status ≠ .closed) :
    e.abort s reason = if (e.answerAll s reason).1.sink.isSome then
      (e.answerAll s reason).1.flush (e.answerAll s reason).2 else e.answerAll s reason := by
  rw [abort, if_neg (by simpa using hopen)]
  rfl

/-! ### What a call does: something of its own, and a flush perhaps -/

section Calls

variable {P : Encoder → Store → Prop} {e' : Encoder} {s s' : Store} {i : Nat}

theorem startFlowing_elim (h : e.startFlowing s i = .ok (e', s'))
    (hrest : e.status = .closed → P e s)
    (hflush : e.sink = none → e.status ≠ .closed →
      P ({ e with sink := some i, flowing := true }.flush s).1
      ({ e with sink := some i, flowing := true }.flush s).2) : P e' s' := by
  unfold startFlowing at h
  split at h
  · cases h
  rename_i hnone
  split at h
  · rename_i hclosed
    obtain ⟨rfl, rfl⟩ := Prod.mk.inj (Except.ok.inj h)
    exact hrest (by simpa using hclosed)
  · rename_i hopen
    have := hflush (by simpa using hnone) (by simpa using hopen)
    rwa [Except.ok.inj h] at this

theorem pull_elim (hrest : P e s)
    (hflush : e.status ≠ .closed → P ({ e with flowing := true }.flush s).1
      ({ e with flowing := true }.flush s).2) : P (e.pull s).1 (e.pull s).2 := by
  unfold pull
  split
  · rename_i hpull
    simp only [Bool.and_eq_true, bne_iff_ne] at hpull
    exact hflush hpull.2
  · exact hrest

theorem hint_elim {h : Hint} (hqueued : P (e.queueHint h).2 s)
    (hflush : (e.queueHint h).1 = true → (e.queueHint h).2.flowing =
      true → P ((e.queueHint h).2.flush s).1 ((e.queueHint h).2.flush s).2) :
    P (e.hint s h).2.1 (e.hint s h).2.2 := by
  unfold hint
  generalize e.queueHint h = p at hqueued hflush
  obtain ⟨_ | _, e'⟩ := p
  · exact hqueued
  · dsimp only
    split
    · exact hflush rfl ‹_›
    · exact hqueued

theorem abort_elim {reason : Option Rejection} (hrest : e.status = .closed → P e s)
    (hanswered : e.status ≠ .closed → P (e.answerAll s reason).1 (e.answerAll s reason).2)
    (hflush : e.status ≠ .closed → P ((e.answerAll s reason).1.flush (e.answerAll s reason).2).1
      ((e.answerAll s reason).1.flush (e.answerAll s reason).2).2) :
    P (e.abort s reason).1 (e.abort s reason).2 := by
  by_cases hopen : e.status = .closed
  · rw [abort, if_pos (by simp [hopen])]
    exact hrest hopen
  · rw [abort_eq hopen]
    split
    · exact hflush hopen
    · exact hanswered hopen

end Calls

theorem work_eq_some {η : Type} {run : Force η} {fuel : Nat} {s s' : Store} {host host' : η}
    {r : Except Fault Unit} {e' : Encoder} (h : e.work run fuel s host = some (r, e', s', host')) :
    Render.work run fuel ⟨e, s, host⟩ = some (r, ⟨e', s', host'⟩) := by
  obtain ⟨⟨r', z⟩, hwork, heq⟩ := Option.map_eq_some_iff.mp h
  cases heq
  exact hwork

end Encoder

/-- Working is acting on all messages, and then a flush if the sink wants more. -/
theorem Render.work_elim {η : Type} {run : Force η} {fuel : Nat} {r : Except Fault Unit}
    {x z : Encoding η} {P : Encoding η → Prop} (h : Render.work run fuel x = some (r, z))
    (hrest : r ≠ .ok () → P x)
    (hquiet : ∀ s y, x.store.takeSlot x.encoder.slot =
      .ok s → handleAll run fuel { x with store := s } = some ((), y) → y.encoder.flowing ≠ true →
      P { y with store := y.store.freeSlot x.encoder.slot })
    (hflush : ∀ s y, x.store.takeSlot x.encoder.slot =
      .ok s → handleAll run fuel { x with store := s } = some ((), y) → y.encoder.flowing = true →
      P ⟨(y.encoder.flush y.store).1, (y.encoder.flush y.store).2.freeSlot x.encoder.slot,
      y.host⟩) : P z := by
  unfold Render.work at h
  obtain ⟨e₀, x₁, h₁, h⟩ := EncodeM.bind_eq_some.mp h
  obtain ⟨rfl, rfl⟩ := Prod.mk.inj (Option.some.inj h₁)
  obtain ⟨s₁, x₂, h₂, h⟩ := EncodeM.bind_eq_some.mp h
  obtain ⟨rfl, rfl⟩ := Prod.mk.inj (Option.some.inj h₂)
  rcases hslot : x.store.takeSlot x.encoder.slot with f | s
  · simp only [hslot] at h
    obtain ⟨rfl, rfl⟩ := Prod.mk.inj (Option.some.inj h)
    exact hrest (by rintro ⟨⟩)
  · simp only [hslot] at h
    obtain ⟨_, x₃, h₃, h⟩ := EncodeM.bind_eq_some.mp h
    obtain ⟨-, rfl⟩ := Prod.mk.inj (Option.some.inj h₃)
    obtain ⟨_, y, hhandle, h⟩ := EncodeM.bind_eq_some.mp h
    obtain ⟨_, z', hflushed, h⟩ := EncodeM.bind_eq_some.mp h
    obtain ⟨_, z'', hfree, h⟩ := EncodeM.bind_eq_some.mp h
    obtain ⟨-, rfl⟩ := Prod.mk.inj (Option.some.inj hfree)
    obtain ⟨-, rfl⟩ := Prod.mk.inj (Option.some.inj h)
    unfold Render.flushIfFlowing at hflushed
    obtain ⟨e₁, y', h₄, hflushed⟩ := EncodeM.bind_eq_some.mp hflushed
    obtain ⟨rfl, rfl⟩ := Prod.mk.inj (Option.some.inj h₄)
    split at hflushed
    · obtain ⟨-, rfl⟩ := Prod.mk.inj (Option.some.inj hflushed)
      exact hflush s y hslot hhandle ‹_›
    · obtain ⟨-, rfl⟩ := Prod.mk.inj (Option.some.inj hflushed)
      exact hquiet s y hslot hhandle ‹_›

/-! ### Sinks -/

namespace Store

variable {s : Store} {i : Nat} {k : Sink}

theorem sink_eq (hk : s.sinks[i]? = some k) : s.sink i = k := by rw [sink, hk, Option.getD_some]

theorem sinks_setSink (hk : s.sinks[i]? = some k) (sink : Sink) :
    (s.setSink i sink).sinks[i]? = some sink := by
  obtain ⟨hi, -⟩ := Array.getElem?_eq_some_iff.mp hk
  simp [setSink, hi]

end Store

/-- Nothing is spoken of elsewhere. -/
abbrev Ledger.Closed (out : List Row) (e : Encoder) : Prop := Ledger (fun _ => False) out [] [] [] e

/-- How an encoder stands to its sink `i`: it has none yet, it writes to it, or it has closed it. In
each case the sink was given the text of the rows that went out, and the books are in order. It is
closed when nothing is pending and no hint waits. -/
inductive Flows (i : Nat) (taken : Bytes) (e : Encoder) (s : Store) : Prop
  | waiting (hstatus : e.status ≠ .closed) (hsink : e.sink = none) (hbatch : e.batch.view = [])
      (L : Ledger.Closed [] e) (k : Sink) (hk : s.sinks[i]? = some k)
        (hgiven : taken ++ k.bytes = [])
      (hcloses : k.closes = 0)
  | flowing (hstatus : e.status ≠ .closed) (hsink : e.sink = some i) (hbatch : e.batch.view = [])
      (out : List Row) (L : Ledger.Closed out e) (k : Sink) (hk : s.sinks[i]? = some k)
      (hgiven : taken ++ k.bytes = out.flatMap Row.encode) (hcloses : k.closes = 0)
  | ended (hstatus : e.status = .closed) (hsink : e.sink = none) (out : List Row)
      (L : Ledger.Closed out e)
      (hidle : e.pending = 0 ∧ e.hints = []) (k : Sink) (hk : s.sinks[i]? = some k)
      (hgiven : taken ++ k.bytes = out.flatMap Row.encode) (hcloses : k.closes = 1)

namespace Flows

open Encoder

variable {i : Nat} {taken : Bytes} {e e' : Encoder} {s s' : Store}

theorem exists_books (h : Flows i taken e s) :
    ∃ out k, Ledger.Closed out e ∧ s.sinks[i]? = some k := by
  cases h with
  | waiting _ _ _ L k hk => exact ⟨_, k, L, hk⟩
  | flowing _ _ _ out L k hk => exact ⟨out, k, L, hk⟩
  | ended _ _ out L _ k hk => exact ⟨out, k, L, hk⟩

/-! ### Flushing -/

/-- **A flush in the middle of a run**: the sink goes on, or it is closed behind rows that stand on
their own. -/
theorem flush (hstatus : e.status ≠ .closed) (hsink : e.sink = some i) (hbatch : e.batch.view = [])
    {out : List Row} (L : Ledger.Closed out e) {k : Sink} (hk : s.sinks[i]? = some k)
    (hgiven : taken ++ k.bytes = out.flatMap Row.encode) (hcloses : k.closes = 0) :
    Flows i taken (e.flush s).1 (e.flush s).2 := by
  obtain ⟨a, b, c, d, sink, hsent, hsettled, hbytes, hsinkCloses, -⟩ := exists_flush hsink s
  rw [Store.sink_eq hk] at hbytes hsinkCloses
  rw [hbatch, List.append_nil] at hbytes
  have hgiven' : taken ++ sink.bytes = (out ++ (a ++ b ++ c ++ d)).flatMap Row.encode := by
    rw [hbytes, ← List.append_assoc, hgiven, ← List.flatMap_append]
  have L' : Ledger.Closed _ (e.flush s).1 := L.send hsent
  by_cases hdone : (e.flush s).1.pending = 0 ∧ (e.flush s).1.hints = []
  · obtain ⟨hclosed, hnone, hstore⟩ := hsettled.closed hdone.1 hdone.2 hstatus
    exact .ended hclosed hnone _ L' hdone sink.close (hstore ▸ Store.sinks_setSink hk _) hgiven'
      (by rw [Sink.close, hsinkCloses, hcloses])
  · obtain ⟨hkept, hsome, hstore⟩ := hsettled.kept fun h => hdone ⟨h.1, h.2.1⟩
    exact .flowing (hkept ▸ hstatus) hsome hsettled.batch _ L' sink
      (hstore ▸ Store.sinks_setSink hk _) hgiven' (hsinkCloses.trans hcloses)

/-- An encoder without a sink flushes nothing. -/
theorem flush_of_none (h : e.sink = none) : e.flush s = (e, s) := by
  unfold Encoder.flush
  rw [h]

theorem flush_any (h : Flows i taken e s) : Flows i taken (e.flush s).1 (e.flush s).2 := by
  cases h with
  | waiting hstatus hsink hbatch L k hk hgiven hcloses =>
    rw [flush_of_none hsink]
    exact .waiting hstatus hsink hbatch L k hk hgiven hcloses
  | flowing hstatus hsink hbatch out L k hk hgiven hcloses =>
    exact flush hstatus hsink hbatch L hk hgiven hcloses
  | ended hstatus hsink out L hidle k hk hgiven hcloses =>
    rw [flush_of_none hsink]
    exact .ended hstatus hsink out L hidle k hk hgiven hcloses

/-- The books may change as long as what is around the encoder stays, and those of a closed encoder
do not change. -/
theorem congr (h : Flows i taken e s) (hsinks : s'.sinks[i]? = s.sinks[i]?)
    (hstatus : e'.status = e.status) (hsink : e'.sink = e.sink) (hbatch : e'.batch = e.batch)
    (hL : ∀ out, Ledger.Closed out e → Ledger.Closed out e')
    (hidle : e.status = .closed → e.pending = 0 ∧ e.hints = [] → e'.pending = 0 ∧ e'.hints = []) :
    Flows i taken e' s' := by
  cases h with
  | waiting h₁ h₂ h₃ L k hk h₄ h₅ =>
    exact .waiting (hstatus ▸ h₁) (hsink ▸ h₂) (hbatch ▸ h₃) (hL _ L) k (hsinks ▸ hk) h₄ h₅
  | flowing h₁ h₂ h₃ out L k hk h₄ h₅ =>
    exact .flowing (hstatus ▸ h₁) (hsink ▸ h₂) (hbatch ▸ h₃) out (hL _ L) k (hsinks ▸ hk) h₄ h₅
  | ended h₁ h₂ out L h₃ k hk h₄ h₅ =>
    exact .ended (hstatus ▸ h₁) (hsink ▸ h₂) out (hL _ L) (hidle h₁ h₃) k (hsinks ▸ hk) h₄ h₅

theorem of_around (h : Flows i taken e s) (haround : Around.of e' s' = Around.of e s)
    (hL : ∀ out, Ledger.Closed out e → Ledger.Closed out e')
    (hidle : e.status = .closed → e.pending = 0 ∧ e.hints = [] → e'.pending = 0 ∧ e'.hints = []) :
    Flows i taken e' s' := by
  obtain ⟨hsinks, hstatus, hsink, hbatch, -⟩ := Around.mk.inj haround
  exact h.congr (by rw [hsinks]) hstatus hsink hbatch hL hidle

/-! ### Aborting -/

/-- The books are in order, whatever is spoken of elsewhere, and what is around the encoder is as it
was. -/
def Upheld (around : Around) (said : Nat → Prop) (out : List Row) (ends : List Nat) (e : Encoder)
    (s : Store) : Prop :=
  Ledger said out [] [] ends e ∧ Around.of e s = around

/-- One of the tasks an abort answers for is answered for. The encoder has forgotten which tasks
those are; in the books it has not until they are done with. -/
theorem answerTask {fatal id : Nat} {rest : List Nat}
    (h : Upheld around (fun n => n = fatal) out [] { e with abortable := id :: rest } s)
    (hforgot : e.abortable = []) :
    let e' := match e.takeTask id with
      | (some _, e) => e.pushModel .errors id (rowJson fatal)
      | (none, e) => e
    Upheld around (fun n => n = fatal) out [] { e' with abortable := rest } s ∧
      e'.abortable = [] := by
  have hmem : id ∈ e.taskIds := h.1.abortable.mem_iff.mp List.mem_cons_self
  have hrest : id ∉ rest := (List.nodup_cons.mp (h.1.abortable.nodup_iff.mpr h.1.nodup_taskIds)).1
  rcases htake : e.takeTask id with ⟨_ | t, e'⟩
  · exact absurd hmem (Ledger.takeTask_none htake).2
  have hsame : { e with abortable := id :: rest }.takeTask id =
      (some t, { e' with abortable := id :: rest }) ∧
      e'.abortable = [] ∧ Around.of e' s = Around.of e s := by
    unfold Encoder.takeTask at htake ⊢
    dsimp only
    split at htake
    · obtain ⟨rfl, rfl⟩ : _ = t ∧ _ = e' := by simpa using htake
      exact ⟨rfl, hforgot, rfl⟩
    · simp at htake
  have hdropped : (id :: rest).filter (· != id) = rest := by
    simpa [List.filter_eq_self] using fun n hn => by rintro rfl; exact hrest hn
  have L := ((h.1.takeTask hsame.1).2.2.release).pushModel .errors (by decide) fun n hn =>
    ((h.1.takeTask hsame.1).2.2.release).provides n (.inr (Ledger.eq_of_mentions_rowJson hn))
  rw [dropAbortable] at L
  dsimp only at L ⊢
  rw [hdropped] at L
  exact ⟨⟨L, hsame.2.2.trans h.2⟩, hsame.2.1⟩

theorem answerTasks {fatal : Nat} (ids : List Nat)
    (h : Upheld around (fun n => n = fatal) out [] { e with abortable := ids } s)
    (hforgot : e.abortable = []) :
    Upheld around (fun n => n = fatal) out []
      (ids.foldl (fun e id =>
        match e.takeTask id with
        | (some _, e) => e.pushModel .errors id (rowJson fatal)
        | (none, e) => e) e) s := by
  induction ids generalizing e with
  | nil =>
    have hsame : { e with abortable := [] } = e := by rw [← hforgot]
    exact hsame ▸ h
  | cons id ids ih =>
    obtain ⟨h', hforgot'⟩ := answerTask h hforgot
    exact ih h' hforgot'

theorem abortTasks (h : Upheld around (fun _ => False) out [] e s) (reason : Rejection) :
    Upheld around (fun _ => False) out [] (e.abortTasks s reason).1 (e.abortTasks s reason).2 := by
  unfold Encoder.abortTasks
  split
  · exact h
  -- the reason gets a row of its own, so every task may refer to it
  rcases hfatal : e.allocateRow with ⟨fatal, e₁⟩
  have L₁ : Ledger (fun n => n = fatal) out [] [fatal] [] e₁ := by
    have L := h.1.allocateRow
    rw [hfatal] at L
    exact L.imp fun n hn => .inr (.inr (.inr (by simp [hn])))
  have haround₁ : Around.of e₁ s = around := by
    have : Around.of e.allocateRow.2 s = around := h.2
    rwa [hfatal] at this
  dsimp only
  generalize hrejection : { e₁ with fatal := some fatal }.emitRejection s fatal reason = x
  obtain ⟨e₂, s₂⟩ := x
  have h₂ : Upheld around (fun n => n = fatal) out [] e₂ s₂ := by
    have L₂ := (L₁.setFatal fatal (.inr (.inr List.mem_cons_self))).emitRejection s reason
    have haround₂ := (Around.of_emitRejection { e₁ with fatal := some fatal } s fatal reason).trans
      haround₁
    rw [hrejection] at L₂ haround₂
    exact ⟨L₂, haround₂⟩
  have h₃ := answerTasks (e := { e₂ with abortable := [] }) e₂.abortable h₂ rfl
  exact ⟨h₃.1.weaken fun _ h => h.elim, h₃.2⟩

/-- Streams are ended one by one. -/
theorem foldl_ends {f : Encoder × Store → Task → Encoder × Store}
    (hf : ∀ x task ends, Upheld around (fun _ => False) out (task.id :: ends) x.1 x.2 →
      Upheld around (fun _ => False) out ends (f x task).1 (f x task).2)
    (streams : List Task) {x : Encoder × Store}
    (h : Upheld around (fun _ => False) out (streams.map (·.id)) x.1 x.2) :
    Upheld around (fun _ => False) out [] (streams.foldl f x).1 (streams.foldl f x).2 := by
  induction streams generalizing x with
  | nil => exact h
  | cons task streams ih => exact ih (hf x task _ h)

theorem abortStreams (h : Upheld around (fun _ => False) out [] e s) (reason : Rejection) :
    Upheld around (fun _ => False) out [] (e.abortStreams s reason).1
      (e.abortStreams s reason).2 := by
  unfold Encoder.abortStreams
  refine foldl_ends (fun x task ends hx => ?_) e.streams ⟨h.1.takeStreams, h.2⟩
  obtain ⟨e, s⟩ := x
  generalize (if reason.isPostpone = true then Rejection.abortedByPostpone else reason) = reason
  have haround := (Around.of_emitRejection e s task.id reason).trans hx.2
  have L := hx.1.emitEnd s reason
  dsimp only
  split
  · refine ⟨L, ?_⟩
    rw [← haround, Around.of, Around.of, Store.sinks_cancel]
  · exact ⟨L, haround⟩

/-- What is around the encoder when everything outstanding was answered for, and nothing was
sent. -/
theorem answerAll_upheld (L : Ledger.Closed out e) (reason : Option Rejection) :
    Upheld (Around.of { e with status := .aborting } s) (fun _ => False) out []
      (e.answerAll s reason).1 (e.answerAll s reason).2 :=
  abortStreams (abortTasks ⟨L.congr {}, rfl⟩ (reason.getD .aborted)) (reason.getD .aborted)

/-- **Everything outstanding is answered for** before anything is sent. -/
theorem answerAll (h : Flows i taken e s) (hopen : e.status ≠ .closed) (reason : Option Rejection) :
    (e.answerAll s reason).1.status ≠ .closed ∧
      Flows i taken (e.answerAll s reason).1 (e.answerAll s reason).2 := by
  have moved : ∀ out, Ledger.Closed out e → Ledger.Closed out (e.answerAll s reason).1 ∧
      (e.answerAll s reason).2.sinks = s.sinks ∧ (e.answerAll s reason).1.status = .aborting ∧
      (e.answerAll s reason).1.sink = e.sink ∧ (e.answerAll s reason).1.batch = e.batch :=
        fun out L => by
    obtain ⟨L', haround⟩ := answerAll_upheld L reason
    obtain ⟨hsinks, hstatus, hsink, hbatch, -⟩ := Around.mk.inj haround
    exact ⟨L', hsinks, hstatus, hsink, hbatch⟩
  generalize e.answerAll s reason = x at moved ⊢
  obtain ⟨e', s'⟩ := x
  dsimp only at moved ⊢
  cases h with
  | waiting _ h₂ h₃ L k hk h₄ h₅ =>
    obtain ⟨L', hsinks, hstatus, hsink, hbatch⟩ := moved _ L
    have hopen' : e'.status ≠ .closed := by simp [hstatus]
    exact ⟨hopen', .waiting hopen' (hsink ▸ h₂) (hbatch ▸ h₃) L' k (hsinks ▸ hk) h₄ h₅⟩
  | flowing _ h₂ h₃ out L k hk h₄ h₅ =>
    obtain ⟨L', hsinks, hstatus, hsink, hbatch⟩ := moved _ L
    have hopen' : e'.status ≠ .closed := by simp [hstatus]
    exact ⟨hopen', .flowing hopen' (hsink ▸ h₂) (hbatch ▸ h₃) out L' k (hsinks ▸ hk) h₄ h₅⟩
  | ended h₁ => exact absurd h₁ hopen

theorem abort (h : Flows i taken e s) (reason : Option Rejection) :
    Flows i taken (e.abort s reason).1 (e.abort s reason).2 :=
  abort_elim (fun _ => h) (fun hopen => (h.answerAll hopen reason).2) fun hopen =>
    (h.answerAll hopen reason).2.flush_any

/-! ### The other calls -/

/-- An encoder that is given the sink. -/
theorem attach (h : Flows i taken e s) (hnone : e.sink = none) (hopen : e.status ≠ .closed) :
    Flows i taken { e with sink := some i, flowing := true } s := by
  cases h with
  | waiting h₁ _ h₃ L k hk h₄ h₅ => exact .flowing h₁ rfl h₃ [] (L.congr {}) k hk h₄ h₅
  | flowing _ h₂ => simp [h₂] at hnone
  | ended h₁ => exact absurd h₁ hopen

theorem startFlowing (h : Flows i taken e s) (hstart : e.startFlowing s i = .ok (e', s')) :
    Flows i taken e' s' :=
  startFlowing_elim hstart (fun _ => h) fun hnone hopen => (h.attach hnone hopen).flush_any

theorem wanting (h : Flows i taken e s) : Flows i taken { e with flowing := true } s :=
  h.congr rfl rfl rfl rfl (fun _ L => L.congr {}) fun _ h => h

theorem pull (h : Flows i taken e s) : Flows i taken (e.pull s).1 (e.pull s).2 :=
  pull_elim h fun _ => h.wanting.flush_any

theorem queueHint (h : Flows i taken e s) (offer : Hint) : Flows i taken (e.queueHint offer).2 s :=
  h.of_around (Around.of_queueHint e s offer) (fun out L => L.queueHint offer)
      fun hclosed hidle => by
    rwa [Encoder.queueHint, if_pos (by simp [hclosed])]

theorem hint (h : Flows i taken e s) (offer : Hint) :
    Flows i taken (e.hint s offer).2.1 (e.hint s offer).2.2 :=
  hint_elim (h.queueHint offer) fun _ _ => (h.queueHint offer).flush_any

/-- Taking a chunk out of the sink changes who has it. -/
theorem popped {k : Sink} (hk : s.sinks[i]? = some k) (taken : Bytes) :
    ∃ k', (s.setSink i (s.sink i).pop.2).sinks[i]? = some k' ∧
      (taken ++ (s.sink i).pop.1.getD []) ++ k'.bytes = taken ++ k.bytes ∧
        k'.closes = k.closes := by
  refine ⟨k.pop.2, ?_, ?_, ?_⟩
  · rw [Store.sinks_setSink hk, Store.sink_eq hk]
  · rw [Store.sink_eq hk, List.append_assoc]
    unfold Sink.pop Sink.bytes
    split <;> simp_all
  · unfold Sink.pop
    split <;> rfl

theorem take (h : Flows i taken e s) :
    Flows i (taken ++ (s.sink i).pop.1.getD []) e (s.setSink i (s.sink i).pop.2) := by
  cases h with
  | waiting h₁ h₂ h₃ L k hk h₄ h₅ =>
    obtain ⟨k', hk', hgiven, hcloses⟩ := popped hk taken
    exact .waiting h₁ h₂ h₃ L k' hk' (hgiven.trans h₄) (hcloses.trans h₅)
  | flowing h₁ h₂ h₃ out L k hk h₄ h₅ =>
    obtain ⟨k', hk', hgiven, hcloses⟩ := popped hk taken
    exact .flowing h₁ h₂ h₃ out L k' hk' (hgiven.trans h₄) (hcloses.trans h₅)
  | ended h₁ h₂ out L hidle k hk h₄ h₅ =>
    obtain ⟨k', hk', hgiven, hcloses⟩ := popped hk taken
    exact .ended h₁ h₂ out L hidle k' hk' (hgiven.trans h₄) (hcloses.trans h₅)

/-! ### Working -/

section Work

open EncodeM

variable {η : Type} {run : Force η}

/-- An encoder that keeps no task and no stream is not moved by a message, and neither is its
host. -/
theorem handle_idle (htasks : e.tasks = []) (hstreams : e.streams = []) (host : η) (fuel : Nat)
    (ping : Ping) :
    Ensures (fun x => x.encoder = e ∧ x.host = host) (Render.handle run fuel ping) fun _ x =>
      x.encoder = e ∧ x.host = host := by
  have untaken : ∀ id, e.takeTask id = (none, e) ∧ e.takeStream id = (none, e) := fun id => by
    simp [Encoder.takeTask, Encoder.takeStream, htasks, hstreams]
  have hnone : ∀ {α : Type} {f : Encoder → Option α × Encoder} {m : Option α → EncodeM η Unit},
      f e = (none, e) → m none = Pure.pure () → Ensures (fun x => x.encoder = e ∧ x.host = host)
        (onEncoder f >>= m) fun _ x => x.encoder = e ∧ x.host = host := by
    intro α f m hf hm
    refine .bind (.onEncoder (Q := fun r x => r = none ∧ x.encoder = e ∧ x.host = host)
      fun x hx => ?_) fun r => ?_
    · rw [hx.1, hf]
      exact ⟨rfl, rfl, hx.2⟩
    · intro x a y hx hy
      rw [hx.1, hm] at hy
      obtain ⟨-, rfl⟩ := Prod.mk.inj (Option.some.inj hy)
      exact hx.2
  cases ping with
  | retry id => exact hnone (untaken id).1 rfl
  | fulfilled id v => exact hnone (untaken id).1 rfl
  | rejected id reason => exact hnone (untaken id).1 rfl
  | stream id => exact hnone (untaken id).2 rfl

theorem handleAll_idle (htasks : e.tasks = []) (hstreams : e.streams = []) (host : η) (fuel : Nat) :
    Ensures (fun x => x.encoder = e ∧ x.host = host) (Render.handleAll run fuel) fun _ x =>
      x.encoder = e ∧ x.host = host := by
  induction fuel with
  | zero => exact .exhausted
  | succ fuel ih =>
    unfold Render.handleAll
    refine .bind .encoder fun e' => .bind (.onStore (Q := fun _ x => x.encoder = e ∧ x.host = host)
      fun x hx => hx.1) fun r => ?_
    cases r with
    | none => exact .pure fun x hx => hx
    | some ping => exact .bind (handle_idle htasks hstreams host fuel ping) fun _ => ih

/-- Acting on messages leaves what is around the encoder as it was. -/
theorem handleAll_around (hrun : Quiet run) {fuel : Nat} {x y : Encoding η} {a : Unit} {s : Store}
    (hx : Flows i taken x.encoder s) (hy : Render.handleAll run fuel x = some (a, y)) :
    Around.of y.encoder y.store = Around.of x.encoder x.store := by
  obtain ⟨out, -, L, -⟩ := hx.exists_books
  exact (Render.handleAll_ensures hrun fuel x a y ⟨L, rfl⟩ hy).around

theorem handleAll (hrun : Quiet run) (fuel : Nat) :
    Ensures (fun x => Flows i taken x.encoder x.store) (Render.handleAll run fuel)
      fun _ x => Flows i taken x.encoder x.store := by
  intro x a y hx hy
  have kept : ∀ out, Ledger.Closed out x.encoder → Ledger.Closed out y.encoder := fun out L =>
    (Render.handleAll_ensures hrun fuel x a y ⟨L, rfl⟩ hy).ledger
  refine hx.of_around (handleAll_around hrun hx hy) kept fun hclosed hidle => ?_
  cases hx with
  | waiting h => exact absurd hclosed h
  | flowing h => exact absurd hclosed h
  | ended _ _ out L =>
    obtain ⟨htasks, hstreams⟩ := (L.idle hidle.1).1
    rwa [(handleAll_idle htasks hstreams x.host fuel x a y ⟨rfl, rfl⟩ hy).1]

/-- The slot is nothing to the sink. -/
theorem slots (h : Flows i taken e s) (hsinks : s'.sinks = s.sinks) : Flows i taken e s' :=
  h.congr (by rw [hsinks]) rfl rfl rfl (fun _ L => L) fun _ h => h

theorem work (hrun : Quiet run) {fuel : Nat} {r : Except Fault Unit} {x z : Encoding η}
    (hx : Flows i taken x.encoder x.store) (h : Render.work run fuel x = some (r, z)) :
    Flows i taken z.encoder z.store := by
  have handled : ∀ {s y}, x.store.takeSlot x.encoder.slot = .ok s →
      Render.handleAll run fuel { x with store := s } = some ((), y) →
        Flows i taken y.encoder y.store :=
    fun {s y} hslot hy => handleAll hrun fuel { x with store := s } () y
      (hx.slots (Store.sinks_takeSlot hslot)) hy
  exact Render.work_elim (P := fun z => Flows i taken z.encoder z.store) h (fun _ => hx)
    (fun _ _ hslot hy _ => (handled hslot hy).slots rfl) fun _ _ hslot hy _ =>
    (handled hslot hy).flush_any.slots rfl

end Work

end Flows

namespace Stage

variable {η : Type} {run : Force η} {i : Nat} {model : Value} {x y : Stage η}

/-- The stage flows into its sink as it should. -/
def Sound (i : Nat) (x : Stage η) : Prop := Flows i x.taken x.encoder x.store

/-- **One step keeps a stage sound.** -/
theorem Sound.step (hrun : Quiet run) (hx : Sound i x) (h : Step run i x y) : Sound i y := by
  cases h with
  | work h => exact Flows.work hrun hx (Encoder.work_eq_some h)
  | start h => exact Flows.startFlowing hx h
  | pull => exact Flows.pull hx
  | hint offer => exact Flows.hint hx offer
  | abort reason => exact Flows.abort hx reason
  | outside h => exact Flows.congr hx h rfl rfl rfl (fun _ L => L) fun _ h => h
  | take => exact Flows.take hx

/-- The books of an encoder that has written nothing, except for the row with id zero that is always
spoken of. -/
theorem ledger_blank (hmemory : e.remembered = []) (htasks : e.tasks = [])
    (hstreams : e.streams = []) (habortable : e.abortable = []) (hrows : e.allRows [] = [])
    (hnext : e.refs.nextId = 1) (hpending : e.pending = 1) :
    Ledger (fun _ => False) [] [] [0] [] e := by
  have hqueues := hrows
  simp only [Encoder.allRows, List.append_eq_nil_iff] at hqueues
  obtain ⟨⟨⟨⟨-, himports⟩, hhints⟩, hregular⟩, herrors⟩ := hqueues
  refine ⟨⟨?_, ?_, fun id => ?_⟩, fun id hid => ?_, ?_, ?_, ?_, by simp [htasks], ?_⟩
  · simp [Encoder.debt, htasks, hstreams, himports, hregular, herrors, hpending]
  · simp [habortable, Encoder.taskIds, htasks]
  · have hnone : (e.standing [] [] [0] [] id).rows = [] := by simp [Encoder.standing, hrows]
    have hlive : (e.standing [] [] [0] [] id).live =
      0 := by simp [Encoder.standing, Encoder.streamIds, hstreams]
    rw [hnext]
    by_cases hid : id = 0
    · subst hid
      exact .owed Nat.one_pos hnone (by simp [Encoder.standing, Encoder.taskIds, htasks]) hlive
    · refine .unused (Nat.one_le_iff_ne_zero.mpr hid) hnone ?_ hlive
      simp [Encoder.standing, Encoder.taskIds, htasks, Ne.symm hid]
  · rcases hid with hid | hid
    · cases hid with
      | root => exact .inr (.inr List.mem_cons_self)
      | row hr => simp [hrows] at hr
      | memory hid => simp [hmemory] at hid
    · exact hid.elim
  · simp [hregular]
  · simp [himports, hhints, herrors]
  · simp [hstreams]
  · simp [hrows]

/-- The books of a new encoder: one task, for the row with id zero. -/
theorem ledger_create (hrefs : e.refs = {}) (hfatal : e.fatal = none) (htasks : e.tasks = [])
    (hstreams : e.streams = []) (habortable : e.abortable = []) (hrows : e.allRows [] = [])
    (hpending : e.pending = 0) (model : Value) :
    Ledger.Closed [] ((e.createTask model []).2.keepTask (e.createTask model []).1) := by
  have hid : e.allocateRow.1 = 0 := by simp [Encoder.allocateRow, Encoder.freshId, hrefs,
    RefTable.fresh]
  have L : Ledger (fun _ => False) [] [] [e.allocateRow.1] [] e.allocateRow.2 := by
    rw [hid]
    refine ledger_blank ?_ htasks hstreams habortable hrows ?_ ?_
    · simp [Encoder.remembered, Encoder.allocateRow, Encoder.freshId, hrefs, RefTable.fresh, hfatal]
    · simp [Encoder.allocateRow, Encoder.freshId, hrefs, RefTable.fresh]
    · simp [Encoder.allocateRow, Encoder.freshId, hpending]
  have L' := L.record model (t := .row { row := e.allocateRow.1 }) fun n hn => by
    obtain rfl := Option.some.inj hn
    exact .inr (.inr List.mem_cons_self)
  exact L'.undertake.keepTask (t := { id := e.allocateRow.1, model }) rfl

theorem sound_create {s : Store} {sink : Sink} {manifest : Manifest} {options : EncoderOptions}
    {host : η} (hsink : s.sinks[i]? = some sink) (hnew : sink.chunks = [] ∧ sink.closes = 0) :
    Sound i ⟨⟨(Encoder.create s model manifest options).1,
      (Encoder.create s model manifest options).2, host⟩, []⟩ := by
  have hbytes : sink.bytes = [] := by simp [Sink.bytes, hnew.1]
  unfold Encoder.create
  cases options.slot with
  | some slot =>
    refine .waiting (by intro h; cases h) rfl rfl (ledger_create rfl rfl rfl rfl rfl rfl rfl model)
      sink ?_ (by simpa using hbytes) hnew.2
    exact (Store.sinks_post s.newMailbox.2 _ _).trans rfl ▸ hsink
  | none =>
    refine .waiting (by intro h; cases h) rfl rfl (ledger_create rfl rfl rfl rfl rfl rfl rfl model)
      sink ?_ (by simpa using hbytes) hnew.2
    exact (Store.sinks_post s.newMailbox.2.newSlot.2 _ _).trans rfl ▸ hsink

/-- **Every reachable stage is sound.** -/
theorem Reached.sound (hrun : Quiet run) (h : Reached run i model x) : Sound i x := by
  induction h with
  | create hsink hnew => exact sound_create hsink hnew
  | step _ h ih => exact ih.step hrun h

/-- Once the sink is closed, what it was given is the text of rows that all accounts agree with. -/
theorem Reached.exists_accounts (hrun : Quiet run) (h : Reached run i model x)
    (hclosed : (x.store.sink i).isClosed) :
    ∃ rows, Accounts rows [] [] [] x.encoder ∧ (x.encoder.pending = 0 ∧ x.encoder.hints = []) ∧
      SelfContained rows ∧ x.given i = rows.flatMap Row.encode := by
  have open_ : ∀ k, x.store.sinks[i]? = some k → k.closes ≠ 0 := by
    intro k hk h0
    simp [Store.sink_eq hk, Sink.isClosed, h0] at hclosed
  cases h.sound hrun with
  | waiting _ _ _ _ k hk _ hcloses => exact absurd hcloses (open_ k hk)
  | flowing _ _ _ _ _ k hk _ hcloses => exact absurd hcloses (open_ k hk)
  | ended _ _ out L hidle k hk hgiven _ =>
    refine ⟨out, L.toAccounts, hidle, L.selfContained hidle.1 hidle.2, ?_⟩
    rw [← hgiven, Stage.given, Store.sink_eq hk]

/-- **Once the sink is closed, what it was given is the text of rows that stand on their own.** They
can be framed as long as ids and lengths fit into their headers. -/
theorem Reached.selfContained (hrun : Quiet run) (h : Reached run i model x)
    (hclosed : (x.store.sink i).isClosed) :
    ∃ rows, SelfContained rows ∧ x.given i = rows.flatMap Row.encode ∧
      (x.encoder.refs.nextId ≤ Nat.pow 2 32 → (x.given i).length < Nat.pow 2 64 → ∀ r ∈
        rows, r.InRange) := by
  obtain ⟨rows, A, hidle, hself, hgiven⟩ := h.exists_accounts hrun hclosed
  refine ⟨rows, hself, hgiven, fun hids hlength r hr =>
    Row.inRange_of_lt (Nat.lt_of_lt_of_le ?_ hids) (Nat.lt_of_le_of_lt ?_ hlength)⟩
  · by_contra hid
    have hnone : rowsOf r.id rows = [] := (A.told_iff hidle.1 hidle.2).2 (Nat.not_lt.mp hid)
    exact absurd (mem_rowsOf.mpr ⟨hr, rfl⟩) (hnone ▸ List.not_mem_nil)
  · rw [hgiven]
    obtain ⟨a, b, rfl⟩ := List.append_of_mem hr
    simp
    omega

/-- The output of a closed encoder is framed as long as ids and lengths fit into their headers. -/
theorem Reached.framed (hrun : Quiet run) (h : Reached run i model x)
    (hclosed : (x.store.sink i).isClosed) (hids : x.encoder.refs.nextId ≤ Nat.pow 2 32)
    (hlength : (x.given i).length < Nat.pow 2 64) :
    (RowReader.start.feed (x.given i)).fault = none := by
  obtain ⟨rows, hself, hgiven, hrange⟩ := h.selfContained hrun hclosed
  rw [hgiven, feed_rows hself.safe (hrange hids hlength)]

/-! ### Steps from outside -/

theorem step_settle (x : Stage η) (id : CellId) (o : Outcome) :
    Step run i x ⟨⟨x.encoder, (x.store.settle id o).2, x.host⟩, x.taken⟩ :=
  .outside (by rw [Store.sinks_settle])

theorem step_push (x : Stage η) (id : CellId) (event : StreamEvent) :
    Step run i x ⟨⟨x.encoder, (x.store.push id event).2, x.host⟩, x.taken⟩ :=
  .outside (by rw [Store.sinks_push])

end Stage

/-! ### Hosts without thunks -/

/-- A host without thunks. -/
def noThunks : Force Unit := fun _ _ _ _ => none

theorem quiet_noThunks : Quiet noThunks := by
  intro _ _ _ _ _ _ _ _ h
  cases h

end GraphRows
