import GraphRows.Proofs.Encoder.Runs

/-!
# When a sink is closed

`pending` is the number of tasks and open streams and of queued rows other than hints, at every
moment between two calls and whenever a flush begins. So a flush that sends a row never counts below
zero, and it brings `pending` to zero exactly when nothing is left. That is when it closes the sink.
A closed encoder has nothing to work on and is moved by no call.

## Main results

* `Stage.Flushes`: the flushes of a step, as the states in which they begin
* `Stage.Step.flushes_of_closed`: only a flush closes
* `Stage.Step.of_closed`: nothing happens after that
* `pending_exact_closed_once`: all of it, for every run
-/

namespace GraphRows

variable {e : Encoder} {s : Store}

namespace Encoder

/-- No task, no open stream and no queued row is left. -/
def isDone (e : Encoder) : Bool :=
  e.tasks.isEmpty && e.streams.isEmpty && e.imports.isEmpty && e.hints.isEmpty &&
    e.regular.isEmpty && e.errors.isEmpty

/-- How many queued rows `pending` counts. -/
def counted (e : Encoder) : Nat := e.imports.length + e.regular.length + e.errors.length

theorem isDone_iff :
    e.isDone = true ↔ ((e.tasks = [] ∧ e.streams = []) ∧ e.imports = [] ∧ e.regular =
      [] ∧ e.errors = []) ∧ e.hints = [] := by
  simp only [isDone, Bool.and_eq_true, List.isEmpty_iff]
  tauto

end Encoder

/-- Nothing is pending and no hint waits exactly when nothing is left. -/
theorem Accounts.isDone_iff {out : List Row} (A : Accounts out [] [] [] e) :
    e.isDone = true ↔ e.pending = 0 ∧ e.hints = [] := by
  rw [Encoder.isDone_iff]
  refine ⟨fun h => ⟨?_, h.2⟩, fun h => ⟨A.idle h.1, h.2⟩⟩
  obtain ⟨⟨htasks, hstreams⟩, himports, hregular, herrors⟩ := h.1
  simp [A.pending, Encoder.debt, htasks, hstreams, himports, hregular, herrors]

namespace Flows

open Encoder

variable {i : Nat} {taken : Bytes} {e : Encoder} {s : Store}

/-- The sink was closed once if the encoder is closed, and not otherwise. -/
theorem closes (h : Flows i taken e s) :
    (s.sink i).closes = if e.status = .closed then 1 else 0 := by
  cases h with
  | waiting hstatus _ _ _ k hk _ hcloses => rw [Store.sink_eq hk, hcloses, if_neg hstatus]
  | flowing hstatus _ _ _ _ k hk _ hcloses => rw [Store.sink_eq hk, hcloses, if_neg hstatus]
  | ended hstatus _ _ _ _ k hk _ hcloses => rw [Store.sink_eq hk, hcloses, if_pos hstatus]

theorem of_closed (h : Flows i taken e s) (hclosed : e.status = .closed) :
    e.isDone = true ∧ e.sink = none := by
  cases h with
  | waiting hstatus => exact absurd hclosed hstatus
  | flowing hstatus => exact absurd hclosed hstatus
  | ended _ hsink _ L hidle => exact ⟨L.isDone_iff.mpr hidle, hsink⟩

/-- **A flush counts down by what it sends, and closes the sink exactly when nothing is left.** -/
theorem flush_exact (h : Flows i taken e s) (hsink : e.sink = some i) :
    (e.flush s).1.pending + e.counted = e.pending + (e.flush s).1.counted ∧
      ((e.flush s).2.sink i).closes = (s.sink i).closes + (if (e.flush s).1.isDone then 1 else 0) ∧
      ((e.flush s).1.status = .closed ↔ (e.flush s).1.isDone = true) := by
  cases h with
  | waiting _ hnone => simp [hnone] at hsink
  | ended _ hnone => simp [hnone] at hsink
  | flowing hstatus _ hbatch out L k hk hgiven hcloses =>
    obtain ⟨a, b, c, d, sink, hsent, hsettled, -⟩ := exists_flush hsink s
    have hafter := flush hstatus hsink hbatch L hk hgiven hcloses
    have hdone := (L.send hsent).isDone_iff
    have hclosed : (e.flush s).1.status = .closed ↔ (e.flush s).1.isDone = true := by
      rw [hdone]
      constructor
      · intro hclosed
        exact hdone.mp (hafter.of_closed hclosed).1
      · intro hidle
        exact (hsettled.closed hidle.1 hidle.2 hstatus).1
    refine ⟨?_, ?_, hclosed⟩
    · have hle := L.sent_le hsent
      simp only [counted, hsent.imports, hsent.regular, hsent.errors, hsent.pending,
        List.length_append]
      omega
    · have hbefore : (s.sink i).closes = 0 := by rw [Store.sink_eq hk, hcloses]
      rw [hafter.closes, hbefore, Nat.zero_add]
      simp only [hclosed]

end Flows

namespace Stage

variable {η : Type} {run : Force η} {i : Nat} {model : Value} {x y : Stage η}

/-- The states in which a step from `x` flushes: after acting on all messages, with a sink just
attached, asked for more, with a hint just queued, or after an abort has answered for everything. -/
inductive Flushes (run : Force η) (i : Nat) (x : Stage η) : Encoder → Store → Prop
  | work {fuel : Nat} {s : Store} {y : Encoding η} (hslot : x.store.takeSlot x.encoder.slot = .ok s)
      (h : Render.handleAll run fuel ⟨x.encoder, s, x.host⟩ = some ((), y))
        (hflowing : y.encoder.flowing) :
      Flushes run i x y.encoder y.store
  | start (hnone : x.encoder.sink = none) (hopen : x.encoder.status ≠ .closed) :
      Flushes run i x { x.encoder with sink := some i, flowing := true } x.store
  | pull (hopen : x.encoder.status ≠ .closed) :
    Flushes run i x { x.encoder with flowing := true } x.store
  | hint {h : Hint} (hqueued : (x.encoder.queueHint h).1)
      (hflowing : (x.encoder.queueHint h).2.flowing) :
      Flushes run i x (x.encoder.queueHint h).2 x.store
  | abort {reason : Option Rejection} (hopen : x.encoder.status ≠ .closed) :
      Flushes run i x (x.encoder.answerAll x.store reason).1 (x.encoder.answerAll x.store reason).2

/-- The books are in order when a flush begins. -/
theorem Flushes.flows (hrun : Quiet run) (hx : Sound i x) (h : x.Flushes run i e s) :
    Flows i x.taken e s := by
  cases h with
  | @work fuel s y hslot h _ =>
    exact Flows.handleAll hrun fuel ⟨x.encoder, s, x.host⟩ () y
      (Flows.slots hx (Store.sinks_takeSlot hslot)) h
  | start hnone hopen => exact Flows.attach hx hnone hopen
  | pull => exact Flows.wanting hx
  | hint => exact Flows.queueHint hx _
  | abort hopen => exact (Flows.answerAll hx hopen _).2

theorem around_of_handleAll (hrun : Quiet run) {y : Encoding η} {fuel : Nat} (hx : Sound i x)
    (hy : Render.handleAll run fuel ⟨x.encoder, s, x.host⟩ = some ((), y)) :
    Around.of y.encoder y.store = Around.of x.encoder s :=
  Flows.handleAll_around (x := ⟨x.encoder, s, x.host⟩) (s := x.store) hrun hx hy

/-- **Nothing is written or queued once the encoder is closed.** -/
theorem Step.of_closed (hrun : Quiet run) (hx : Sound i x) (hclosed : x.encoder.status = .closed)
    (h : Step run i x y) : y.encoder = x.encoder ∧ y.given i = x.given i := by
  obtain ⟨hdone, hnone⟩ := Flows.of_closed hx hclosed
  have hkept : (x.encoder.status == .closed) = true := by simp [hclosed]
  cases h with
  | @work fuel r e s host h =>
    have handled : ∀ s y, x.store.takeSlot x.encoder.slot = .ok s →
        Render.handleAll run fuel ⟨x.encoder, s, x.host⟩ = some ((), y) →
        y.encoder = x.encoder ∧ x.taken ++ (y.store.sink i).bytes = x.given i :=
          fun s y hslot hhandle => by
      obtain ⟨⟨htasks, hstreams⟩, -⟩ := (Encoder.isDone_iff.mp hdone).1
      obtain ⟨hsinks, -⟩ := Around.mk.inj (around_of_handleAll hrun hx hhandle)
      refine ⟨(Flows.handleAll_idle htasks hstreams x.host fuel ⟨x.encoder, s, x.host⟩ () y
        ⟨rfl, rfl⟩ hhandle).1, ?_⟩
      rw [Stage.given, Store.sink, hsinks, Store.sinks_takeSlot hslot, Store.sink]
    refine Render.work_elim (P := fun z => z.encoder = x.encoder ∧ x.taken ++
      (z.store.sink i).bytes = x.given i)
      (Encoder.work_eq_some h) (fun _ => ⟨rfl, rfl⟩)
        (fun s y hslot hhandle _ => handled s y hslot hhandle) fun s y hslot hhandle _ => ?_
    rw [Flows.flush_of_none (by rw [(handled s y hslot hhandle).1, hnone])]
    exact handled s y hslot hhandle
  | start h =>
    rw [Encoder.startFlowing, hnone, Option.isSome_none, if_neg Bool.false_ne_true,
      if_pos hkept] at h
    obtain ⟨rfl, rfl⟩ := Prod.mk.inj (Except.ok.inj h)
    exact ⟨rfl, rfl⟩
  | pull =>
    have : x.encoder.pull x.store = (x.encoder, x.store) := by simp [Encoder.pull, hnone]
    rw [this]
    exact ⟨rfl, rfl⟩
  | hint offer =>
    have : x.encoder.hint x.store offer = (false, x.encoder, x.store) := by
      simp [Encoder.hint, Encoder.queueHint, hkept]
    rw [this]
    exact ⟨rfl, rfl⟩
  | abort reason =>
    have : x.encoder.abort x.store reason = (x.encoder, x.store) := by simp [Encoder.abort, hkept]
    rw [this]
    exact ⟨rfl, rfl⟩
  | outside h => exact ⟨rfl, by rw [Stage.given, Stage.given, Store.sink, Store.sink, h]⟩
  | take =>
    refine ⟨rfl, ?_⟩
    cases hx with
    | waiting hstatus => exact absurd hclosed hstatus
    | flowing hstatus => exact absurd hclosed hstatus
    | ended _ _ _ _ _ k hk =>
      obtain ⟨k', hk', hgiven, -⟩ := Flows.popped hk x.taken
      show x.taken ++ (x.store.sink i).pop.1.getD [] ++
        ((x.store.setSink i (x.store.sink i).pop.2).sink i).bytes = _
      rw [Store.sink_eq hk', hgiven, Stage.given, Store.sink_eq hk]

/-- A flush that closes is one into the sink. -/
theorem sink_of_flush {taken : Bytes} (h : Flows i taken e s) (hopen : e.status ≠ .closed)
    (hclosed : (e.flush s).1.status = .closed) : e.sink = some i := by
  cases h with
  | waiting _ hnone =>
    rw [Flows.flush_of_none hnone] at hclosed
    exact absurd hclosed hopen
  | flowing _ hsink => exact hsink
  | ended h => exact absurd h hopen

/-- **Only a flush closes**, and it is the last thing its step does. -/
theorem Step.flushes_of_closed (hrun : Quiet run) (hx : Sound i x)
    (hopen : x.encoder.status ≠ .closed) (h : Step run i x y)
    (hclosed : y.encoder.status = .closed) :
    ∃ e s, x.Flushes run i e s ∧ e.sink = some i ∧ y.encoder = (e.flush s).1 := by
  let P : Encoder → Prop := fun e' => e'.status = .closed →
    ∃ e s, x.Flushes run i e s ∧ e.sink = some i ∧ e' = (e.flush s).1
  -- a flush from an open state is one into the sink
  have flushed : ∀ {e s}, x.Flushes run i e s → e.status ≠ .closed → P (e.flush s).1 :=
    fun {e s} hflush hopen hclosed =>
    ⟨e, s, hflush, sink_of_flush (hflush.flows hrun hx) hopen hclosed, rfl⟩
  have rest : ∀ {e : Encoder}, e.status = x.encoder.status → P e := fun hstatus hclosed =>
    absurd (hstatus ▸ hclosed) hopen
  have hqueued (offer : Hint) : (x.encoder.queueHint offer).2.status = x.encoder.status :=
    (Around.mk.inj (Around.of_queueHint x.encoder x.store offer)).2.1
  cases h with
  | work h =>
    have handled {fuel : Nat} {s : Store} {y : Encoding η}
        (hy : Render.handleAll run fuel ⟨x.encoder, s, x.host⟩ = some ((), y)) : y.encoder.status =
          x.encoder.status :=
      (Around.mk.inj (around_of_handleAll hrun hx hy)).2.1
    exact Render.work_elim (P := fun z => P z.encoder) (Encoder.work_eq_some h) (fun _ => rest rfl)
      (fun _ y _ hy _ => rest (handled (y := y) hy))
        (fun _ _ hslot hy hflowing => flushed (.work hslot hy hflowing) (handled hy ▸ hopen))
          hclosed
  | start h =>
    exact Encoder.startFlowing_elim (P := fun e _ => P e) h (fun _ => rest rfl)
      (fun hnone hopen => flushed (.start hnone hopen) hopen) hclosed
  | pull =>
    exact Encoder.pull_elim (P := fun e _ => P e) (rest rfl)
      (fun hopen => flushed (.pull hopen) hopen) hclosed
  | hint offer =>
    exact Encoder.hint_elim (P := fun e _ => P e) (rest (hqueued offer))
      (fun hnew hflowing => flushed (.hint hnew hflowing) (hqueued offer ▸ hopen)) hclosed
  | abort reason =>
    have hstatus := (Flows.answerAll hx hopen reason).1
    exact Encoder.abort_elim (P := fun e _ => P e) (fun hclosed => absurd hclosed hopen)
      (fun _ hclosed => absurd hclosed hstatus)
      (fun hopen => flushed (.abort hopen) hstatus) hclosed
  | outside => exact absurd hclosed hopen
  | take => exact absurd hclosed hopen

end Stage

/-- **The accounting of an encoder is exact, and it closes its sink once.** In every state between
two calls, `pending` is the number of tasks, open streams and queued rows other than hints, and the
tasks an abort has to answer for are those that are kept. A flush into the sink counts down by
exactly as many as it sends of the rows that count, and closes the sink exactly when it leaves no
task, no open stream and no queued row. Only a flush closes; the sink is closed once when the
encoder is, and otherwise not; and once the encoder is closed no step changes it or what the sink
was given. -/
theorem pending_exact_closed_once {η : Type} {run : Force η} (hrun : Quiet run) {i : Nat}
    {model : Value} {x : Stage η} (h : Stage.Reached run i model x) :
    x.encoder.pending = x.encoder.tasks.length + x.encoder.streams.length +
      x.encoder.imports.length +
        x.encoder.regular.length + x.encoder.errors.length ∧
      (x.encoder.abortable.Nodup ∧ x.encoder.abortable.Perm (x.encoder.tasks.map (·.id))) ∧
      (x.store.sink i).closes = (if x.encoder.status = .closed then 1 else 0) ∧
      (x.encoder.status = .closed → x.encoder.isDone = true ∧ x.encoder.sink = none) ∧
      (∀ e s, x.Flushes run i e s → e.sink = some i →
        (e.flush s).1.pending + e.counted = e.pending + (e.flush s).1.counted ∧
        ((e.flush s).2.sink i).closes = (s.sink i).closes +
          (if (e.flush s).1.isDone then 1 else 0) ∧
        ((e.flush s).1.status = .closed ↔ (e.flush s).1.isDone = true)) ∧
      ∀ y, Stage.Step run i x y →
        (x.encoder.status = .closed → y.encoder = x.encoder ∧ y.given i = x.given i) ∧
        (x.encoder.status ≠ .closed → y.encoder.status = .closed →
          ∃ e s, x.Flushes run i e s ∧ e.sink = some i ∧ y.encoder = (e.flush s).1) := by
  have hx := h.sound hrun
  obtain ⟨out, -, L, -⟩ := Flows.exists_books hx
  refine ⟨L.pending, ⟨?_, L.abortable⟩, Flows.closes hx, Flows.of_closed hx, ?_, ?_⟩
  · exact L.abortable.nodup_iff.mpr L.nodup_taskIds
  · intro e s hflush hsink
    exact (hflush.flows hrun hx).flush_exact hsink
  · intro y hstep
    exact ⟨fun hclosed => hstep.of_closed hrun hx hclosed, fun hopen hclosed =>
      hstep.flushes_of_closed hrun hx hopen hclosed⟩

/-! ### A run that is aborted

An array with a promise that does not settle and a stream that does not end. A hint is offered, and
then all is aborted. -/

/-- A store with a new sink, and the array. -/
def unsettledArray : Value × Store :=
  let (promise, s) := (({} : Store).newSink .unlimited).2.newPromise
  let (stream, s) := s.newStream .readable
  s.make (.array [.cell promise, .cell stream])

/-- The encoder of the array when it was given the sink, offered a hint and let to work. -/
def unsettledWorked : Option (Except Fault Unit × Encoder × Store × Unit) :=
  let (e, s) := Encoder.create unsettledArray.2 unsettledArray.1 default {}
  match e.startFlowing s 0 with
  | .ok (e, s) => (e.hint s (.prefetchDns "host")).2.1.work noThunks 30 (e.hint s
    (.prefetchDns "host")).2.2 ()
  | .error _ => none

/-- The array when it was let to work, with whatever steps keep. -/
theorem exists_unsettled (P : Stage Unit → Bool) {Q : Stage Unit → Prop}
    (hnew : ∀ e, Q ⟨⟨e, (Encoder.create unsettledArray.2 unsettledArray.1 default {}).2, ()⟩, []⟩)
    (hstep : ∀ {x y}, Stage.Reached noThunks 0 unsettledArray.1 x → Q x →
      Stage.Step noThunks 0 x y → Q y)
    (hP : (unsettledWorked.any fun w => P ⟨⟨w.2.1, w.2.2.1, ()⟩, []⟩) = true) :
    ∃ x : Stage Unit, Stage.Reached noThunks 0 unsettledArray.1 x ∧ Q x ∧ P x = true := by
  obtain ⟨⟨r, e, s, host⟩, hworked, hP⟩ := (Option.any_eq_true _ _).mp hP
  unfold unsettledWorked at hworked
  dsimp only at hworked
  split at hworked
  · rename_i e' s' hstarted
    have hcreated : Stage.Reached noThunks 0 unsettledArray.1
        ⟨⟨(Encoder.create unsettledArray.2 unsettledArray.1 default {}).1,
          (Encoder.create unsettledArray.2 unsettledArray.1 default {}).2, ()⟩, []⟩ :=
            .create rfl ⟨rfl, rfl⟩
    have next : ∀ {x y}, Stage.Reached noThunks 0 unsettledArray.1 x ∧ Q x →
        Stage.Step noThunks 0 x y →
        Stage.Reached noThunks 0 unsettledArray.1 y ∧ Q y := fun hx h =>
          ⟨hx.1.step h, hstep hx.1 hx.2 h⟩
    have hhinted := next (next ⟨hcreated, hnew _⟩ (.start hstarted)) (.hint (.prefetchDns "host"))
    obtain ⟨hreached, hQ⟩ := next hhinted (.work hworked)
    exact ⟨_, hreached, hQ, hP⟩
  · cases hworked

theorem exists_aborted (P : Stage Unit → Bool)
    (hP : (unsettledWorked.any
      fun w => P ⟨⟨(w.2.1.abort w.2.2.1 none).1, (w.2.1.abort w.2.2.1 none).2, ()⟩, []⟩) = true) :
    ∃ x : Stage Unit, Stage.Reached noThunks 0 unsettledArray.1 x ∧ P x = true := by
  obtain ⟨x, hreached, -, hP⟩ := exists_unsettled (Q := fun _ => True)
    (fun x => P
      ⟨⟨(x.encoder.abort x.store none).1, (x.encoder.abort x.store none).2, x.host⟩, x.taken⟩)
    (fun _ => trivial) (fun _ _ _ => trivial) hP
  exact ⟨_, hreached.step (.abort none), hP⟩

theorem pending_exact_closed_once_aborted :
    ∃ x : Stage Unit, Stage.Reached noThunks 0 unsettledArray.1 x ∧
    x.encoder.status = .closed ∧ (x.store.sink 0).closes = 1 ∧ x.encoder.isDone = true ∧
      x.encoder.pending = 0 := by
  obtain ⟨x, hreached, hclosed⟩ := exists_aborted (fun x => x.encoder.status == .closed)
    (by decide +kernel)
  obtain ⟨hpending, -, hcloses, hdone, -⟩ := pending_exact_closed_once quiet_noThunks hreached
  have hclosed := beq_iff_eq.mp hclosed
  rw [if_pos hclosed] at hcloses
  obtain ⟨⟨⟨htasks, hstreams⟩, himports, hregular, herrors⟩, -⟩ := Encoder.isDone_iff.mp
    (hdone hclosed).1
  refine ⟨x, hreached, hclosed, hcloses, (hdone hclosed).1, ?_⟩
  rw [hpending, htasks, hstreams, himports, hregular, herrors]
  rfl

end GraphRows
