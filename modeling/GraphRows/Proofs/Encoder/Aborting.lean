import GraphRows.Proofs.Encoder.Closing
import GraphRows.Proofs.Store.Outcomes

/-!
# What an abort says

An abort answers for everything outstanding. If a task is outstanding, one row with a new id gives
the reason and every task refers to it; every open stream ends with an error of its own.
`Encoder.abortRows` is the list of these rows. They are queued behind everything else, so a sink
that always wants more is given what was queued before, then these rows, and is closed.

An encoder that is being aborted has no task left. Messages may still come for it, from promises and
streams that knew about its tasks; it moves for none of them.

## Main results

* `Encoder.answers_answerAll`: the rows an abort queues
* `Stage.abort_sends`: what the sink is given, and that it is closed
* `Stage.Reached.aborting`: while an encoder is being aborted there is nothing to work on
-/

namespace GraphRows

variable {taken : Bytes} {c : CellId} {e e' : Encoder} {out rows : List Row} {i n : Nat} {s : Store}

/-- The stream in a cell was cancelled. -/
def Store.IsCancelled (s : Store) (c : CellId) : Prop :=
  ∃ st, s.stream? c = some st ∧ st.cancelled.isSome

namespace Store

/-- Cancelling a stream leaves every stream a stream. -/
theorem isSome_stream?_cancel (s : Store) (c c' : CellId) (r : Rejection) :
    ((s.cancel c' r).stream? c).isSome = (s.stream? c).isSome := by
  cases hst : s.stream? c' with
  | none => simp [cancel, hst]
  | some st =>
    by_cases hcancelled : st.cancelled.isSome
    · simp [cancel, hst, hcancelled]
    · simp only [cancel, hst, hcancelled]
      by_cases hc : c' = c
      · subst hc
        have hsome : (s.stream? c').isSome := by rw [hst]; rfl
        rw [if_neg Bool.false_ne_true, stream?_write_self hsome, hst]
        rfl
      · rw [if_neg Bool.false_ne_true, stream?_write_ne hc]

theorem isCancelled_cancel (h : (s.stream? c).isSome) (r : Rejection) :
    (s.cancel c r).IsCancelled c := by
  obtain ⟨st, hst⟩ := Option.isSome_iff_exists.mp h
  by_cases hcancelled : st.cancelled.isSome
  · exact ⟨st, by simp [cancel, hst, hcancelled], hcancelled⟩
  · refine ⟨{ st with cancelled := some r, buffer := [], subscriber := none }, ?_, rfl⟩
    simp only [cancel, hst, hcancelled]
    exact stream?_write_self h _

theorem IsCancelled.cancel (h : s.IsCancelled c) (c' : CellId) (r : Rejection) :
    (s.cancel c' r).IsCancelled c := by
  by_cases hc : c' = c
  · subst hc
    obtain ⟨st, hst, -⟩ := h
    exact isCancelled_cancel (by rw [hst]; rfl) r
  · obtain ⟨st, hst, hcancelled⟩ := h
    refine ⟨st, ?_, hcancelled⟩
    rw [Store.cancel]
    split
    · exact hst
    · split
      · exact hst
      · rw [stream?_write_ne hc]
        exact hst

end Store

namespace Encoder

/-! ### The rows of an abort -/

/-- The digest that goes with an error when `count` errors were reported before it. -/
def digestAt (e : Encoder) (count : Nat) (cause : Cause) : String :=
  e.digest.elim "" fun digest => (digest count cause.message).getD ""

/-- What the row of a rejection says when `count` errors were reported before it. -/
def rejectionBody (e : Encoder) (count : Nat) : Rejection → RowBody
  | .postpone reason => .postpone (.obj [("reason", .str reason)])
  | .error cause => .error (errorPayload e.config.exposeErrors (e.digestAt count cause) cause)

/-- How many errors are reported with a rejection. -/
def reports (e : Encoder) : Rejection → Nat
  | .postpone _ => 0
  | .error _ => if e.digest.isSome then 1 else 0

/-- The reason an aborted stream ends with: an error in any case. -/
def streamReason (reason : Rejection) : Rejection :=
  if reason.isPostpone then .abortedByPostpone else reason

/-- The rows that end some streams, one error for each. -/
def endRows (e : Encoder) (reason : Rejection) : Nat → List Task → List Row
  | _, [] => []
  | count, task :: rest => ⟨task.id, e.rejectionBody count reason⟩ :: e.endRows reason (count +
    e.reports reason) rest

/-- The rows that answer for the tasks: the reason, with a new id, and a reference to it for each
task. -/
def taskRows (e : Encoder) (reason : Rejection) : List Row :=
  if e.tasks.isEmpty then []
  else ⟨e.refs.nextId, e.rejectionBody e.errorCount reason⟩ :: e.abortable.map fun id =>
    ⟨id, .model (rowJson e.refs.nextId)⟩

/-- The rows that end the open streams. -/
def streamRows (e : Encoder) (reason : Rejection) : List Row :=
  e.endRows (streamReason reason) (if e.tasks.isEmpty then e.errorCount else e.errorCount +
    e.reports reason) e.streams

/-- The rows an abort adds. -/
def abortRows (e : Encoder) (reason : Rejection) : List Row :=
  e.taskRows reason ++ e.streamRows reason

theorem streamReason_eq_error (reason : Rejection) :
    ∃ cause, streamReason reason = .error cause := by
  cases reason with
  | error cause => exact ⟨cause, rfl⟩
  | postpone r => exact ⟨_, rfl⟩

/-- The rows that are queued, in the order in which they go out. -/
def queued (e : Encoder) : List Row := e.imports ++ e.hints ++ e.regular ++ e.errors

/-- A stream ends with an error, whatever the reason of the abort. -/
theorem exists_error_of_mem_endRows {reason : Rejection} {count : Nat} {streams : List Task}
    {r : Row} (h : r ∈ e.endRows (streamReason reason) count streams) : ∃ j, r.body = .error j := by
  obtain ⟨cause, hcause⟩ := streamReason_eq_error reason
  induction streams generalizing count with
  | nil => cases h
  | cons task rest ih =>
    rcases List.mem_cons.mp h with rfl | h
    · rw [hcause]
      exact ⟨_, rfl⟩
    · exact ih h

theorem map_id_endRows (e : Encoder) (reason : Rejection) (count : Nat) (streams : List Task) :
    (e.endRows reason count streams).map (·.id) = streams.map (·.id) := by
  induction streams generalizing count with
  | nil => rfl
  | cons task rest ih => exact congrArg (task.id :: ·) (ih _)

/-! ### Answering -/

/-- The row of a rejection is queued, and the error it may be is reported. -/
theorem emitRejection_eq (e : Encoder) (s : Store) (id : Nat) (reason : Rejection) :
    (e.emitRejection s id reason).1 =
      { e with
        errors := e.errors ++ [⟨id, e.rejectionBody e.errorCount reason⟩]
        errorCount := e.errorCount + e.reports reason } := by
  cases reason with
  | postpone r => rfl
  | error cause =>
    cases hdigest : e.digest with
    | none => simp [emitRejection, reportError, rejectionBody, digestAt, reports, hdigest, push]
    | some digest =>
      simp [emitRejection, reportError, rejectionBody, digestAt, reports, hdigest, push]

/-- From `e` to `e'` rows were queued as errors and some errors reported; the other queues and the
settings are the same. -/
structure Answers (e e' : Encoder) (rows : List Row) (reported : Nat) : Prop where
  imports : e'.imports = e.imports
  hints : e'.hints = e.hints
  regular : e'.regular = e.regular
  errors : e'.errors = e.errors ++ rows
  config : e'.config = e.config
  digest : e'.digest = e.digest
  errorCount : e'.errorCount = e.errorCount + reported

theorem Answers.trans {e'' : Encoder} {rows' : List Row} {m : Nat} (h : Answers e e' rows m)
    (h' : Answers e' e'' rows' n) : Answers e e'' (rows ++ rows') (m + n) :=
  ⟨h'.imports.trans h.imports, h'.hints.trans h.hints,
    h'.regular.trans h.regular, by rw [h'.errors, h.errors, List.append_assoc],
    h'.config.trans h.config, h'.digest.trans h.digest, by rw [h'.errorCount, h.errorCount,
      Nat.add_assoc]⟩

theorem answers_emitRejection (e : Encoder) (s : Store) (id : Nat) (reason : Rejection) :
    Answers e (e.emitRejection s id reason).1 [⟨id, e.rejectionBody e.errorCount reason⟩]
      (e.reports reason) := by
  rw [emitRejection_eq]
  exact ⟨rfl, rfl, rfl, rfl, rfl, rfl, rfl⟩

theorem Answers.rejectionBody (h : Answers e e' rows n) (count : Nat)
    (reason : Rejection) : e'.rejectionBody count reason = e.rejectionBody count reason := by
  cases reason with
  | postpone r => rfl
  | error cause =>
    rw [Encoder.rejectionBody, Encoder.rejectionBody, digestAt, digestAt, h.config, h.digest]

theorem Answers.reports (h : Answers e e' rows n) (reason : Rejection) :
    e'.reports reason = e.reports reason := by
  cases reason with
  | postpone r => rfl
  | error cause => rw [Encoder.reports, Encoder.reports, h.digest]

theorem Answers.endRows (h : Answers e e' rows n) (reason : Rejection) (count : Nat)
    (streams : List Task) : e'.endRows reason count streams = e.endRows reason count streams := by
  induction streams generalizing count with
  | nil => rfl
  | cons task rest ih => rw [Encoder.endRows, Encoder.endRows, h.rejectionBody, h.reports, ih]

/-- Each task that is kept gets its reference. -/
theorem answers_tasks (fatal : Nat) {ids : List Nat} (hnodup : ids.Nodup)
    (hkept : ∀ id ∈ ids, id ∈ e.taskIds) :
    let e' := ids.foldl (fun e id =>
        match e.takeTask id with
        | (some _, e) => e.pushModel .errors id (rowJson fatal)
        | (none, e) => e) e
    Answers e e' (ids.map fun id => ⟨id, .model (rowJson fatal)⟩) 0 ∧ e'.streams = e.streams ∧
      e'.abortable = e.abortable := by
  induction ids generalizing e with
  | nil => exact ⟨⟨rfl, rfl, rfl, (List.append_nil _).symm, rfl, rfl, rfl⟩, rfl, rfl⟩
  | cons id ids ih =>
    obtain ⟨hid, hrest⟩ := List.nodup_cons.mp hnodup
    obtain ⟨t, ht, rfl⟩ := List.mem_map.mp (hkept id List.mem_cons_self)
    have hfound : (e.tasks.find? (·.id == t.id)).isSome := List.find?_isSome.mpr ⟨t, ht, by simp⟩
    obtain ⟨t', ht'⟩ := Option.isSome_iff_exists.mp hfound
    have htake : e.takeTask t.id =
        (some t', { e with tasks := e.tasks.filter (·.id != t.id) }) := by
      rw [takeTask, ht']
    rw [List.foldl_cons, htake]
    have hkept' : ∀ id ∈ ids, id ∈
        ({ e with tasks := e.tasks.filter (·.id != t.id) }.pushModel .errors t.id
          (rowJson fatal)).taskIds := by
      intro id hmem
      obtain ⟨u, hu, rfl⟩ := List.mem_map.mp (hkept id (List.mem_cons_of_mem _ hmem))
      refine List.mem_map.mpr ⟨u, List.mem_filter.mpr ⟨hu, ?_⟩, rfl⟩
      simp only [bne_iff_ne]
      rintro heq
      exact hid (heq ▸ hmem)
    obtain ⟨hanswers, hsame⟩ := ih hrest hkept'
    refine ⟨?_, hsame⟩
    have hfirst : Answers e ({ e with tasks := e.tasks.filter (·.id != t.id) }.pushModel .errors
        t.id (rowJson fatal)) [⟨t.id, .model (rowJson fatal)⟩] 0 :=
          ⟨rfl, rfl, rfl, rfl, rfl, rfl, rfl⟩
    exact hfirst.trans hanswers

theorem answers_abortTasks (hnodup : e.abortable.Nodup) (hkept : e.abortable.Perm e.taskIds)
    (s : Store) (reason : Rejection) :
    Answers e (e.abortTasks s reason).1 (e.taskRows reason)
      (if e.tasks.isEmpty then 0 else e.reports reason) ∧
      (e.abortTasks s reason).1.streams = e.streams ∧ (e.abortTasks s reason).1.abortable = [] := by
  have hempty : e.abortable.isEmpty = e.tasks.isEmpty := by
    have hlength := hkept.length_eq
    rw [taskIds, List.length_map] at hlength
    rw [Bool.eq_iff_iff, List.isEmpty_iff, List.isEmpty_iff, ← List.length_eq_zero_iff,
      ← List.length_eq_zero_iff, hlength]
  by_cases hnone : e.tasks.isEmpty = true
  · rw [abortTasks, taskRows, hempty, if_pos hnone, if_pos hnone, if_pos hnone]
    exact ⟨⟨rfl, rfl, rfl, (List.append_nil _).symm, rfl, rfl, rfl⟩, rfl, List.isEmpty_iff.mp
      (hempty.trans hnone)⟩
  · -- the row with the reason first, then a reference to it for each task
    let e₁ : Encoder := { e.allocateRow.2 with fatal := some e.allocateRow.1 }
    have hreason := answers_emitRejection e₁ s e.refs.nextId reason
    have hkeeps : (e₁.emitRejection s e.refs.nextId reason).1.abortable = e.abortable ∧
        (e₁.emitRejection s e.refs.nextId reason).1.taskIds = e.taskIds ∧
        (e₁.emitRejection s e.refs.nextId reason).1.streams = e.streams := by
      rw [emitRejection_eq]
      exact ⟨rfl, rfl, rfl⟩
    have habort : (e.abortTasks s reason).1 =
        (e₁.emitRejection s e.refs.nextId reason).1.abortable.foldl (fun e id =>
          match e.takeTask id with
          | (some _, e) => e.pushModel .errors id (rowJson e₁.refs.nextId.pred)
          | (none, e) => e)
          { (e₁.emitRejection s e.refs.nextId reason).1 with abortable := [] } := by
      rw [abortTasks, hempty, if_neg hnone]
      rfl
    rw [habort, taskRows, if_neg hnone, if_neg hnone, hkeeps.1]
    obtain ⟨hanswers, hstreams, habortable⟩ := answers_tasks e.refs.nextId
      (e := { (e₁.emitRejection s e.refs.nextId reason).1 with abortable := [] }) hnodup (by
        intro id hid
        exact hkeeps.2.1 ▸ hkept.mem_iff.mp hid)
    refine ⟨?_, hstreams.trans hkeeps.2.2, habortable⟩
    have hfirst : Answers e { (e₁.emitRejection s e.refs.nextId reason).1 with abortable := [] }
        [⟨e.refs.nextId, e.rejectionBody e.errorCount reason⟩] (e.reports reason) :=
      ⟨hreason.imports, hreason.hints, hreason.regular, hreason.errors, hreason.config,
        hreason.digest, hreason.errorCount⟩
    exact hfirst.trans hanswers

theorem answers_ends {reason : Rejection} {f : Encoder × Store → Task → Encoder × Store}
    (hf : ∀ x task, (f x task).1 = (x.1.emitRejection x.2 task.id reason).1) (streams : List Task)
    (x : Encoder × Store) :
    ∃ n, Answers x.1 (streams.foldl f x).1 (x.1.endRows reason x.1.errorCount streams) n ∧
      (streams.foldl f x).1.streams = x.1.streams ∧
        (streams.foldl f x).1.abortable = x.1.abortable := by
  induction streams generalizing x with
  | nil => exact ⟨0, ⟨rfl, rfl, rfl, (List.append_nil _).symm, rfl, rfl, rfl⟩, rfl, rfl⟩
  | cons task streams ih =>
    obtain ⟨n, hrest, hstreams, habortable⟩ := ih (f x task)
    have hfirst : Answers x.1 (f x task).1 _ _ := hf x task ▸ answers_emitRejection x.1 x.2
      task.id reason
    rw [hfirst.endRows, hfirst.errorCount] at hrest
    refine ⟨_, hfirst.trans hrest, hstreams.trans ?_, habortable.trans ?_⟩
    · rw [hf, emitRejection_eq]
    · rw [hf, emitRejection_eq]

theorem answers_abortStreams (e : Encoder) (s : Store) (reason : Rejection) :
    ∃ n, Answers e (e.abortStreams s reason).1
      (e.endRows (streamReason reason) e.errorCount e.streams) n ∧
      (e.abortStreams s reason).1.streams = [] ∧
        (e.abortStreams s reason).1.abortable = e.abortable := by
  have hfirst : Answers e { e with streams := [] } [] 0 :=
    ⟨rfl, rfl, rfl, (List.append_nil _).symm, rfl, rfl, rfl⟩
  obtain ⟨n, hends, hsame⟩ : ∃ n, Answers { e with streams := [] } (e.abortStreams s reason).1
      ({ e with streams := [] }.endRows (streamReason reason) e.errorCount e.streams) n ∧
      (e.abortStreams s reason).1.streams = [] ∧
        (e.abortStreams s reason).1.abortable = e.abortable := by
    unfold abortStreams
    refine answers_ends (fun x task => ?_) e.streams ({ e with streams := [] }, s)
    dsimp only
    split <;> rfl
  rw [hfirst.endRows] at hends
  exact ⟨0 + n, hfirst.trans hends, hsame⟩

/-- The store after a rejection was noted has the same cells. -/
theorem cells_emitRejection (e : Encoder) (s : Store) (id : Nat) (reason : Rejection) :
    (e.emitRejection s id reason).2.cells = s.cells := by
  cases reason with
  | postpone r =>
    rw [emitRejection]
    dsimp only
    split <;> rfl
  | error cause =>
    rw [emitRejection, reportError]
    dsimp only
    split <;> rfl

theorem cells_abortTasks (e : Encoder) (s : Store) (reason : Rejection) :
    (e.abortTasks s reason).2.cells = s.cells := by
  unfold abortTasks
  split
  · rfl
  · exact cells_emitRejection _ s _ reason

theorem cells_flush (e : Encoder) (s : Store) : (e.flush s).2.cells = s.cells := by
  unfold flush
  split
  · rfl
  · dsimp only
    split <;> rfl

/-- **Every open stream's source is cancelled** by an abort. -/
theorem isCancelled_abortStreams (reason : Rejection) {task : Task} (htask : task ∈ e.streams)
    (hmodel : task.model = .cell c) (hc : (s.stream? c).isSome) :
    (e.abortStreams s reason).2.IsCancelled c := by
  -- each stream in turn: the others stay streams, and what was cancelled stays so
  have fold : ∀ (f : Encoder × Store → Task → Encoder × Store) (streams : List Task) (x :
      Encoder × Store), (∀ x task, ((f x task).2.stream? c).isSome = (x.2.stream? c).isSome ∧
        (x.2.IsCancelled c → (f x task).2.IsCancelled c) ∧
        (task.model = .cell c → (x.2.stream? c).isSome → (f x task).2.IsCancelled c)) →
      (x.2.IsCancelled c ∨ task ∈ streams ∧ (x.2.stream? c).isSome) →
        (streams.foldl f x).2.IsCancelled c := by
    intro f streams
    induction streams with
    | nil =>
      rintro x - (h | ⟨h, -⟩)
      · exact h
      · cases h
    | cons t streams ih =>
      rintro x hf h
      obtain ⟨hsome, hkeeps, hcancels⟩ := hf x t
      refine ih (f x t) hf ?_
      rcases h with h | ⟨hmem, hx⟩
      · exact .inl (hkeeps h)
      · rcases List.mem_cons.mp hmem with rfl | hmem
        · exact .inl (hcancels hmodel hx)
        · exact .inr ⟨hmem, hsome ▸ hx⟩
  unfold abortStreams
  refine fold _ e.streams ({ e with streams := [] }, s) ?_ (.inr ⟨htask, hc⟩)
  rintro ⟨e, s⟩ t
  generalize (if reason.isPostpone = true then Rejection.abortedByPostpone else reason) = reason
  have hcells := cells_emitRejection e s t.id reason
  have hsame := Store.stream?_congr hcells
  dsimp only
  split
  · rename_i c' hc'
    refine ⟨by rw [Store.isSome_stream?_cancel, hsame], ?_, ?_⟩
    · rintro ⟨st, hst, hcancelled⟩
      exact Store.IsCancelled.cancel ⟨st, (hsame c).trans hst, hcancelled⟩ c' reason
    · intro hc hsome
      obtain rfl := Value.cell.inj (hc'.symm.trans hc)
      exact Store.isCancelled_cancel (by rwa [hsame]) reason
  · rename_i hother
    refine ⟨by rw [hsame], ?_, fun h => absurd h (hother c)⟩
    rintro ⟨st, hst, hcancelled⟩
    exact ⟨st, (hsame c).trans hst, hcancelled⟩

/-- **What an abort queues**: behind everything else, the rows that answer for all that is
outstanding. -/
theorem answers_answerAll (L : Ledger.Closed out e) (s : Store) (reason : Option Rejection) :
    ∃ n, Answers e (e.answerAll s reason).1 (e.abortRows (reason.getD .aborted)) n ∧
      (e.answerAll s reason).1.streams = [] ∧ (e.answerAll s reason).1.abortable = [] := by
  let e₀ : Encoder := { e with status := .aborting }
  obtain ⟨htasks, hstreams, hforgot⟩ := answers_abortTasks (e := e₀)
    (L.abortable.nodup_iff.mpr L.nodup_taskIds) L.abortable s (reason.getD .aborted)
  obtain ⟨n, hends, hnone, hkept⟩ := answers_abortStreams (e₀.abortTasks s (reason.getD .aborted)).1
    (e₀.abortTasks s (reason.getD .aborted)).2 (reason.getD .aborted)
  have hfirst : Answers e e₀ [] 0 := ⟨rfl, rfl, rfl, (List.append_nil _).symm, rfl, rfl, rfl⟩
  rw [htasks.endRows, htasks.errorCount, hstreams] at hends
  have hall := (hfirst.trans htasks).trans hends
  rw [hfirst.endRows] at hall
  have hrows : e.abortRows (reason.getD .aborted) = [] ++ e₀.taskRows (reason.getD .aborted) ++
      e.endRows (streamReason (reason.getD .aborted))
        (e₀.errorCount + if e₀.tasks.isEmpty then 0 else e₀.reports (reason.getD .aborted))
          e₀.streams := by
    have hbody : e₀.taskRows (reason.getD .aborted) = e.taskRows (reason.getD .aborted) := by
      rw [taskRows, taskRows, hfirst.rejectionBody]
    have hcount :
        (e₀.errorCount + if e₀.tasks.isEmpty then 0 else e₀.reports (reason.getD .aborted)) =
        if e.tasks.isEmpty then e.errorCount else e.errorCount + e.reports
          (reason.getD .aborted) := by
      rw [hfirst.reports]
      show (e.errorCount + if e.tasks.isEmpty then 0 else e.reports (reason.getD .aborted)) = _
      split <;> rfl
    rw [hbody, hcount, List.nil_append, abortRows, streamRows]
  rw [← hrows] at hall
  exact ⟨_, ⟨hall.imports, hall.hints, hall.regular, hall.errors, hall.config, hall.digest,
    hall.errorCount⟩, hnone, hkept.trans hforgot⟩

/-! ### Sending it all -/

/-- A sink that always wants more is given all that is queued. -/
theorem queues_flush_of_ready (hsink : e.sink = some i) (h : ∀ m n, (s.sink i).ready m n = true) :
    (e.flush s).1.imports = [] ∧ (e.flush s).1.hints = [] ∧ (e.flush s).1.regular = [] ∧
      (e.flush s).1.errors = [] := by
  have poured : ∀ (counted : Bool) (o : Outflow) (rows : List Row),
      (∀ m n, o.sink.ready m n = true) →
      ∃ o', o.pour counted rows = ([], true, o') ∧ ∀ m n, o'.sink.ready m n = true := by
    intro counted o rows ho
    obtain ⟨sent, -, hsends, hall⟩ := Outflow.exists_pour counted o rows
    have hready := @Outflow.pour_of_ready counted o ho rows
    refine ⟨(o.pour counted rows).2.2, ?_, fun m n => by rw [hsends.answers, ho]⟩
    rw [← hall hready, ← hready]
  obtain ⟨o₁, h₁, hready₁⟩ := poured true ⟨e.pending, e.batch, s.sink i⟩ e.imports h
  obtain ⟨o₂, h₂, hready₂⟩ := poured false o₁ e.hints hready₁
  obtain ⟨o₃, h₃, hready₃⟩ := poured true o₂ e.regular hready₂
  obtain ⟨o₄, h₄, -⟩ := poured true o₃ e.errors hready₃
  unfold flush
  rw [hsink]
  simp only [h₁, h₂, h₃, h₄, Outflow.pourIf, if_true]
  split <;> exact ⟨rfl, rfl, rfl, rfl⟩

theorem around_answerAll (L : Ledger.Closed out e) (s : Store) (reason : Option Rejection) :
    Around.of (e.answerAll s reason).1 (e.answerAll s reason).2 =
      Around.of { e with status := .aborting } s :=
  (Flows.abortStreams (Flows.abortTasks ⟨L.congr {}, rfl⟩ (reason.getD .aborted))
    (reason.getD .aborted)).2

/-- No row was written for a task, and none with the next id. -/
theorem no_row_of_owed (L : Ledger.Closed out e) {id : Nat}
    (h : id = e.refs.nextId ∨ id ∈ e.taskIds) : ∀ r ∈ out ++ e.queued, r.id ≠ id := by
  have hnone : rowsOf id (e.allRows out) = [] := by
    rcases h with rfl | h
    · cases L.account e.refs.nextId with
      | unused _ hrows => exact hrows
      | owed hid | told hid | begun hid | ended hid => exact absurd hid (Nat.lt_irrefl _)
    · exact ((L.account id).eq_owed (List.count_pos_iff.mpr h).ne').2.1
  have hall : out ++ e.queued = e.allRows out := by simp only [queued, allRows, List.append_assoc]
  intro r hr hid
  have hmem : r ∈ rowsOf id (e.allRows out) := List.mem_filter.mpr ⟨hall ▸ hr, by simp [hid]⟩
  rw [hnone] at hmem
  cases hmem

theorem nextId_notMem_taskIds (L : Ledger.Closed out e) : e.refs.nextId ∉ e.taskIds := fun h =>
  Nat.lt_irrefl _ ((L.account e.refs.nextId).eq_owed (List.count_pos_iff.mpr h).ne').1

/-- After an abort has answered for everything there is nothing to work on. -/
theorem idle_answerAll (h : Flows i taken e s) (hopen : e.status ≠ .closed)
    (reason : Option Rejection) :
    (e.answerAll s reason).1.tasks = [] ∧ (e.answerAll s reason).1.streams = [] := by
  obtain ⟨out, -, L, -⟩ := h.exists_books
  obtain ⟨out', -, L', -⟩ := (h.answerAll hopen reason).2.exists_books
  obtain ⟨-, -, hstreams, habortable⟩ := answers_answerAll L s reason
  have hkept := L'.abortable
  rw [habortable] at hkept
  exact ⟨List.map_eq_nil_iff.mp hkept.nil_eq.symm, hstreams⟩

end Encoder

/-- What an encoder with a sink has sent. -/
theorem Flows.exists_sent (h : Flows i taken e s) (hsink : e.sink = some i) :
    ∃ out, Ledger.Closed out e ∧ taken ++ (s.sink i).bytes = out.flatMap Row.encode := by
  cases h with
  | waiting _ hnone | ended _ hnone =>
    rw [hsink] at hnone
    cases hnone
  | flowing _ _ _ out L k hk hgiven => exact ⟨out, L, by rw [Store.sink_eq hk, hgiven]⟩

namespace Stage

variable {η : Type} {run : Force η} {i : Nat} {model : Value} {x y : Stage η}

/-- The stage after an abort. -/
def aborted (x : Stage η) (reason : Option Rejection) : Stage η :=
  ⟨⟨(x.encoder.abort x.store reason).1, (x.encoder.abort x.store reason).2, x.host⟩, x.taken⟩

/-- With nothing to work on, a flush into a sink that always wants more sends everything and
closes. -/
theorem flush_sends (h : Flows i taken e s) (hopen : e.status ≠ .closed) (hsink : e.sink = some i)
    (hidle : e.tasks = [] ∧ e.streams = []) (hready : ∀ m n, (s.sink i).ready m n = true) :
    ((e.flush s).2.sink i).bytes = (s.sink i).bytes ++
      (e.imports ++ e.hints ++ e.regular ++ e.errors).flatMap Row.encode ∧
      (e.flush s).1.pending = 0 ∧ (e.flush s).1.status = .closed := by
  obtain ⟨h₁, h₂, h₃, h₄⟩ := Encoder.queues_flush_of_ready hsink hready
  obtain ⟨a, b, c, d, sink, hsent, hsettled, hbytes, -⟩ := Encoder.exists_flush hsink s
  obtain ⟨out, L, k, hk, hbatch⟩ : ∃ out, Ledger.Closed out e ∧ ∃ k, s.sinks[i]? = some k ∧
      e.batch.view = [] := by
    cases h with
    | waiting _ hnone => rw [hsink] at hnone; cases hnone
    | flowing _ _ hbatch out L k hk => exact ⟨out, L, k, hk, hbatch⟩
    | ended hclosed => exact absurd hclosed hopen
  have hdone : (e.flush s).1.pending = 0 ∧ (e.flush s).1.hints = [] :=
    (L.send hsent).isDone_iff.mp (Encoder.isDone_iff.mpr
      ⟨⟨⟨hsent.tasks.trans hidle.1, hsent.streams.trans hidle.2⟩, h₁, h₃, h₄⟩, h₂⟩)
  obtain ⟨hclosed, -, hstore⟩ := hsettled.closed hdone.1 hdone.2 hopen
  refine ⟨?_, hdone.1, hclosed⟩
  have hafter : (e.flush s).2.sink i = sink.close := hstore ▸ Store.sink_eq
    (Store.sinks_setSink hk _)
  have hall : e.imports ++ e.hints ++ e.regular ++ e.errors = a ++ b ++ c ++ d := by
    rw [hsent.imports, hsent.hints, hsent.regular, hsent.errors, h₁, h₂, h₃, h₄]
    simp only [List.append_nil]
  rw [hafter, hall]
  show sink.bytes = _
  rw [hbytes, hbatch, List.append_nil]

theorem aborted_eq (hx : Sound i x) (hopen : x.encoder.status ≠ .closed)
    (hsink : x.encoder.sink = some i) (reason : Option Rejection) :
    x.aborted reason =
      ⟨⟨((x.encoder.answerAll x.store reason).1.flush (x.encoder.answerAll x.store reason).2).1,
      ((x.encoder.answerAll x.store reason).1.flush (x.encoder.answerAll x.store reason).2).2,
        x.host⟩, x.taken⟩ := by
  obtain ⟨out, -, L, -⟩ := Flows.exists_books hx
  have hsink' : (x.encoder.answerAll x.store reason).1.sink = x.encoder.sink :=
    (Around.mk.inj (Encoder.around_answerAll L x.store reason)).2.2.1
  rw [aborted, Encoder.abort_eq hopen, if_pos (by rw [hsink', hsink]; rfl)]

/-- **An abort sends everything and closes**, if the sink always wants more. -/
theorem abort_sends (hx : Sound i x) (hopen : x.encoder.status ≠ .closed)
    (hsink : x.encoder.sink = some i) (hready : ∀ m n, (x.store.sink i).ready m n = true)
    (reason : Option Rejection) :
    (x.aborted reason).given i =
        x.given i ++ (x.encoder.queued ++ x.encoder.abortRows (reason.getD .aborted)).flatMap
          Row.encode ∧
      (x.aborted reason).encoder.pending = 0 ∧ (x.aborted reason).encoder.status = .closed := by
  obtain ⟨out, -, L, -⟩ := Flows.exists_books hx
  obtain ⟨n, hanswers, -⟩ := Encoder.answers_answerAll L x.store reason
  obtain ⟨hsinks, -, hsink', -⟩ := Around.mk.inj (Encoder.around_answerAll L x.store reason)
  obtain ⟨hstatus, hflows⟩ := Flows.answerAll hx hopen reason
  have hsame : (x.encoder.answerAll x.store reason).2.sink i =
    x.store.sink i := by rw [Store.sink, hsinks, Store.sink]
  obtain ⟨hbytes, hpending, hclosed⟩ := flush_sends hflows hstatus (hsink'.trans hsink)
    (Encoder.idle_answerAll hx hopen reason) (hsame ▸ hready)
  rw [aborted_eq hx hopen hsink]
  refine ⟨?_, hpending, hclosed⟩
  rw [Stage.given, hbytes, hsame, hanswers.imports, hanswers.hints, hanswers.regular,
    hanswers.errors, ← List.append_assoc x.taken,
    ← List.append_assoc _ x.encoder.errors, Stage.given, Encoder.queued]

/-- A source that is a stream is cancelled with it. -/
theorem isCancelled_aborted (hx : Sound i x) (hopen : x.encoder.status ≠ .closed)
    (hsink : x.encoder.sink = some i) (reason : Option Rejection) {task : Task}
    (htask : task ∈ x.encoder.streams) (hmodel : task.model = .cell c)
    (hc : (x.store.stream? c).isSome) : (x.aborted reason).store.IsCancelled c := by
  obtain ⟨out, -, L, -⟩ := Flows.exists_books hx
  obtain ⟨-, hstreams, -⟩ := Encoder.answers_abortTasks
    (e := { x.encoder with status := .aborting })
    (L.abortable.nodup_iff.mpr L.nodup_taskIds) L.abortable x.store (reason.getD .aborted)
  have hcells := Encoder.cells_abortTasks { x.encoder with status := .aborting } x.store
    (reason.getD .aborted)
  have htask' : task ∈ ({ x.encoder with status := .aborting }.abortTasks x.store
      (reason.getD .aborted)).1.streams := by
    rw [hstreams]
    exact htask
  have hc' : (({ x.encoder with status := .aborting }.abortTasks x.store
      (reason.getD .aborted)).2.stream? c).isSome := by
    rw [Store.stream?_congr hcells]
    exact hc
  obtain ⟨st, hst, hcancelled⟩ := Encoder.isCancelled_abortStreams (reason.getD .aborted)
    htask' hmodel hc'
  rw [aborted_eq hx hopen hsink]
  exact ⟨st, (Store.stream?_congr (Encoder.cells_flush _ _) c).trans hst, hcancelled⟩

/-! ### How a sink answers -/

theorem ready_flush (h : Flows i taken e s) :
    ((e.flush s).2.sink i).ready = (s.sink i).ready := by
  cases h with
  | waiting _ hnone | ended _ hnone => rw [Flows.flush_of_none hnone]
  | flowing hopen hsink _ _ _ k hk =>
    obtain ⟨a, b, c, d, sink, -, hsettled, -, -, hready⟩ := Encoder.exists_flush hsink s
    have hset (sink') : (s.setSink i sink').sink i = sink' :=
      Store.sink_eq (Store.sinks_setSink hk _)
    by_cases hdone : (e.flush s).1.pending = 0 ∧ (e.flush s).1.hints = [] ∧ e.status ≠ .closed
    · rw [(hsettled.closed hdone.1 hdone.2.1 hdone.2.2).2.2, hset]
      exact hready
    · rw [(hsettled.kept hdone).2.2, hset]
      exact hready

/-- **A sink answers the same way all along**: no step changes when it wants more. -/
theorem Step.ready (hrun : Quiet run) (hx : Sound i x) (h : Step run i x y) :
    (y.store.sink i).ready = (x.store.sink i).ready := by
  let P : Encoder → Store → Prop := fun _ s => (s.sink i).ready = (x.store.sink i).ready
  have flushed : ∀ {e s}, x.Flushes run i e s → P e s → P (e.flush s).1 (e.flush s).2 :=
    fun hflush hs => (ready_flush (hflush.flows hrun hx)).trans hs
  cases h with
  | work h =>
    have handled {fuel : Nat} {s : Store} {y : Encoding η}
        (hslot : x.store.takeSlot x.encoder.slot = .ok s)
        (hy : Render.handleAll run fuel ⟨x.encoder, s, x.host⟩ = some ((), y)) :
          P y.encoder y.store := by
      obtain ⟨hsinks, -⟩ := Around.mk.inj (around_of_handleAll hrun hx hy)
      show (y.store.sink i).ready = _
      rw [Store.sink, hsinks, Store.sinks_takeSlot hslot, Store.sink]
    exact Render.work_elim (P := fun z => P z.encoder z.store) (Encoder.work_eq_some h)
      (fun _ => rfl) (fun _ y hslot hy _ => handled (y := y) hslot hy) fun _ _ hslot hy hflowing =>
        flushed (.work hslot hy hflowing) (handled hslot hy)
  | start h =>
    exact Encoder.startFlowing_elim (P := P) h (fun _ => rfl) fun hnone hopen =>
      flushed (.start hnone hopen) rfl
  | pull => exact Encoder.pull_elim (P := P) rfl fun hopen => flushed (.pull hopen) rfl
  | hint offer =>
    exact Encoder.hint_elim (P := P) rfl fun hnew hflowing => flushed (.hint hnew hflowing) rfl
  | abort reason =>
    have hanswered : P (x.encoder.answerAll x.store reason).1
        (x.encoder.answerAll x.store reason).2 := by
      obtain ⟨out, -, L, -⟩ := Flows.exists_books hx
      obtain ⟨hsinks, -⟩ := Around.mk.inj (Encoder.around_answerAll L x.store reason)
      show ((x.encoder.answerAll x.store reason).2.sink i).ready = _
      rw [Store.sink, hsinks, Store.sink]
    exact Encoder.abort_elim (P := P) (fun _ => rfl) (fun _ => hanswered) fun hopen =>
      flushed (.abort hopen) hanswered
  | outside h => rw [Store.sink, h, Store.sink]
  | take =>
    show ((x.store.setSink i (x.store.sink i).pop.2).sink i).ready = _
    have hpop : (x.store.sink i).pop.2.ready = (x.store.sink i).ready := by
      unfold Sink.pop
      split <;> rfl
    by_cases hi : i < x.store.sinks.size
    · rw [← hpop]
      simp [Store.sink, Store.setSink, hi]
    · rw [Store.sink, Store.setSink, Array.setIfInBounds_eq_of_size_le (Nat.not_lt.mp hi),
        Store.sink]

/-! ### Afterwards -/

/-- While an encoder is being aborted there is nothing to work on. -/
def Rests (e : Encoder) : Prop := e.status = .aborting → e.tasks = [] ∧ e.streams = []

theorem Rests.flush {e : Encoder} (h : Rests e) (s : Store) : Rests (e.flush s).1 := by
  intro haborting
  cases hsink : e.sink with
  | none =>
    rw [Flows.flush_of_none hsink] at haborting ⊢
    exact h haborting
  | some i =>
    obtain ⟨a, b, c, d, sink, hsent, hsettled, -⟩ := Encoder.exists_flush hsink s
    rw [hsent.tasks, hsent.streams]
    by_cases hdone : (e.flush s).1.pending = 0 ∧ (e.flush s).1.hints = [] ∧ e.status ≠ .closed
    · rw [(hsettled.closed hdone.1 hdone.2.1 hdone.2.2).1] at haborting
      cases haborting
    · exact h ((hsettled.kept hdone).1 ▸ haborting)

theorem Rests.step (hrun : Quiet run) (hx : Sound i x) (hrests : Rests x.encoder)
    (h : Step run i x y) : Rests y.encoder := by
  cases h with
  | work h =>
    have handled {fuel : Nat} {s : Store} {y : Encoding η}
        (hy : Render.handleAll run fuel ⟨x.encoder, s, x.host⟩ = some ((), y)) :
          Rests y.encoder := by
      intro haborting
      have hstatus : y.encoder.status = x.encoder.status :=
        (Around.mk.inj (around_of_handleAll hrun hx hy)).2.1
      obtain ⟨htasks, hstreams⟩ := hrests (hstatus ▸ haborting)
      rw [(Flows.handleAll_idle htasks hstreams x.host fuel ⟨x.encoder, s, x.host⟩ () y
        ⟨rfl, rfl⟩ hy).1]
      exact ⟨htasks, hstreams⟩
    exact Render.work_elim (P := fun z => Rests z.encoder) (Encoder.work_eq_some h)
      (fun _ => hrests) (fun _ y _ hy _ => handled (y := y) hy) fun _ y _ hy _ =>
        (handled hy).flush y.store
  | start h =>
    exact Encoder.startFlowing_elim (P := fun e _ => Rests e) h (fun _ => hrests) fun _ _ =>
      Rests.flush (e := { x.encoder with sink := some i, flowing := true }) hrests x.store
  | pull =>
    exact Encoder.pull_elim (P := fun e _ => Rests e) hrests fun _ =>
      Rests.flush (e := { x.encoder with flowing := true }) hrests x.store
  | hint offer =>
    have hqueue : Rests (x.encoder.queueHint offer).2 := by
      unfold Encoder.queueHint
      split <;> exact hrests
    exact Encoder.hint_elim (P := fun e _ => Rests e) hqueue fun _ _ => hqueue.flush x.store
  | abort reason =>
    have hanswered (hopen) : Rests (x.encoder.answerAll x.store reason).1 :=
      fun _ => Encoder.idle_answerAll hx hopen reason
    exact Encoder.abort_elim (P := fun e _ => Rests e) (fun _ => hrests) hanswered fun hopen =>
      (hanswered hopen).flush _
  | outside => exact hrests
  | take => exact hrests

/-- **While an encoder is being aborted there is nothing to work on**, so it renders nothing
whatever messages come. -/
theorem Reached.rests (hrun : Quiet run) (h : Reached run i model x) : Rests x.encoder := by
  induction h with
  | create =>
    rintro ⟨⟩
  | step hx h ih => exact ih.step hrun (hx.sound hrun) h

/-- **Nothing happens to a closed encoder and its sink**, whatever steps follow. -/
theorem Sound.of_closed (hrun : Quiet run) (hx : Sound i x) (hclosed : x.encoder.status = .closed)
    (h : Relation.ReflTransGen (Step run i) x y) :
    Sound i y ∧ y.encoder = x.encoder ∧ y.given i = x.given i := by
  induction h with
  | refl => exact ⟨hx, rfl, rfl⟩
  | tail _ h ih =>
    obtain ⟨hsound, hsame, hgiven⟩ := ih
    obtain ⟨hsame', hgiven'⟩ := h.of_closed hrun hsound (hsame ▸ hclosed)
    exact ⟨hsound.step hrun h, hsame'.trans hsame, hgiven'.trans hgiven⟩

end Stage

end GraphRows
