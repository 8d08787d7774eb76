import GraphRows.Proofs.Encoder.Owing

/-!
# What a flush sends

A flush takes a part off the front of each queue. A later queue gives up rows only when the earlier
ones are empty, so the rows that went out so far, followed by what is left, always read as if
everything had gone out at once. What the sink was given is the text of those rows, byte for byte,
and at the end of a flush nothing is left in the batch.

The books move with the rows: `out` grows by what was sent, and `pending` falls by what was owed of
it. When it reaches zero, nothing is left to send, and what went out is self-contained.

## Main results

* `Encoder.exists_flush`: a flush is a split of every queue
* `Ledger.send`: the books after a flush
-/

namespace GraphRows

variable {a b c d : List Row}

namespace Outflow

/-- The bytes that were given to the sink or are collected for it. -/
def bytes (o : Outflow) : Bytes := o.sink.bytes ++ o.batch.view

/-- From `o` to `o'`, rows were sent, `owed` of them owed. -/
structure Sends (o o' : Outflow) (owed : Nat) (rows : List Row) : Prop where
  bytes : o'.bytes = o.bytes ++ rows.flatMap Row.encode
  pending : o'.pending = o.pending - owed
  closes : o'.sink.closes = o.sink.closes
  answers : o'.sink.ready = o.sink.ready

theorem Sends.refl (o : Outflow) : Sends o o 0 [] := ⟨by simp, rfl, rfl, rfl⟩

theorem Sends.trans {o o' o'' : Outflow} {m n : Nat} {rows rows' : List Row} (h : Sends o o' m rows)
    (h' : Sends o' o'' n rows') : Sends o o'' (m + n) (rows ++ rows') := by
  refine ⟨?_, ?_, h'.closes.trans h.closes, h'.answers.trans h.answers⟩
  · rw [h'.bytes, h.bytes, List.flatMap_append, List.append_assoc]
  · rw [h'.pending, h.pending]
    omega

theorem complete_sink (b : Batch) (s : Sink) :
    (b.complete s).2.2.closes = s.closes ∧ (b.complete s).2.2.ready = s.ready := by
  unfold Batch.complete
  split <;> exact ⟨rfl, rfl⟩

theorem add_sink (b : Batch) (s : Sink) (row : Bytes) :
    (b.add s row).2.2.closes = s.closes ∧ (b.add s row).2.2.ready = s.ready := by
  unfold Batch.add
  split
  · exact complete_sink b s
  · split
    · exact complete_sink b s
    · exact ⟨rfl, rfl⟩

theorem sends_send (o : Outflow) (counted : Bool) (r : Row) :
    Sends o (o.send counted r).2 (if counted then 1 else 0) [r] := by
  refine ⟨?_, ?_, (add_sink _ _ _).1, (add_sink _ _ _).2⟩
  · rw [List.flatMap_singleton]
    exact Batch.bytes_add o.batch o.sink r.encode
  · cases counted <;> rfl

/-- Pouring a queue sends its front, and all of it unless the sink had enough. -/
theorem exists_pour (counted : Bool) (o : Outflow) (rows : List Row) :
    ∃ sent, rows = sent ++ (o.pour counted rows).1 ∧
      Sends o (o.pour counted rows).2.2 (if counted then sent.length else 0) sent ∧
      ((o.pour counted rows).2.1 = true → (o.pour counted rows).1 = []) := by
  induction rows generalizing o with
  | nil => exact ⟨[], rfl, by cases counted <;> exact .refl o, fun _ => rfl⟩
  | cons r rows ih =>
    have hsend := sends_send o counted r
    unfold pour
    split
    · rename_i o' heq
      rw [heq] at hsend
      obtain ⟨sent, hrows, hsent, hall⟩ := ih o'
      refine ⟨r :: sent, congrArg (r :: ·) hrows, ?_, hall⟩
      have := hsend.trans hsent
      cases counted <;> simpa [Nat.add_comm] using this
    · rename_i o' heq
      rw [heq] at hsend
      exact ⟨[r], rfl, by cases counted <;> exact hsend, nofun⟩

theorem exists_pourIf (o : Outflow) (ready counted : Bool) (rows : List Row) :
    ∃ sent, rows = sent ++ (o.pourIf ready counted rows).1 ∧
      Sends o (o.pourIf ready counted rows).2.2 (if counted then sent.length else 0) sent ∧
      ((o.pourIf ready counted rows).2.1 = true → (o.pourIf ready counted rows).1 = []) ∧
      (ready = false → sent = [] ∧ (o.pourIf ready counted rows).2.1 = false) := by
  cases ready with
  | true =>
    obtain ⟨sent, hrows, hsent, hall⟩ := exists_pour counted o rows
    exact ⟨sent, hrows, hsent, hall, nofun⟩
  | false => exact ⟨[], rfl, by cases counted <;> exact .refl o, nofun, fun _ => ⟨rfl, rfl⟩⟩

/-- A sink that always wants more is given everything. -/
theorem complete_of_ready {b : Batch} {s : Sink} (h : ∀ m n, s.ready m n = true) :
    (b.complete s).1 = true := by
  unfold Batch.complete
  split
  · rfl
  · exact h _ _

theorem add_of_ready {b : Batch} {s : Sink} (h : ∀ m n, s.ready m n = true) (row : Bytes) :
    (b.add s row).1 = true := by
  have hcomplete := complete_of_ready (b := b) h
  have hwrite : ((b.complete s).2.2.write row).1 = true := by
    rw [Sink.write, (complete_sink b s).2]
    exact h _ _
  unfold Batch.add
  split
  · exact Bool.and_eq_true_iff.mpr ⟨hwrite, hcomplete⟩
  · split
    · exact hcomplete
    · rfl

theorem pour_of_ready {counted : Bool} {o : Outflow} (h : ∀ m n, o.sink.ready m n = true)
    (rows : List Row) : (o.pour counted rows).2.1 = true := by
  induction rows generalizing o with
  | nil => rfl
  | cons r rows ih =>
    have hready : (o.send counted r).1 = true := add_of_ready h r.encode
    have hsends := sends_send o counted r
    unfold pour
    split
    · rename_i o' heq
      rw [heq] at hsends
      exact ih fun m n => by rw [hsends.answers, h]
    · rename_i o' heq
      rw [heq] at hready
      cases hready

end Outflow

namespace Encoder

/-- Rows went out: `a`, `b`, `c` and `d` off the fronts of the four queues, regular rows and errors
only behind all imports, and errors only behind all regular rows. -/
structure Sent (e e' : Encoder) (a b c d : List Row) : Prop where
  imports : e.imports = a ++ e'.imports
  hints : e.hints = b ++ e'.hints
  regular : e.regular = c ++ e'.regular
  errors : e.errors = d ++ e'.errors
  ordered : d = [] ∨ e'.regular = []
  behind : (c = [] ∧ d = []) ∨ e'.imports = []
  pending : e'.pending = e.pending - (a.length + c.length + d.length)
  tasks : e'.tasks = e.tasks
  abortable : e'.abortable = e.abortable
  streams : e'.streams = e.streams
  nextId : e'.refs.nextId = e.refs.nextId
  remembered : e'.remembered = e.remembered

/-- What a flush leaves of the store and the sink: the sink is closed and let go when nothing is
owed and no hint waits. -/
structure Settled (e e' : Encoder) (s s' : Store) (i : Nat) (sink : Sink) : Prop where
  batch : e'.batch.view = []
  closed : e'.pending = 0 → e'.hints = [] → e.status ≠ .closed →
    e'.status = .closed ∧ e'.sink = none ∧ s' = s.setSink i sink.close
  kept : ¬ (e'.pending = 0 ∧ e'.hints = [] ∧ e.status ≠ .closed) →
    e'.status = e.status ∧ e'.sink = some i ∧ s' = s.setSink i sink

/-- **A flush sends the fronts of the queues**, and the sink has their text. -/
theorem exists_flush {e : Encoder} {i : Nat} (hsink : e.sink = some i) (s : Store) :
    ∃ a b c d sink, Sent e (e.flush s).1 a b c d ∧ Settled e (e.flush s).1 s (e.flush s).2 i sink ∧
      sink.bytes = (s.sink i).bytes ++ e.batch.view ++ (a ++ b ++ c ++ d).flatMap Row.encode ∧
      sink.closes = (s.sink i).closes ∧ sink.ready = (s.sink i).ready := by
  obtain ⟨a, ha, sa, ea⟩ := Outflow.exists_pour true ⟨e.pending, e.batch, s.sink i⟩ e.imports
  generalize hpa : Outflow.pour true ⟨e.pending, e.batch, s.sink i⟩ e.imports = pa at ha sa ea
  obtain ⟨imports, ra, oa⟩ := pa
  obtain ⟨b, hb, sb, eb, nb⟩ := Outflow.exists_pourIf oa ra false e.hints
  generalize hpb : oa.pourIf ra false e.hints = pb at hb sb eb nb
  obtain ⟨hints, rb, ob⟩ := pb
  obtain ⟨c, hc, sc, ec, nc⟩ := Outflow.exists_pourIf ob rb true e.regular
  generalize hpc : ob.pourIf rb true e.regular = pc at hc sc ec nc
  obtain ⟨regular, rc, oc⟩ := pc
  obtain ⟨d, hd, sd, -, nd⟩ := Outflow.exists_pourIf oc rc true e.errors
  generalize hpd : oc.pourIf rc true e.errors = pd at hd sd nd
  obtain ⟨errors, rd, od⟩ := pd
  have hbytes := Batch.bytes_complete od.batch od.sink
  have hview : (od.batch.complete od.sink).2.1.view = [] := by
    unfold Batch.complete
    split <;> simp_all
  have hclean := Outflow.complete_sink od.batch od.sink
  generalize hpe : od.batch.complete od.sink = pe at hbytes hview hclean
  obtain ⟨wanted, batch, sink⟩ := pe
  dsimp only at *
  have hflush : e.flush s =
      if od.pending == 0 && hints.isEmpty && e.status != .closed then
        ({ e with
            imports, hints, regular, errors, batch, pending := od.pending, flowing :=
              e.flowing && rd && wanted
            status := .closed, sink := none }, s.setSink i sink.close)
      else
        ({ e with
            imports, hints, regular, errors, batch, pending := od.pending, flowing :=
              e.flowing && rd && wanted },
          s.setSink i sink) := by
    unfold flush
    rw [hsink]
    simp only [hpa, hpb, hpc, hpd, hpe]
  have hsends := ((sa.trans sb).trans sc).trans sd
  have hordered : d = [] ∨ regular = [] := by
    cases rc with
    | true => exact .inr (ec rfl)
    | false => exact .inl (nd rfl).1
  have hbehind : (c = [] ∧ d = []) ∨ imports = [] := by
    cases ra with
    | true => exact .inr (ea rfl)
    | false =>
      -- what the sink does not want any more stays queued
      obtain ⟨hc, hrc⟩ := nc (nb rfl).2
      exact .inl ⟨hc, (nd hrc).1⟩
  have hpending : od.pending = e.pending - (a.length + c.length + d.length) := by
    have := hsends.pending
    simpa using this
  refine ⟨a, b, c, d, sink, ?_, ?_, ?_, hclean.1.trans hsends.closes, hclean.2.trans hsends.answers⟩
  · rw [hflush]
    split <;> exact ⟨ha, hb, hc, hd, hordered, hbehind, hpending, rfl, rfl, rfl, rfl, rfl⟩
  · rw [hflush]
    split
    · rename_i hdone
      simp only [Bool.and_eq_true, beq_iff_eq, List.isEmpty_iff, bne_iff_ne] at hdone
      exact ⟨hview, fun _ _ _ => ⟨rfl, rfl, rfl⟩, fun h => absurd ⟨hdone.1.1, hdone.1.2, hdone.2⟩ h⟩
    · rename_i hdone
      simp only [Bool.and_eq_true, beq_iff_eq, List.isEmpty_iff, bne_iff_ne] at hdone
      exact ⟨hview, fun h h' h'' => absurd ⟨⟨h, h'⟩, h''⟩ hdone, fun _ => ⟨rfl, hsink, rfl⟩⟩
  · rw [hview, List.append_nil] at hbytes
    rw [hbytes]
    exact hsends.bytes

end Encoder

namespace Covered

open Encoder

variable {said : Nat → Prop} {out : List Row} {owed ends : List Nat} {e e' : Encoder}

/-- A place in two lists put together is a place in one of them. -/
theorem append_eq_split {α : Type} {l m x y : List α} {r : α} (h : l ++ m = x ++ r :: y) :
    (∃ y', l = x ++ r :: y' ∧ y = y' ++ m) ∨ ∃ x', x = l ++ x' ∧ m = x' ++ r :: y := by
  rcases List.append_eq_append_iff.mp h with ⟨x', hx, hm⟩ | ⟨y', hl, hy⟩
  · exact .inr ⟨x', hx, hm⟩
  · cases y' with
    | nil => exact .inr ⟨[], by simpa using hl.symm, by simpa using hy.symm⟩
    | cons z y' =>
      obtain ⟨rfl, rfl⟩ := List.cons.inj hy
      exact .inl ⟨y', hl, rfl⟩

theorem mem_allRows_of_sent (h : Sent e e' a b c d) {r : Row} :
    r ∈ e'.allRows (out ++ (a ++ b ++ c ++ d)) ↔ r ∈ e.allRows out := by
  simp only [allRows, h.imports, h.hints, h.regular, h.errors, List.mem_append]
  grind

/-- A stream opened in `out` or among the regular rows that were sent has its end behind it
still. -/
theorem opened_send (C : Covered said out owed ends e) (h : Sent e e' a b c d) :
    ∀ x r y, (out ++ (a ++ b ++ c ++ d)) ++ e'.regular = x ++ r :: y → r.body.isOpening →
      e'.Ends ends r.id y := by
  intro x r y hsplit hopen
  -- wherever the stream was opened, the rows behind it in the old order are still behind it, or
  -- among the errors left
  have moved : ∀ x' y', out ++ e.regular = x' ++ r :: y' →
      (∀ z ∈ y' ++ e.errors, z ∈ y ++ e'.errors) → e'.Ends ends r.id y := by
    intro x' y' hold hlater
    rcases C.opened x' r y' hold hopen with ⟨z, hz, hend⟩ | hend | hend
    · exact .inl ⟨z, hlater z hz, hend⟩
    · exact .inr (.inl (h.streams ▸ hend))
    · exact .inr (.inr hend)
  have unopened : ∀ z ∈ a ++ b ++ d, z.body.isOpening = false := by
    intro z hz
    refine C.placed z ?_
    rw [h.imports, h.hints, h.errors]
    simp only [List.mem_append] at hz ⊢
    grind
  simp only [List.append_assoc] at hsplit
  rcases append_eq_split hsplit with ⟨y', hout, rfl⟩ | ⟨x₁, -, h₁⟩
  · refine moved x (y' ++ e.regular) (by rw [hout]; simp) fun z hz => ?_
    simp only [h.regular, h.errors, List.mem_append] at hz ⊢
    grind
  rcases append_eq_split h₁ with ⟨y', ha, -⟩ | ⟨x₂, -, h₂⟩
  · simp [unopened r (by simp [ha])] at hopen
  rcases append_eq_split h₂ with ⟨y', hb, -⟩ | ⟨x₃, -, h₃⟩
  · simp [unopened r (by simp [hb])] at hopen
  rcases append_eq_split h₃ with ⟨y', hc, rfl⟩ | ⟨x₄, -, h₄⟩
  · refine moved (out ++ x₃) (y' ++ e'.regular) (by rw [h.regular, hc]; simp) fun z hz => ?_
    simp only [h.errors, List.mem_append] at hz ⊢
    grind
  rcases append_eq_split h₄ with ⟨y', hd, -⟩ | ⟨x₅, -, h₅⟩
  · simp [unopened r (by simp [hd])] at hopen
  · obtain rfl : d = [] := h.ordered.resolve_right (by simp [h₅])
    refine moved (out ++ c ++ x₅) y (by rw [h.regular, h₅]; simp) fun z hz => ?_
    rwa [h.errors, List.nil_append] at hz

/-- What is provided for stays so when rows are sent. -/
theorem send (C : Covered said out owed ends e) (h : Sent e e' a b c d) :
    Covered said (out ++ (a ++ b ++ c ++ d)) owed ends e' := by
  refine ⟨fun id hid => ?_, C.opened_send h, ?_, ?_, h.tasks ▸ C.ready,
    fun r hr => C.safe r ((mem_allRows_of_sent h).mp hr)⟩
  · have hold : e.Speaks out id ∨ said id := by
      refine hid.imp_left fun hid => ?_
      cases hid with
      | root => exact .root
      | row hr hm => exact .row ((mem_allRows_of_sent h).mp hr) hm
      | memory hid => exact .memory (h.remembered ▸ hid)
    rcases C.provides id hold with ⟨r, hr, hvalue⟩ | hid | hid
    · exact .inl ⟨r, (mem_allRows_of_sent h).mpr hr, hvalue⟩
    · exact .inr (.inl (h.tasks ▸ hid))
    · exact .inr (.inr hid)
  · intro r hr
    refine C.placed r ?_
    rw [h.imports, h.hints, h.errors]
    simp only [List.mem_append] at hr ⊢
    grind
  · rw [h.streams]
    exact C.sources

end Covered

namespace Accounts

open Encoder

variable {out : List Row} {own due ends : List Nat} {e e' : Encoder} {a b c d : List Row}

/-- The rows of an id after some went out are the same. -/
theorem rowsOf_sent_perm (h : Sent e e' a b c d) (id : Nat) :
    (rowsOf id (e'.allRows (out ++ (a ++ b ++ c ++ d)))).Perm (rowsOf id (e.allRows out)) := by
  classical
  rw [List.perm_iff_count]
  intro r
  simp only [allRows, h.imports, h.hints, h.regular, h.errors, rowsOf_append, List.count_append]
  omega

/-- They are in the same order, unless some go out early. -/
theorem rowsOf_sent (h : Sent e e' a b c d) {id : Nat} (himports : rowsOf id e.imports = [])
    (hhints : rowsOf id e.hints = []) :
    rowsOf id (e'.allRows (out ++ (a ++ b ++ c ++ d))) = rowsOf id (e.allRows out) := by
  simp only [h.imports, h.hints, rowsOf_append, List.append_eq_nil_iff] at himports hhints
  have hordered : rowsOf id d ++ rowsOf id e'.regular = rowsOf id e'.regular ++ rowsOf id d := by
    rcases h.ordered with rfl | hnone
    · simp
    · simp [hnone]
  simp only [allRows, h.imports, h.hints, h.regular, h.errors, rowsOf_append, himports.1,
    himports.2, hhints.1, hhints.2, List.nil_append, List.append_assoc]
  rw [← List.append_assoc (rowsOf id d), hordered, List.append_assoc]

/-- **The accounts after rows were sent**: each row that went out is owed no more. -/
theorem send (A : Accounts out own due ends e) (h : Sent e e' a b c d) :
    Accounts (out ++ (a ++ b ++ c ++ d)) own due ends e' := by
  refine ⟨?_, ?_, fun id => ?_⟩
  · have hpending := A.pending
    simp only [debt, h.imports, h.regular, h.errors, List.length_append] at hpending
    simp only [debt, h.tasks, h.streams, h.pending, List.length_append]
    omega
  · simpa only [h.abortable, taskIds, h.tasks] using A.abortable
  · have howed : (e'.standing (out ++ (a ++ b ++ c ++ d)) own due ends id).owed =
        (e.standing out own due ends id).owed := by
      simp only [standing, taskIds, h.tasks]
    have hlive : (e'.standing (out ++ (a ++ b ++ c ++ d)) own due ends id).live =
        (e.standing out own due ends id).live := by
      simp only [standing, streamIds, h.streams]
    have hperm : (e'.standing (out ++ (a ++ b ++ c ++ d)) own due ends id).rows.Perm
        (e.standing out own due ends id).rows :=
      rowsOf_sent_perm h id
    -- a stream has no early rows, so its rows stay in their order
    have hstream : (e.standing out own due ends id).early = [] →
        (e'.standing (out ++ (a ++ b ++ c ++ d)) own due ends id).early = [] ∧
          (e'.standing (out ++ (a ++ b ++ c ++ d)) own due ends id).rows =
            (e.standing out own due ends id).rows := by
      intro hearly
      obtain ⟨himports, hhints⟩ := List.append_eq_nil_iff.mp hearly
      refine ⟨?_, rowsOf_sent h himports hhints⟩
      simp only [h.imports, h.hints, rowsOf_append, List.append_eq_nil_iff] at himports hhints
      simp [standing, himports.2, hhints.2]
    rw [h.nextId]
    cases A.account id with
    | unused hid hrows h₀ h₁ =>
      exact .unused hid (hrows ▸ hperm).eq_nil (howed.trans h₀) (hlive.trans h₁)
    | owed hid hrows h₀ h₁ =>
      exact .owed hid (hrows ▸ hperm).eq_nil (howed.trans h₀) (hlive.trans h₁)
    | told hid r hrows hr h₀ h₁ =>
      exact .told hid r (List.perm_singleton.mp (hrows ▸ hperm)) hr (howed.trans h₀)
        (hlive.trans h₁)
    | begun hid hearly hlate hrows h₀ h₁ =>
      have hlate' : rowsOf id e'.errors = [] := by
        simp only [standing, h.errors, rowsOf_append, List.append_eq_nil_iff] at hlate
        exact hlate.2
      obtain ⟨hearly', hsame⟩ := hstream hearly
      exact .begun hid hearly' hlate' (hsame ▸ hrows) (howed.trans h₀) (hlive.trans h₁)
    | ended hid hearly hrows h₀ h₁ =>
      obtain ⟨hearly', hsame⟩ := hstream hearly
      exact .ended hid hearly' (hsame ▸ hrows) (howed.trans h₀) (hlive.trans h₁)

/-- **Sending never counts below zero**: all rows that were sent and count were counted. -/
theorem sent_le (A : Accounts out own due ends e) (h : Sent e e' a b c d) :
    a.length + c.length + d.length ≤ e.pending := by
  have hpending := A.pending
  simp only [debt, h.imports, h.regular, h.errors, List.length_append] at hpending
  omega

end Accounts

/-- **The books after rows were sent.** -/
theorem Ledger.send {said : Nat → Prop} {out : List Row} {own due ends : List Nat} {e e' : Encoder}
    (L : Ledger said out own due ends e) (h : Encoder.Sent e e' a b c d) :
    Ledger said (out ++ (a ++ b ++ c ++ d)) own due ends e' :=
  ⟨L.toAccounts.send h, L.toCovered.send h⟩

end GraphRows
