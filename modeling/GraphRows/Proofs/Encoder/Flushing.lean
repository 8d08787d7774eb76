import GraphRows.Proofs.Encoder.Closing

/-!
# Flushing under any answers

A flush takes rows off the queues one by one and adds them to the batch until the sink answers no,
and then sends what the batch holds. The four queues count differently but are poured alike, so a
flush is one pass over the rows that wait, in the order in which they go out: `Drained` is that
pass, started on nothing and continued queue by queue.

What the sink is given is told by `Grouped`: the chunks so far are groups of whole rows, and the
batch holds the rows of the group that comes next. A row that is longer than the batch goes out in a
group of its own.

Whether the sink answered no while a row was added is said of the sink alone (`Batch.HearsNo`), not
of what the batch returns: an answer may concern a chunk that was collected before the row.

## Main results

* `Encoder.exists_flushed`: what one flush does
* `flushing_loses_nothing`: a sink attached and then asked for more is given all rows, whatever it
  answers
-/

namespace GraphRows

variable {taken : Bytes} {e : Encoder} {i : Nat} {s : Store}

namespace Sink

/-- The answers to chunks that are given one after the other. -/
def answers (k : Sink) : List Bytes → List Bool
  | [] => []
  | c :: rest => (k.write c).1 :: answers (k.write c).2 rest

/-- The sink after chunks were given to it. -/
def writeAll (k : Sink) (chunks : List Bytes) : Sink := chunks.foldl (fun k c => (k.write c).2) k

theorem chunks_writeAll (k : Sink) (chunks : List Bytes) :
    (k.writeAll chunks).chunks = k.chunks ++ chunks := by
  induction chunks generalizing k with
  | nil => simp [writeAll]
  | cons c rest ih =>
    refine (ih (k.write c).2).trans ?_
    simp [write]

theorem answers_append (k : Sink) (chunks more : List Bytes) :
    k.answers (chunks ++ more) = k.answers chunks ++ (k.writeAll chunks).answers more := by
  induction chunks generalizing k with
  | nil => rfl
  | cons c rest ih => exact congrArg _ (ih (k.write c).2)

end Sink

namespace Batch

/-- Add rows one by one. -/
def addAll (x : Batch × Sink) (rows : List Row) : Batch × Sink :=
  rows.foldl (fun x r => (x.1.add x.2 r.encode).2) x

theorem addAll_append (x : Batch × Sink) (rows more : List Row) :
    addAll x (rows ++ more) = addAll (addAll x rows) more :=
  List.foldl_append ..

/-- The sink answers no to something it is given while a row is added. -/
def HearsNo (x : Batch × Sink) (r : Row) : Prop :=
  ∃ chunks, (x.1.add x.2 r.encode).2.2.chunks = x.2.chunks ++ chunks ∧ false ∈ x.2.answers chunks

/-- The chunks that are sent when a batch is completed. -/
def pendingChunks (b : Batch) : List Bytes := if b.view.isEmpty then [] else [b.view]

theorem complete_eq (b : Batch) (k : Sink) :
    b.complete k = (!(k.answers b.pendingChunks).contains false, { b with view := [] },
      k.writeAll b.pendingChunks) := by
  obtain ⟨view, size⟩ := b
  cases view with
  | nil => rfl
  | cons c view =>
    rcases hwrite : k.write (c :: view) with ⟨ready, k'⟩
    cases ready <;> simp [complete, pendingChunks, Sink.answers, Sink.writeAll, hwrite]

/-- **What adding a row answers is what the sink answered** meanwhile. -/
theorem exists_add (b : Batch) (k : Sink) (row : Bytes) :
    ∃ chunks, (b.add k row).2.2 = k.writeAll chunks ∧
      ((b.add k row).1 = false ↔ false ∈ k.answers chunks) := by
  unfold add
  split
  · refine ⟨b.pendingChunks ++ [row], ?_, ?_⟩
    · simp [complete_eq, Sink.writeAll]
    · cases hwrite : ((k.writeAll b.pendingChunks).write row).1 <;>
        simp [complete_eq, Sink.answers_append, Sink.answers, hwrite]
  · split
    · refine ⟨b.pendingChunks, ?_, ?_⟩
      · simp [complete_eq]
      · simp [complete_eq]
    · exact ⟨[], rfl, by simp [Sink.answers]⟩

theorem hearsNo_iff {x : Batch × Sink} {r : Row} :
    HearsNo x r ↔ (x.1.add x.2 r.encode).1 = false := by
  obtain ⟨chunks, hsink, hanswer⟩ := exists_add x.1 x.2 r.encode
  rw [hanswer, HearsNo, hsink, Sink.chunks_writeAll]
  constructor
  · rintro ⟨chunks', hsame, hno⟩
    rwa [List.append_cancel_left hsame]
  · exact fun hno => ⟨chunks, rfl, hno⟩

end Batch

/-! ### Chunks are groups of rows -/

/-- Rows that may go out as one chunk: a single row, or rows that together fit the size. -/
def IsGroup (size : Nat) (rows : List Row) : Prop :=
  (∃ r, rows = [r]) ∨ rows ≠ [] ∧ (rows.flatMap Row.encode).length ≤ size

/-- Since a sink held `old`, it was given groups of rows, and the batch holds the rows of the next
one. -/
structure Grouped (size : Nat) (old : List Bytes) (groups : List (List Row)) (held : List Row)
    (x : Batch × Sink) : Prop where
  chunks : x.2.chunks = old ++ groups.map (·.flatMap Row.encode)
  sized : ∀ g ∈ groups, IsGroup size g
  view : x.1.view = held.flatMap Row.encode
  fits : (held.flatMap Row.encode).length ≤ size
  size : x.1.size = size

theorem Row.encode_ne_nil (r : Row) : r.encode ≠ [] := by
  unfold Row.encode Frame.encode Frame.header
  split <;> simp

namespace Grouped

variable {size : Nat} {old : List Bytes} {groups : List (List Row)} {held : List Row}
  {x : Batch × Sink}

/-- The group that the batch holds, if it holds rows. -/
def heldGroups (held : List Row) : List (List Row) := if held.isEmpty then [] else [held]

theorem flatten_heldGroups (held : List Row) : (heldGroups held).flatten = held := by
  cases held <;> simp [heldGroups]

theorem isGroup_of_mem_heldGroups (h : Grouped size old groups held x) :
    ∀ g ∈ heldGroups held, IsGroup size g := by
  intro g hg
  cases held with
  | nil => simp [heldGroups] at hg
  | cons r rows =>
    obtain rfl : g = r :: rows := by simpa [heldGroups] using hg
    exact .inr ⟨List.cons_ne_nil r rows, h.fits⟩

theorem pendingChunks (h : Grouped size old groups held x) :
    x.1.pendingChunks = (heldGroups held).map (·.flatMap Row.encode) := by
  rw [Batch.pendingChunks, h.view]
  cases held with
  | nil => rfl
  | cons r rows => simp [heldGroups, r.encode_ne_nil]

/-- Completing the batch sends what it holds as a group. -/
theorem complete (h : Grouped size old groups held x) :
    Grouped size old (groups ++ heldGroups held) [] (x.1.complete x.2).2 := by
  rw [Batch.complete_eq]
  refine ⟨?_, ?_, rfl, Nat.zero_le _, h.size⟩
  · rw [Sink.chunks_writeAll, h.chunks, h.pendingChunks, List.map_append, List.append_assoc]
  · exact fun g hg => (List.mem_append.mp hg).elim (h.sized g) (h.isGroup_of_mem_heldGroups g)

/-- **A row joins the group that the batch holds, or starts the next one, or is one by itself.** -/
theorem add (h : Grouped size old groups held x) (r : Row) :
    ∃ groups' held', groups'.flatten ++ held' = groups.flatten ++ held ++ [r] ∧
      Grouped size old groups' held' (x.1.add x.2 r.encode).2 := by
  have hcomplete := h.complete
  unfold Batch.add
  split
  · -- a row that is too long for the batch goes out alone
    refine ⟨groups ++ heldGroups held ++ [[r]],
      [], by simp [flatten_heldGroups], ?_, ?_, hcomplete.view, hcomplete.fits,
      hcomplete.size⟩
    · simp [Sink.write, hcomplete.chunks]
    · exact fun g hg => (List.mem_append.mp hg).elim (hcomplete.sized g) fun hg =>
        .inl ⟨r, List.mem_singleton.mp hg⟩
  rename_i hshort
  rw [h.size] at hshort
  split
  · refine ⟨groups ++ heldGroups held, [r], by
      simp [flatten_heldGroups], hcomplete.chunks, hcomplete.sized, ?_, ?_,
      hcomplete.size⟩
    · simp [hcomplete.view]
    · simpa using hshort
  · rename_i hroom
    refine ⟨groups, held ++ [r], by simp, h.chunks, h.sized, by simp [h.view], ?_, h.size⟩
    rw [h.size, h.view] at hroom
    simpa [List.flatMap_append] using hroom

theorem addAll (h : Grouped size old groups held x) (rows : List Row) :
    ∃ groups' held', groups'.flatten ++ held' = groups.flatten ++ held ++ rows ∧
      Grouped size old groups' held' (Batch.addAll x rows) := by
  induction rows generalizing groups held x with
  | nil => exact ⟨groups, held, by simp, h⟩
  | cons r rows ih =>
    obtain ⟨groups₁, held₁, hrows₁, h₁⟩ := h.add r
    obtain ⟨groups₂, held₂, hrows₂, h₂⟩ := ih h₁
    exact ⟨groups₂, held₂, by simp [hrows₂, hrows₁], h₂⟩

end Grouped

/-! ### One pass over the queues -/

/-- Of the rows in `all`, `sent` were added to the batch and `left` were not. Only the last row
added may have heard a no, and it has exactly if the sink is not ready for more; rows are left only
then. -/
structure Drained (x : Batch × Sink) (all sent left : List Row) (ready : Bool)
    (o : Outflow) : Prop where
  state : (o.batch, o.sink) = Batch.addAll x sent
  whole : all = sent ++ left
  stops : ∀ before r after, sent = before ++ r :: after → Batch.HearsNo (Batch.addAll x before) r →
    after = [] ∧ ready = false
  last : ready = false → ∃ before r, sent = before ++ [r] ∧ Batch.HearsNo (Batch.addAll x before) r
  done : ready = true → left = []

namespace Drained

variable {x : Batch × Sink} {all sent left : List Row} {ready : Bool} {o : Outflow}

theorem start (o : Outflow) : Drained (o.batch, o.sink) [] [] [] true o :=
  ⟨rfl, rfl, fun before r after h => by simp at h, by rintro ⟨⟩, fun _ => rfl⟩

/-- One more row is added while the sink is ready. -/
theorem send (h : Drained x all sent [] true o) (counted : Bool) (r : Row) :
    Drained x (all ++ [r]) (sent ++ [r]) [] (o.send counted r).1 (o.send counted r).2 := by
  have hstate : (o.batch, o.sink) = Batch.addAll x sent := h.state
  have hno : Batch.HearsNo (Batch.addAll x sent) r ↔ (o.send counted r).1 = false := by
    rw [Batch.hearsNo_iff, ← hstate]
    rfl
  refine ⟨?_, by simp [h.whole], fun before r' after hsent hr' => ?_, fun hready => ⟨sent, r, rfl,
    hno.mpr hready⟩, fun _ => rfl⟩
  · rw [Batch.addAll_append, ← hstate]
    rfl
  · cases after using List.reverseRecOn with
    | nil =>
      obtain ⟨rfl, hr⟩ := List.append_inj' hsent rfl
      obtain rfl := List.singleton_inj.mp hr
      exact ⟨rfl, hno.mp hr'⟩
    | append_singleton after last =>
      -- the row was added before, and then the sink would not have been ready
      rw [← List.cons_append, ← List.append_assoc] at hsent
      exact absurd (h.stops before r' after (List.append_inj' hsent rfl).1 hr').2 (by decide)

theorem pour (h : Drained x all sent [] true o) (counted : Bool) (rows : List Row) :
    ∃ more, Drained x (all ++ rows) (sent ++ more) (o.pour counted rows).1 (o.pour counted rows).2.1
      (o.pour counted rows).2.2 := by
  induction rows generalizing all sent o with
  | nil => exact ⟨[], by simpa [Outflow.pour] using h⟩
  | cons r rows ih =>
    have hsend := h.send counted r
    rcases hr : o.send counted r with ⟨_ | _, o'⟩
    · rw [hr] at hsend
      refine ⟨[r], ?_⟩
      simp only [Outflow.pour, hr]
      refine ⟨hsend.state, ?_, hsend.stops, hsend.last, by rintro ⟨⟩⟩
      simpa using hsend.whole
    · rw [hr] at hsend
      obtain ⟨more, hmore⟩ := ih hsend
      refine ⟨r :: more, ?_⟩
      simp only [Outflow.pour, hr]
      simpa using hmore

/-- **The pass goes on with the next queue**, unless the sink has had enough. -/
theorem next (h : Drained x all sent left ready o) (counted : Bool) (rows : List Row) :
    ∃ more, Drained x (all ++ rows) (sent ++ more) (left ++ (o.pourIf ready counted rows).1)
      (o.pourIf ready counted rows).2.1 (o.pourIf ready counted rows).2.2 := by
  cases ready with
  | true =>
    obtain rfl := h.done rfl
    obtain ⟨more, hmore⟩ := h.pour counted rows
    exact ⟨more, by simpa [Outflow.pourIf] using hmore⟩
  | false =>
    rw [show o.pourIf false counted rows = (rows, false, o) from rfl, ← List.append_nil sent]
    exact ⟨[], by
      simpa using h.state, by
        simp [h.whole], by simpa using h.stops, by simpa using h.last, by rintro ⟨⟩⟩

end Drained

namespace Encoder

/-- The rows that wait, in the order in which they go out. -/
def waiting (e : Encoder) : List Row := e.imports ++ e.hints ++ e.regular ++ e.errors

/-- What one flush into the sink `i` does: `sent` went out, in `groups`. -/
structure Flushed (i : Nat) (e : Encoder) (s : Store) (e' : Encoder) (s' : Store) (sent : List Row)
    (groups : List (List Row)) : Prop where
  rows : e.waiting = sent ++ e'.waiting
  chunks : (s'.sink i).chunks = (s.sink i).chunks ++ groups.map (·.flatMap Row.encode)
  whole : groups.flatten = sent
  sized : ∀ g ∈ groups, IsGroup e.batch.size g
  stops : ∀ before r after, sent = before ++ r :: after →
    Batch.HearsNo (Batch.addAll (e.batch, s.sink i) before) r → after = []
  progress : e'.waiting ≠ [] → sent ≠ []
  view : e'.batch.view = []
  size : e'.batch.size = e.batch.size

/-- **A flush is one pass over the rows that wait**, and leaves nothing in the batch. -/
theorem exists_flushed {k : Sink} (hsink : e.sink = some i)
    (hk : s.sinks[i]? = some k) (hbatch : e.batch.view = []) :
    ∃ sent groups, Flushed i e s (e.flush s).1 (e.flush s).2 sent groups := by
  obtain ⟨a, ha⟩ := (Drained.start ⟨e.pending, e.batch, s.sink i⟩).next true e.imports
  generalize hpa : Outflow.pourIf ⟨e.pending, e.batch, s.sink i⟩ true true e.imports = pa at ha
  obtain ⟨imports, ra, oa⟩ := pa
  obtain ⟨b, hb⟩ := ha.next false e.hints
  generalize hpb : oa.pourIf ra false e.hints = pb at hb
  obtain ⟨hints, rb, ob⟩ := pb
  obtain ⟨c, hc⟩ := hb.next true e.regular
  generalize hpc : ob.pourIf rb true e.regular = pc at hc
  obtain ⟨regular, rc, oc⟩ := pc
  obtain ⟨d, hd⟩ := hc.next true e.errors
  generalize hpd : oc.pourIf rc true e.errors = pd at hd
  obtain ⟨errors, rd, od⟩ := pd
  dsimp only [List.nil_append] at hd
  have hgrouped : Grouped e.batch.size (s.sink i).chunks [] [] (e.batch, s.sink i) :=
    ⟨by simp, by simp, hbatch, Nat.zero_le _, rfl⟩
  obtain ⟨groups, held, hrows, hadded⟩ := hgrouped.addAll (a ++ b ++ c ++ d)
  rw [← hd.state] at hadded
  have hcomplete := hadded.complete
  generalize hpe : od.batch.complete od.sink = pe at hcomplete
  obtain ⟨wanted, batch, sink⟩ := pe
  dsimp only at hcomplete
  have hset (sink') : (s.setSink i sink').sink i = sink' := Store.sink_eq (Store.sinks_setSink hk _)
  obtain ⟨hflushed, hchunks⟩ : ((e.flush s).1.waiting = imports ++ hints ++ regular ++ errors ∧
      (e.flush s).1.batch = batch) ∧ ((e.flush s).2.sink i).chunks = sink.chunks := by
    unfold flush
    rw [hsink]
    simp only [show Outflow.pour true ⟨e.pending, e.batch, s.sink i⟩ e.imports =
      (imports, ra, oa) from hpa, hpb, hpc, hpd, hpe]
    split <;> exact ⟨⟨rfl, rfl⟩, (congrArg Sink.chunks (hset _)).trans rfl⟩
  refine ⟨a ++ b ++ c ++ d, groups ++ Grouped.heldGroups held, ?_, hchunks.trans hcomplete.chunks,
    ?_, hcomplete.sized, fun before r after hsent hno => (hd.stops before r after hsent hno).1,
      fun hleft => ?_, ?_, ?_⟩
  · rw [hflushed.1]
    exact hd.whole
  · simpa [Grouped.flatten_heldGroups] using hrows
  · rw [hflushed.1] at hleft
    cases rd with
    | true => exact absurd (hd.done rfl) hleft
    | false =>
      obtain ⟨before, r, hsent, -⟩ := hd.last rfl
      rw [hsent]
      exact List.append_ne_nil_of_right_ne_nil _ (List.cons_ne_nil r [])
  · rw [hflushed.2]
    exact hcomplete.view
  · rw [hflushed.2]
    exact hcomplete.size

/-- Rows are sent up to the first that hears a no, and none behind it. -/
def StopsAtNo (i : Nat) (e : Encoder) (s : Store) (e' : Encoder) : Prop :=
  ∃ sent, e.waiting = sent ++ e'.waiting ∧
    ∀ before r after, sent = before ++ r :: after →
      Batch.HearsNo (Batch.addAll (e.batch, s.sink i) before) r → after = []

/-- What was sent since the rows that wait were `all`, when nothing else happens: the groups that
the sink was given and the rows that still wait are all of them. -/
structure Progress (i : Nat) (size : Nat) (old : List Bytes) (all : List Row)
    (groups : List (List Row)) (e : Encoder) (s : Store) : Prop where
  rows : all = groups.flatten ++ e.waiting
  chunks : (s.sink i).chunks = old ++ groups.map (·.flatMap Row.encode)
  sized : ∀ g ∈ groups, IsGroup size g
  view : e.batch.view = []
  size : e.batch.size = size

theorem Progress.flush {i size : Nat} {old : List Bytes} {all sent : List Row}
    {groups groups' : List (List Row)} {e e' : Encoder} {s s' : Store}
    (h : Progress i size old all groups e s) (h' : Flushed i e s e' s' sent groups') :
    Progress i size old all (groups ++ groups') e' s' := by
  refine ⟨?_, ?_, fun g hg => ?_, h'.view, h'.size.trans h.size⟩
  · rw [h.rows, h'.rows, List.flatten_append, h'.whole, List.append_assoc]
  · rw [h'.chunks, h.chunks, List.map_append, List.append_assoc]
  · exact (List.mem_append.mp hg).elim (h.sized g) fun hg => h.size ▸ h'.sized g hg

/-- A flush lets go of the sink only when it closes. -/
theorem status_of_flush (hsink : e.sink = some i) (h : (e.flush s).1.sink = none) :
    (e.flush s).1.status = .closed := by
  obtain ⟨_, _, _, _, _, -, hsettled, -⟩ := exists_flush hsink s
  by_contra hopen
  by_cases hdone : (e.flush s).1.pending = 0 ∧ (e.flush s).1.hints = [] ∧ e.status ≠ .closed
  · exact hopen (hsettled.closed hdone.1 hdone.2.1 hdone.2.2).1
  · exact absurd (h.symm.trans (hsettled.kept hdone).2.1) (by rintro ⟨⟩)

/-- An encoder that was given its sink: it writes to it or has closed it. -/
structure Attached (i : Nat) (taken : Bytes) (e : Encoder) (s : Store) : Prop where
  flows : Flows i taken e s
  closed : e.sink = none → e.status = .closed

theorem Attached.waiting_of_none (h : Attached i taken e s)
    (hnone : e.sink = none) : e.waiting = [] := by
  obtain ⟨⟨-, himports, hregular, herrors⟩, hhints⟩ :=
    isDone_iff.mp (h.flows.of_closed (h.closed hnone)).1
  simp [waiting, himports, hhints, hregular, herrors]

/-- **One pull sends at least one row**, if rows wait. -/
theorem Attached.pull {size : Nat} {old : List Bytes} {all : List Row} {groups : List (List Row)}
    (hattached : Attached i taken e s) (h : Progress i size old all groups e s) :
    Attached i taken (e.pull s).1 (e.pull s).2 ∧
      (∃ groups', Progress i size old all groups' (e.pull s).1 (e.pull s).2) ∧
      StopsAtNo i e s (e.pull s).1 ∧ (e.pull s).1.waiting.length ≤ e.waiting.length - 1 := by
  cases hsink : e.sink with
  | none =>
    have hidle : e.pull s = (e, s) := by simp [Encoder.pull, hsink]
    rw [hidle, hattached.waiting_of_none hsink]
    refine ⟨hattached, ⟨groups, h⟩, ⟨[], rfl, fun before r after h => ?_⟩, Nat.zero_le _⟩
    simp at h
  | some j =>
    cases hattached.flows with
    | waiting _ hnone => simp [hnone] at hsink
    | ended _ hnone => simp [hnone] at hsink
    | flowing hstatus hsink hbatch out L k hk =>
      have hpull : e.pull s = { e with flowing := true }.flush s := by simp [Encoder.pull,
        hsink, hstatus]
      obtain ⟨sent, groups', hflushed⟩ := exists_flushed (e := { e with flowing := true })
        hsink hk hbatch
      have hattached' : Attached i taken (e.pull s).1 (e.pull s).2 :=
        ⟨hattached.flows.pull, fun hnone => by
          rw [hpull] at hnone ⊢; exact status_of_flush hsink hnone⟩
      rw [hpull] at hattached' ⊢
      refine ⟨hattached', ⟨groups ++ groups',
        h.flush ⟨hflushed.rows, hflushed.chunks, hflushed.whole, hflushed.sized,
        hflushed.stops, hflushed.progress, hflushed.view, hflushed.size⟩⟩,
          ⟨sent, hflushed.rows, hflushed.stops⟩, ?_⟩
      have hlength : e.waiting.length = _ := congrArg List.length hflushed.rows
      rw [List.length_append] at hlength
      by_cases hleft : ({ e with flowing := true }.flush s).1.waiting = []
      · simp [hleft]
      · have := List.length_pos_iff.mpr (hflushed.progress hleft)
        omega

/-- **Giving the encoder its sink** sends rows as any flush does. -/
theorem exists_start (hflows : Flows i taken e s) (hnone : e.sink = none)
    (hopen : e.status ≠ .closed) :
    ∃ e' s', e.startFlowing s i = .ok (e', s') ∧ Attached i taken e' s' ∧
      (∃ groups, Progress i e.batch.size (s.sink i).chunks e.waiting groups e' s') ∧
        StopsAtNo i e s e' ∧ (s.sink i).bytes = [] := by
  cases hflows with
  | flowing _ hsink => simp [hnone] at hsink
  | ended hclosed => exact absurd hclosed hopen
  | waiting _ _ hbatch L k hk hgiven hcloses =>
    obtain ⟨sent, groups, hflushed⟩ := exists_flushed
      (e := { e with sink := some i, flowing := true }) rfl hk hbatch
    have hbefore : Progress i e.batch.size (s.sink i).chunks e.waiting []
        { e with sink := some i, flowing := true } s :=
      ⟨rfl, by simp, by simp, hbatch, rfl⟩
    have hstart : e.startFlowing s i =
        .ok ({ e with sink := some i, flowing := true }.flush s) := by
      simp [startFlowing, hnone, hopen]
    have hflows : Flows i taken ({ e with sink := some i, flowing := true }.flush s).1
        ({ e with sink := some i, flowing := true }.flush s).2 :=
      Flows.flush (e := { e with sink := some i, flowing := true }) hopen rfl hbatch (L.congr {}) hk
        hgiven hcloses
    refine ⟨_, _, hstart, ⟨hflows, status_of_flush
      (e := { e with sink := some i, flowing := true }) rfl⟩,
      ⟨_, hbefore.flush hflushed⟩, ⟨sent, hflushed.rows, hflushed.stops⟩, ?_⟩
    rw [Store.sink, hk]
    exact (List.append_eq_nil_iff.mp hgiven).2

/-- The encoder and the store after pulls. -/
def pulls (e : Encoder) (s : Store) (n : Nat) : Encoder × Store :=
  (fun x => x.1.pull x.2)^[n] (e, s)

theorem pulls_succ (e : Encoder) (s : Store) (n : Nat) :
    e.pulls s (n + 1) = (e.pulls s n).1.pull (e.pulls s n).2 :=
  Function.iterate_succ_apply' ..

/-- After any number of pulls nothing was lost, and at least as many rows went out if there were as
many. -/
theorem Attached.pulls {size : Nat} {old : List Bytes} {all : List Row} {groups : List (List Row)}
    (hattached : Attached i taken e s) (h : Progress i size old all groups e s) (n : Nat) :
    Attached i taken (e.pulls s n).1 (e.pulls s n).2 ∧
      (∃ groups', Progress i size old all groups' (e.pulls s n).1 (e.pulls s n).2) ∧
      (e.pulls s n).1.waiting.length ≤ e.waiting.length - n := by
  induction n with
  | zero => exact ⟨hattached, ⟨groups, h⟩, Nat.le_refl _⟩
  | succ n ih =>
    obtain ⟨hattached', ⟨groups', h'⟩, hlength⟩ := ih
    obtain ⟨hattached'', hprogress, -, hless⟩ := hattached'.pull h'
    rw [pulls_succ]
    exact ⟨hattached'', hprogress, by omega⟩

end Encoder

/-- **Flushing loses, splits and reorders nothing, whatever the sink answers.** Take an encoder that
was not given a sink yet, in any state that a run reaches, and give it the sink: after finitely many
pulls, and from then on, the sink was given exactly the text of the imports, the hints, the regular
rows and the errors, each queue in its order. After any number of pulls, what the sink was given is
made of groups of whole rows in that order, each a single row or within the size of the batch, and
the batch is empty. Neither the first flush nor that of any pull sends a row behind one on which the
sink answered no. -/
theorem flushing_loses_nothing {η : Type} {run : Force η} (hrun : Quiet run) {i : Nat}
    {model : Value} {x : Stage η} (h : Stage.Reached run i model x) (hnone : x.encoder.sink = none)
    (hopen : x.encoder.status ≠ .closed) :
    ∃ e s, x.encoder.startFlowing x.store i = .ok (e, s) ∧
      (∃ enough, ∀ n, enough ≤ n → ((e.pulls s n).2.sink i).bytes =
        (x.encoder.imports ++ x.encoder.hints ++ x.encoder.regular ++
          x.encoder.errors).flatMap Row.encode) ∧
      (∀ n, ∃ groups : List (List Row),
        ((e.pulls s n).2.sink i).chunks = (x.store.sink i).chunks ++
          groups.map (·.flatMap Row.encode) ∧
        groups.flatten <+: x.encoder.imports ++ x.encoder.hints ++ x.encoder.regular ++
          x.encoder.errors ∧ ∀ g ∈ groups, (∃ r, g = [r]) ∨ g ≠ [] ∧
          (g.flatMap Row.encode).length ≤ x.encoder.batch.size) ∧
      Encoder.StopsAtNo i x.encoder x.store e ∧
      (∀ n, Encoder.StopsAtNo i (e.pulls s n).1 (e.pulls s n).2 (e.pulls s (n + 1)).1) ∧
      ∀ n, (e.pulls s n).1.batch.view = [] := by
  obtain ⟨e, s, hstart, hattached, ⟨groups, hprogress⟩, hstops, hempty⟩ :=
    Encoder.exists_start (h.sound hrun) hnone hopen
  refine ⟨e, s, hstart, ⟨e.waiting.length, fun n hn => ?_⟩, fun n => ?_, hstops, fun n => ?_,
    fun n => ?_⟩ <;> obtain ⟨hattached', ⟨groups', h'⟩, hlength⟩ := hattached.pulls hprogress n
  · have hdone : (e.pulls s n).1.waiting = [] := List.length_eq_zero_iff.mp (by omega)
    have hrows : x.encoder.waiting = groups'.flatten := by rw [h'.rows, hdone, List.append_nil]
    have hempty : (x.store.sink i).chunks.flatten = [] := hempty
    rw [← Encoder.waiting, hrows, Sink.bytes, h'.chunks, List.flatten_append, hempty,
      List.nil_append]
    simp [List.flatMap, List.flatten_flatten, List.map_flatten, Function.comp_def]
  · exact ⟨groups', h'.chunks, ⟨_, h'.rows.symm⟩, h'.sized⟩
  · rw [Encoder.pulls_succ]
    exact (hattached'.pull h').2.2.1
  · exact h'.view

/-! ### A sink that never wants more

An array with a symbol, a promise that does not settle and a stream, worked on before there is a
sink. -/

/-- A store with a sink that always answers no, and the array. -/
def unwantedArray : Value × Store :=
  let (promise, s) := (({} : Store).newSink { ready := fun _ _ => false }).2.newPromise
  let (stream, s) := s.newStream .readable
  s.make (.array [.symbol "a", .cell promise, .cell stream])

/-- The encoder of the array when it was let to work. -/
def unwantedWorked : Option (Except Fault Unit × Encoder × Store × Unit) :=
  let (e, s) := Encoder.create unwantedArray.2 unwantedArray.1 default {}
  e.work noThunks 30 s ()

theorem flushing_loses_nothing_refused :
    ∃ x : Stage Unit, Stage.Reached noThunks 0 unwantedArray.1 x ∧
    x.encoder.sink = none ∧ x.encoder.waiting.length = 3 ∧ (x.store.sink 0).ready 1 1 = false ∧
    ∃ e s enough, x.encoder.startFlowing x.store 0 = .ok (e, s) ∧ ∀ n, enough ≤ n →
      ((e.pulls s n).2.sink 0).bytes =
        (x.encoder.imports ++ x.encoder.hints ++ x.encoder.regular ++
          x.encoder.errors).flatMap Row.encode := by
  have hworked : (unwantedWorked.any fun w => w.2.1.sink.isNone && w.2.1.status != .closed &&
      w.2.1.waiting.length == 3 && !(w.2.2.1.sink 0).ready 1 1) = true := by decide +kernel
  obtain ⟨⟨r, e, s, host⟩, hwork, hfacts⟩ := (Option.any_eq_true _ _).mp hworked
  simp only [Bool.and_eq_true, Option.isNone_iff_eq_none, bne_iff_ne, beq_iff_eq,
    Bool.not_eq_true'] at hfacts
  obtain ⟨⟨⟨hnone, hopen⟩, hlength⟩, hanswer⟩ := hfacts
  have hcreated : Stage.Reached noThunks 0 unwantedArray.1
      ⟨⟨(Encoder.create unwantedArray.2 unwantedArray.1 default {}).1,
      (Encoder.create unwantedArray.2 unwantedArray.1 default {}).2, ()⟩, []⟩ :=
    .create (s := unwantedArray.2) rfl ⟨rfl, rfl⟩
  have hreached : Stage.Reached noThunks 0 unwantedArray.1 ⟨⟨e, s, host⟩, []⟩ :=
    .step hcreated (.work hwork)
  obtain ⟨e', s', hstart, ⟨enough, hbytes⟩, -⟩ := flushing_loses_nothing quiet_noThunks
    hreached hnone hopen
  exact ⟨_, hreached, hnone, hlength, hanswer, e', s', enough, hstart, hbytes⟩

end GraphRows
