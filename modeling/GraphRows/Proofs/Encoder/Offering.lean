import GraphRows.Proofs.Encoder.Runs
import GraphRows.Proofs.Encoder.Walking

/-!
# Hints that were offered

Hints are offered from outside and by thunks, before anything is sent, between flushes and while the
sink wants no more. A log of all that were offered while the encoder was open says what the wire has
to carry: the hints of the log in their order, without those whose key came before. A hint is on the
wire or it waits in the queue of hints; the rows of the other queues are none. Rendering adds to the
log and to the queue together, and a flush only moves the front of the queue.

The log is kept by the host, which the encoder never looks at.

## Main results

* `Stage.Offered.voiced`: the hint rows, sent or queued, are those of the log
* `Stage.Offered.hint_answer`: an offer is accepted if the log grows by a hint that stays
-/

namespace GraphRows

/-- The hints of a list, without those whose key an earlier one has. -/
def Hint.distinct : List Hint → List Hint
  | [] => []
  | h :: rest => h :: (distinct rest).filter (·.key != h.key)

namespace Hint

theorem distinct_concat (log : List Hint) (h : Hint) :
    distinct (log ++ [h]) = if log.any (·.key == h.key) then distinct log else distinct log ++
      [h] := by
  induction log with
  | nil => rfl
  | cons o log ih =>
    rw [List.cons_append, distinct, ih, List.any_cons, distinct]
    by_cases hlog : log.any (·.key == h.key)
    · simp [hlog]
    · by_cases hkey : o.key = h.key
      · simp [hlog, hkey]
      · simp [hlog, hkey, Ne.symm hkey]

theorem mem_of_mem_distinct {log : List Hint} {h : Hint} (hmem : h ∈ distinct log) : h ∈ log := by
  induction log with
  | nil => exact hmem
  | cons o log ih =>
    rcases List.mem_cons.mp hmem with rfl | hrest
    · exact List.mem_cons_self
    · exact List.mem_cons_of_mem _ (ih (List.mem_filter.mp hrest).1)

end Hint

/-- The hint rows that were sent and those that are queued are the ones a log asks for. -/
structure Listed (log : List Hint) (out : List Row) (e : Encoder) : Prop where
  rows : (out ++ e.hints).filterMap Row.hint? = (Hint.distinct log).map fun h => (h.code, h.payload)
  keys : ∀ key, key ∈ e.hintKeys ↔ ∃ h ∈ log, h.key = key
  others : ∀ r ∈ e.imports ++ e.regular ++ e.errors, r.hint? = none

namespace Encoder.Unhinted

variable {e e' : Encoder}

theorem emitRejection (h : Unhinted e e') (s : Store) (id : Nat) (r : Rejection) :
    Unhinted e (e'.emitRejection s id r).1 := by
  have herrors : Queue.errors ≠ .hints := by decide
  refine h.trans ?_
  cases r with
  | postpone reason => exact (refl e').push herrors rfl
  | error cause =>
    unfold Encoder.emitRejection reportError
    cases e'.digest with
    | none => exact (refl e').push herrors rfl
    | some digest =>
      refine push (e := e') ?_ herrors rfl
      exact ⟨rfl, rfl, rfl, fun _ => .inl⟩

theorem fatalRow (e : Encoder) (s : Store) : Unhinted e (e.fatalRow s).2.1 := by
  unfold Encoder.fatalRow
  split
  · exact refl e
  · refine emitRejection (e := e) ?_ s _ _
    exact ⟨rfl, rfl, rfl, fun _ => .inl⟩

theorem foldl {α β : Type} (view : β → Encoder) {f : β → α → β}
    (hf : ∀ b a, Unhinted (view b) (view (f b a))) (l : List α) (b : β) :
    Unhinted (view b) (view (l.foldl f b)) := by
  induction l generalizing b with
  | nil => exact refl _
  | cons a l ih => exact (hf b a).trans (ih _)

theorem abortTasks (h : Unhinted e e') (s : Store) (r : Rejection) :
    Unhinted e (e'.abortTasks s r).1 := by
  refine h.trans ?_
  unfold Encoder.abortTasks
  split
  · exact refl e'
  · have hfatal : Unhinted e' { e'.allocateRow.2 with fatal := some e'.allocateRow.1 } :=
      ⟨rfl, rfl, rfl, fun _ => .inl⟩
    refine (hfatal.emitRejection s e'.allocateRow.1 r).trans
      (.trans ?_ (foldl (fun e => e) (fun e id => ?_) _ _))
    · exact ⟨rfl, rfl, rfl, fun _ => .inl⟩
    · have htake := takeTask e id
      generalize e.takeTask id = p at htake
      obtain ⟨_ | t, e'⟩ := p
      · exact htake
      · exact htake.push (by decide) rfl

theorem abortStreams (h : Unhinted e e') (s : Store) (r : Rejection) :
    Unhinted e (e'.abortStreams s r).1 := by
  refine h.trans (.trans ?_ (foldl Prod.fst (fun p task => ?_) e'.streams
    ({ e' with streams := [] }, s)))
  · exact ⟨rfl, rfl, rfl, fun _ => .inl⟩
  · refine ((refl p.1).emitRejection p.2 task.id
      (if r.isPostpone then .abortedByPostpone else r)).trans ?_
    cases task.model <;> exact refl _

/-- An abort queues no hint. -/
theorem answerAll (e : Encoder) (s : Store) (reason : Option Rejection) :
    Unhinted { e with status := .aborting } (e.answerAll s reason).1 :=
  ((refl _).abortTasks s _).abortStreams _ _

end Encoder.Unhinted

namespace Listed

variable {log : List Hint} {out : List Row} {e e' : Encoder}

theorem new (hkeys : e.hintKeys = []) (hrows : e.allRows [] = []) : Listed [] [] e := by
  simp only [Encoder.allRows, List.append_eq_nil_iff] at hrows
  exact ⟨by simp [hrows, Hint.distinct], by simp [hkeys], by simp [hrows]⟩

theorem unhinted (L : Listed log out e) (h : e.Unhinted e') : Listed log out e' :=
  ⟨by rw [h.hints]; exact L.rows, by rw [h.keys]; exact L.keys,
    fun r hr => (h.others r hr).elim (L.others r) id⟩

theorem unhinted_open (h : e.Unhinted e') (L : e.status ≠ .closed ∧ Listed log out e) :
    e'.status ≠ .closed ∧ Listed log out e' := ⟨h.status ▸ L.1, L.2.unhinted h⟩

/-- An open encoder queues a hint if its log has no other with its key. -/
theorem queueHint (L : Listed log out e) (hopen : e.status ≠ .closed) (h : Hint) :
    (e.queueHint h).1 = !log.any (·.key == h.key) ∧ (e.queueHint h).2.status = e.status ∧
      Listed (log ++ [h]) out (e.queueHint h).2 := by
  have hseen : e.hintKeys.contains h.key = log.any (·.key == h.key) := by
    rw [Bool.eq_iff_iff, List.contains_iff_mem, L.keys, List.any_eq_true]
    simp only [beq_iff_eq]
  have hkeys : ∀ key, (∃ o ∈ log ++ [h], o.key = key) ↔ key = h.key ∨
      key ∈ e.hintKeys := fun key => by
    rw [L.keys]
    simp only [List.mem_append, List.mem_singleton]
    grind
  unfold Encoder.queueHint
  rw [hseen, beq_eq_false_iff_ne.mpr hopen, Bool.false_or]
  cases hany : log.any (·.key == h.key) with
  | true =>
    refine ⟨rfl, rfl, ?_, fun key => ?_, L.others⟩
    · rw [Hint.distinct_concat, if_pos hany]
      exact L.rows
    · rw [hkeys]
      refine ⟨.inr, ?_⟩
      rintro (rfl | hkey)
      · exact List.contains_iff_mem.mp (hseen.trans hany)
      · exact hkey
  | false =>
    refine ⟨rfl, rfl, ?_, fun key => ?_, L.others⟩
    · have hrows := congrArg (· ++ [(h.code, h.payload)]) L.rows
      rw [Hint.distinct_concat, hany]
      simpa [Encoder.push, Encoder.freshId, Row.hint?] using hrows
    · rw [hkeys]
      exact List.mem_cons

/-- A flush moves hints from the queue to the wire. -/
theorem send {a b c d : List Row} (L : Listed log out e) (h : Encoder.Sent e e' a b c d)
    (hkeys : e'.hintKeys = e.hintKeys) : Listed log (out ++ (a ++ b ++ c ++ d)) e' := by
  have none_of : ∀ l : List Row, (∀ r ∈ l, r ∈ e.imports ++ e.regular ++ e.errors) →
      l.filterMap Row.hint? = [] :=
    fun l hl => List.filterMap_eq_nil_iff.mpr fun r hr => L.others r (hl r hr)
  have ha := none_of a fun r hr => by simp [h.imports, hr]
  have hc := none_of c fun r hr => by simp [h.regular, hr]
  have hd := none_of d fun r hr => by simp [h.errors, hr]
  refine ⟨?_, hkeys ▸ L.keys, fun r hr => L.others r ?_⟩
  · rw [← L.rows, h.hints]
    simp [ha, hc, hd]
  · rw [h.imports, h.regular, h.errors]
    simp only [List.mem_append] at hr ⊢
    grind

end Listed

/-! ### Rendering -/

/-- Run a thunk and put the hints it gives into a log. -/
def noting {η : Type} (run : Force η) : Force (η × List Hint) := fun id a s host =>
  (run id a s host.1).map fun p => (p.1, p.2.1, p.2.2.1, p.2.2.2, host.2 ++ p.2.1.hints)

theorem Quiet.noting {η : Type} {run : Force η} (h : Quiet run) : Quiet (noting run) := by
  intro id a s host r a' s' host' hrun
  obtain ⟨⟨r₀, a₀, s₀, host₀⟩, hp, heq⟩ := Option.map_eq_some_iff.mp hrun
  cases heq
  exact h _ _ _ _ _ _ _ _ hp

namespace EncodeM

variable {η α β : Type} {out : List Row}

/-- The encoder stays open, and its hints are those of the log whenever they were. -/
def Telling (out : List Row) (m : EncodeM (η × List Hint) α) : Prop :=
  Ensures (fun x => x.encoder.status ≠ .closed ∧ Listed x.host.2 out x.encoder) m
    fun _ x => x.encoder.status ≠ .closed ∧ Listed x.host.2 out x.encoder

namespace Telling

theorem bind {m : EncodeM (η × List Hint) α} {f : α → EncodeM (η × List Hint) β}
    (hm : Telling out m) (hf : ∀ a, Telling out (f a)) : Telling out (m >>= f) :=
  Ensures.bind hm hf

theorem emitRejection (id : Nat) (r : Rejection) :
    Telling out (EncodeM.emitRejection (η := η × List Hint) id r) :=
  Ensures.onBoth fun x => Listed.unhinted_open
    ((Encoder.Unhinted.refl x.encoder).emitRejection x.store id r)

theorem fatalRow : Telling out (EncodeM.fatalRow (η := η × List Hint)) := by
  rintro x a _ hx ⟨⟩
  exact Listed.unhinted_open (.fatalRow x.encoder x.store) hx

open Render

/-- The hints a thunk gives go into the log and to the encoder. -/
theorem force (run : Force η) (id : CellId) (recalled : List CellId) :
    Telling out (force (noting run) id recalled) := by
  have queued : ∀ (hints log : List Hint) (e : Encoder), e.status ≠ .closed → Listed log out e →
      (hints.foldl (fun e h => (e.queueHint h).2) e).status ≠ .closed ∧
        Listed (log ++ hints) out (hints.foldl (fun e h => (e.queueHint h).2) e) := by
    intro hints
    induction hints with
    | nil => exact fun log e hopen L => ⟨hopen, by rwa [List.append_nil]⟩
    | cons h hints ih =>
      intro log e hopen L
      obtain ⟨-, hstatus, L'⟩ := L.queueHint hopen h
      have hrest := ih (log ++ [h]) _ (hstatus ▸ hopen) L'
      rwa [List.append_assoc, List.singleton_append] at hrest
  intro x a y hx hy
  unfold Render.force noting at hy
  cases hrun : run id { recalled } x.store x.host.1 with
  | none => simp [hrun] at hy
  | some p =>
    simp only [hrun, Option.map_some] at hy
    obtain ⟨-, rfl⟩ := Prod.mk.inj (Option.some.inj hy)
    exact queued _ _ _ hx.1 hx.2

end Telling

/-- Rendering tells the log of every hint. -/
theorem habit_telling (run : Force η) (out : List Row) :
    Habit (fun _ => Telling (η := η) out) (noting run) where
  pure _ := Ensures.pure fun _ => id
  bind := .bind
  exhausted := .exhausted
  encoder hf _ := Ensures.bind (Ensures.encoder.post fun _ _ h => h.1) hf
  store := Ensures.store.post fun _ _ h => h.1
  onEncoder hg := Ensures.onEncoder fun _ => Listed.unhinted_open (hg.unhinted _)
  onStore _ := Ensures.onStore fun _ => id
  emitRejection := .emitRejection
  fatalRow := .fatalRow
  force := .force run

end EncodeM

/-! ### Runs -/

/-- The hints among the rows that a sink was given, and those that are queued, are the ones of a
log. -/
def Voiced (i : Nat) (taken : Bytes) (log : List Hint) (e : Encoder) (s : Store) : Prop :=
  ∃ out, taken ++ (s.sink i).bytes = out.flatMap Row.encode ∧ Listed log out e

namespace Voiced

open Encoder

variable {i : Nat} {taken : Bytes} {log : List Hint} {e e' : Encoder} {s s' : Store}

theorem hintKeys_flush (e : Encoder) (s : Store) : (e.flush s).1.hintKeys = e.hintKeys := by
  unfold Encoder.flush
  split
  · rfl
  · dsimp only
    split <;> rfl

theorem congr (V : Voiced i taken log e s) (hsinks : s'.sinks[i]? = s.sinks[i]?)
    (h : e.Unhinted e') : Voiced i taken log e' s' := by
  obtain ⟨out, hgiven, L⟩ := V
  exact ⟨out, by rw [Store.sink, hsinks]; exact hgiven, L.unhinted h⟩

theorem flush (V : Voiced i taken log e s) (F : Flows i taken e s) :
    Voiced i taken log (e.flush s).1 (e.flush s).2 := by
  cases F with
  | waiting _ hsink => rwa [Flows.flush_of_none hsink]
  | ended _ hsink => rwa [Flows.flush_of_none hsink]
  | flowing _ hsink hbatch _ _ k hk =>
    obtain ⟨out, hgiven, L⟩ := V
    obtain ⟨a, b, c, d, sink, hsent, hsettled, hbytes, -, -⟩ := exists_flush hsink s
    have hset (sink') : (s.setSink i sink').sink i = sink' :=
      Store.sink_eq (Store.sinks_setSink hk _)
    have hsent' : ((e.flush s).2.sink i).bytes = sink.bytes := by
      by_cases hdone : (e.flush s).1.pending = 0 ∧ (e.flush s).1.hints = [] ∧ e.status ≠ .closed
      · rw [(hsettled.closed hdone.1 hdone.2.1 hdone.2.2).2.2, hset]
        rfl
      · rw [(hsettled.kept hdone).2.2, hset]
    refine ⟨out ++ (a ++ b ++ c ++ d), ?_, L.send hsent (hintKeys_flush e s)⟩
    rw [hsent', hbytes, hbatch, List.append_nil, ← List.append_assoc, hgiven, ← List.flatMap_append]

/-- An offer to an open encoder goes into the log. -/
theorem hint (V : Voiced i taken log e s) (F : Flows i taken e s) (hopen : e.status ≠ .closed)
    (h : Hint) : Voiced i taken (log ++ [h]) (e.hint s h).2.1 (e.hint s h).2.2 := by
  have V' : Voiced i taken (log ++ [h]) (e.queueHint h).2 s := by
    obtain ⟨out, hgiven, L⟩ := V
    exact ⟨out, hgiven, (L.queueHint hopen h).2.2⟩
  exact hint_elim V' fun _ _ => V'.flush (F.queueHint h)

theorem abort (V : Voiced i taken log e s) (F : Flows i taken e s) (reason : Option Rejection) :
    Voiced i taken log (e.abort s reason).1 (e.abort s reason).2 := by
  have V' : Voiced i taken log (e.answerAll s reason).1 (e.answerAll s reason).2 := by
    obtain ⟨out, hgiven, L⟩ := V
    obtain ⟨_, -, B, -⟩ := F.exists_books
    obtain ⟨hsinks, -⟩ := Around.mk.inj (Flows.answerAll_upheld (s := s) B reason).2
    exact ⟨out, by rw [Store.sink, hsinks]; exact hgiven,
      Listed.unhinted (e := { e with status := .aborting }) ⟨L.rows, L.keys, L.others⟩
        (.answerAll e s reason)⟩
  exact abort_elim (fun _ => V) (fun _ => V') fun hopen => V'.flush (F.answerAll hopen reason).2

theorem start (V : Voiced i taken log e s) (F : Flows i taken e s)
    (h : e.startFlowing s i = .ok (e', s')) : Voiced i taken log e' s' :=
  startFlowing_elim h (fun _ => V) fun hnone hopen =>
    flush (V.congr rfl ⟨rfl, rfl, rfl, fun _ => .inl⟩) (F.attach hnone hopen)

theorem pull (V : Voiced i taken log e s) (F : Flows i taken e s) :
    Voiced i taken log (e.pull s).1 (e.pull s).2 :=
  pull_elim V fun _ => flush (V.congr rfl ⟨rfl, rfl, rfl, fun _ => .inl⟩) F.wanting

section Work

open EncodeM

variable {η : Type} {run : Force η}

/-- The encoder flows into its sink as it should, and its hints are those of the log. -/
def Upholds (i : Nat) (taken : Bytes) (x : Encoding (η × List Hint)) : Prop :=
  Flows i taken x.encoder x.store ∧ Voiced i taken x.host.2 x.encoder x.store

theorem handleAll (hrun : Quiet run) (fuel : Nat) :
    Ensures (Upholds i taken) (Render.handleAll (noting run) fuel) fun _ => Upholds i taken := by
  rintro x a y ⟨F, V⟩ hy
  obtain ⟨hsinks, -⟩ := Around.mk.inj (Flows.handleAll_around hrun.noting F hy)
  obtain ⟨out, hgiven, L⟩ := V
  refine ⟨Flows.handleAll hrun.noting fuel x a y F hy,
    out, by rw [Store.sink, hsinks]; exact hgiven, ?_⟩
  by_cases hclosed : x.encoder.status = .closed
  · -- a closed encoder has nothing to force
    cases F with
    | waiting h => exact absurd hclosed h
    | flowing h => exact absurd hclosed h
    | ended _ _ _ B hidle =>
      obtain ⟨htasks, hstreams⟩ := (B.idle hidle.1).1
      obtain ⟨hencoder, hhost⟩ := Flows.handleAll_idle htasks hstreams x.host fuel x a
        y ⟨rfl, rfl⟩ hy
      rwa [hencoder, hhost]
  · exact ((habit_telling run out).handleAll fuel x a y ⟨hclosed, L⟩ hy).2

theorem work (hrun : Quiet run) {fuel : Nat} {r : Except Fault Unit}
    {x z : Encoding (η × List Hint)} (hx : Upholds i taken x)
    (h : Render.work (noting run) fuel x = some (r, z)) : Upholds i taken z := by
  have aside : ∀ {s : Store} {x : Encoding (η × List Hint)}, Upholds i taken x →
      s.sinks = x.store.sinks →
      Upholds i taken { x with store := s } := fun hx hs =>
        ⟨hx.1.slots hs, hx.2.congr (by rw [hs]) (.refl _)⟩
  have handled : ∀ {s y}, x.store.takeSlot x.encoder.slot = .ok s →
      Render.handleAll (noting run) fuel { x with store := s } = some ((), y) → Upholds i taken y :=
    fun hslot hy => handleAll hrun fuel _ _ _ (aside hx (Store.sinks_takeSlot hslot)) hy
  refine Render.work_elim h (fun _ => hx) (fun _ _ hslot hy _ => aside (handled hslot hy) rfl)
    fun s y hslot hy _ => ?_
  have hy := handled hslot hy
  exact aside (x := ⟨(y.encoder.flush y.store).1, (y.encoder.flush y.store).2, y.host⟩)
    ⟨hy.1.flush_any, hy.2.flush hy.1⟩ rfl

end Work

end Voiced

namespace Stage

open Encoder

variable {η : Type} {run : Force η} {i : Nat} {model : Value} {x : Stage (η × List Hint)}

/-- A hint is offered, and goes into the log unless the encoder is closed. -/
def offer (x : Stage (η × List Hint)) (h : Hint) : Stage (η × List Hint) :=
  ⟨⟨(x.encoder.hint x.store h).2.1, (x.encoder.hint x.store h).2.2,
    (x.host.1, x.host.2 ++ if x.encoder.status = .closed then [] else [h])⟩, x.taken⟩

/-- A stage that a new encoder of `model` can reach, with a log of the hints that were offered while
the encoder was open, by thunks or from outside. -/
inductive Offered (run : Force η) (i : Nat) (model : Value) : Stage (η × List Hint) → Prop
  | create {s : Store} {sink : Sink} {manifest : Manifest} {options : EncoderOptions} {host : η}
      (hsink : s.sinks[i]? = some sink) (hnew : sink.chunks = [] ∧ sink.closes = 0) :
      Offered run i model ⟨⟨(Encoder.create s model manifest options).1,
        (Encoder.create s model manifest options).2, (host, [])⟩, []⟩
  | work {x : Stage (η × List Hint)} {fuel : Nat} {r : Except Fault Unit} {e : Encoder} {s : Store}
      {host : η × List Hint} (hx : Offered run i model x)
        (h : x.encoder.work (noting run) fuel x.store x.host = some (r, e, s, host)) :
      Offered run i model ⟨⟨e, s, host⟩, x.taken⟩
  | start {x : Stage (η × List Hint)} {e : Encoder} {s : Store} (hx : Offered run i model x)
      (h : x.encoder.startFlowing x.store i = .ok (e, s)) :
        Offered run i model ⟨⟨e, s, x.host⟩, x.taken⟩
  | pull {x : Stage (η × List Hint)} (hx : Offered run i model x) :
      Offered run i model
        ⟨⟨(x.encoder.pull x.store).1, (x.encoder.pull x.store).2, x.host⟩, x.taken⟩
  | hint {x : Stage (η × List Hint)} (hx : Offered run i model x) (h : Hint) :
    Offered run i model (x.offer h)
  | abort {x : Stage (η × List Hint)} (hx : Offered run i model x) (reason : Option Rejection) :
      Offered run i model ⟨⟨(x.encoder.abort x.store reason).1, (x.encoder.abort x.store reason).2,
        x.host⟩, x.taken⟩
  | outside {x : Stage (η × List Hint)} {s : Store} {host : η} (hx : Offered run i model x)
      (h : s.sinks[i]? = x.store.sinks[i]?) :
        Offered run i model ⟨⟨x.encoder, s, (host, x.host.2)⟩, x.taken⟩
  | take {x : Stage (η × List Hint)} (hx : Offered run i model x) :
      Offered run i model ⟨⟨x.encoder, x.store.setSink i (x.store.sink i).pop.2, x.host⟩,
        x.taken ++ (x.store.sink i).pop.1.getD []⟩

namespace Offered

/-- Keeping a log is nothing to the encoder. -/
theorem reached (h : Offered run i model x) : Reached (noting run) i model x := by
  induction h with
  | create hsink hnew => exact .create hsink hnew
  | work _ h hx => exact hx.step (.work h)
  | start _ h hx => exact hx.step (.start h)
  | pull _ hx => exact hx.step .pull
  | hint _ h hx => exact (hx.step (.hint h)).step (.outside rfl)
  | abort _ reason hx => exact hx.step (.abort reason)
  | outside _ h hx => exact hx.step (.outside h)
  | take _ hx => exact hx.step .take

theorem sound (hrun : Quiet run) (h : Offered run i model x) : Sound i x :=
  h.reached.sound hrun.noting

/-- **The hint rows of a run**, sent or queued, are those of its log. -/
theorem voiced (hrun : Quiet run) (h : Offered run i model x) :
    Voiced i x.taken x.host.2 x.encoder x.store := by
  induction h with
  | @create s sink manifest options host hsink hnew =>
    have hsinks : (Encoder.create s model manifest options).2.sinks = s.sinks := by
      unfold Encoder.create
      cases options.slot <;> exact Store.sinks_post _ _ _
    refine ⟨[], ?_, ?_⟩
    · rw [Store.sink, hsinks, hsink]
      simp [Sink.bytes, hnew.1]
    · unfold Encoder.create
      cases options.slot <;> exact .new rfl rfl
  | work hx h V => exact (Voiced.work hrun ⟨hx.sound hrun, V⟩ (Encoder.work_eq_some h)).2
  | start hx h V => exact V.start (hx.sound hrun) h
  | pull hx V => exact V.pull (hx.sound hrun)
  | @hint x hx h V =>
    dsimp only [offer]
    split
    · rename_i hclosed
      rw [List.append_nil, Encoder.hint, Encoder.queueHint, if_pos (by simp [hclosed])]
      exact V
    · rename_i hopen
      exact V.hint (hx.sound hrun) hopen h
  | abort hx reason V => exact V.abort (hx.sound hrun) reason
  | outside _ h V => exact V.congr h (.refl _)
  | @take x hx V =>
    obtain ⟨out, hgiven, L⟩ := V
    obtain ⟨-, k, -, hk⟩ := (hx.sound hrun).exists_books
    obtain ⟨k', hk', hsame, -⟩ := Flows.popped hk x.taken
    exact ⟨out, (congrArg (x.taken ++ (x.store.sink i).pop.1.getD [] ++ ·.bytes)
      (Store.sink_eq hk')).trans (hsame.trans (Store.sink_eq hk ▸ hgiven)), L⟩

/-- **The answer to an offer** is whether the hint is one of those that the log asks for. -/
theorem hint_answer (hrun : Quiet run) (h : Offered run i model x) (offer : Hint) :
    (x.encoder.status = .closed → (x.encoder.hint x.store offer).1 = false) ∧
      (x.encoder.status ≠ .closed → Hint.distinct (x.host.2 ++ [offer]) =
        Hint.distinct x.host.2 ++ if (x.encoder.hint x.store offer).1 then [offer] else []) := by
  have hanswer : (x.encoder.hint x.store offer).1 = (x.encoder.queueHint offer).1 := by
    unfold Encoder.hint
    split <;> simp_all
  rw [hanswer]
  refine ⟨fun hclosed => by rw [Encoder.queueHint, if_pos (by simp [hclosed])], fun hopen => ?_⟩
  obtain ⟨out, -, L⟩ := h.voiced hrun
  rw [(L.queueHint hopen offer).1, Hint.distinct_concat]
  cases x.host.2.any (·.key == offer.key) <;> simp

end Offered

end Stage

end GraphRows
