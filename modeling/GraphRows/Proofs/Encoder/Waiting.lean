import GraphRows.Proofs.Encoder.Aborting
import GraphRows.Proofs.Store.Waking

/-!
# What waits is going to be woken

A task that waits for a promise is put aside, and a message brings it back. `Awake` says that each
task that is put aside is going to be woken exactly once, by a message that is there or by a
callback on a pending promise; and that each open stream that holds events has a message that says
so. While a message is acted on, the task it is about is in hand: `own` lists the tasks and `held`
the streams that are in hand, and `news` the message.

An encoder that is being aborted is left out: it keeps no tasks. Nothing is said about the rows.

## Main results

* `Awake.turns`: others are at work
* `Awake.keepTask`, `Awake.takeTask`: a task is put aside, and found when its message comes
* `Awake.subscribe`, `Awake.next`, `Awake.takeStream`: a stream is opened, read, and found when its
  message comes
-/

namespace GraphRows

open Store (Turns Turned Rings OnlyAt timesWoken)

variable {c : CellId} {id : Nat} {t : Task}

/-- A stream that is read for a task alone. -/
structure Stream.Serves (mailbox task : Nat) (st : Stream) : Prop where
  subscriber : st.subscriber = some (mailbox, task)
  locked : st.locked = true
  cancelled : st.cancelled = none
  whole : st.Whole

theorem Stream.Serves.turned {mailbox task : Nat} {s : Store} {st st' : Stream}
    (h : st.Serves mailbox task) (ht : Turned mailbox s st st') : st'.Serves mailbox task :=
  ⟨ht.subscriber.trans h.subscriber, ht.locked h.locked, ht.cancelled.trans h.cancelled,
    ht.whole h.whole⟩

/-- All of these are promises. -/
def Store.Promises (s : Store) (l : List CellId) : Prop := ∀ p ∈ l, (s.promise? p).isSome

/-- A host whose thunks suspend on promises only, and do what anybody may do to the store. -/
def Wakeful {η : Type} (Source : CellId → Prop) (mailbox : Nat) (run : Force η) : Prop :=
  ∀ id a s h r a' s' h', run id a s h = some (r, a', s', h') → s.Promises a.recalled →
    Relation.ReflTransGen (Store.Goes Source mailbox) s s' ∧ s'.Promises a'.recalled ∧
      ∀ p, r = .error (.suspend p) → (s'.promise? p).isSome

/-- The stream in a cell is read for a task, if others leave it alone. -/
def HeldAt (Source : CellId → Prop) (mailbox : Nat) (s : Store) (task : Nat) (c : CellId) : Prop :=
  Source c → ∃ st, s.stream? c = some st ∧ st.Serves mailbox task

/-- The stream in a cell is open for a task: if it holds events, there is a message that says so. -/
def OpenAt (Source : CellId → Prop) (mailbox : Nat) (news : List Ping) (s : Store) (task : Nat)
    (c : CellId) : Prop :=
  Source c → ∃ st, s.stream? c = some st ∧ st.Serves mailbox task ∧
    (st.buffer ≠ [] → .stream task ∈ news ++ s.pings mailbox)

/-- Every task that is put aside is going to be woken once, and every open stream with events has a
message. -/
structure Awake (Source : CellId → Prop) (mailbox : Nat) (news : List Ping) (own : List Nat)
    (held : List (Nat × CellId)) (e : Encoder) (s : Store) : Prop where
  status : e.status ≠ .aborting
  address : e.mailbox = mailbox
  there : mailbox < s.mailboxes.size
  wakers : ∀ id, s.wakers mailbox id + (news.filterMap Ping.wakes?).count id = e.taskIds.count id
  tasks : (own ++ e.taskIds).Nodup
  taskBound : ∀ id ∈ own ++ e.taskIds, id < e.refs.nextId
  ready : ∀ t ∈ e.tasks, t.status = .pending
  recalled : ∀ t ∈ e.tasks, s.Promises t.recalled
  streams : (held.map Prod.fst ++ e.streamIds).Nodup
  streamBound : ∀ id ∈ held.map Prod.fst ++ e.streamIds, id < e.refs.nextId
  sources : ∀ t ∈ e.streams, ∃ c, t.model = .cell c ∧ OpenAt Source mailbox news s t.id c
  reading : ∀ p ∈ held, HeldAt Source mailbox s p.1 p.2
  unread : ∀ c, Source c → ∀ st, s.stream? c = some st → st.Unread

/-- A change of an encoder that concerns neither its tasks nor its streams. -/
structure Encoder.Unmoved (e e' : Encoder) : Prop where
  status : e'.status = .aborting → e.status = .aborting
  mailbox : e'.mailbox = e.mailbox
  tasks : e'.tasks = e.tasks
  streams : e'.streams = e.streams
  nextId : e.refs.nextId ≤ e'.refs.nextId

namespace Encoder.Unmoved

variable {e e' e'' : Encoder}

theorem trans (h : Unmoved e e') (h' : Unmoved e' e'') : Unmoved e e'' :=
  ⟨fun hs => h.status (h'.status hs), h'.mailbox.trans h.mailbox, h'.tasks.trans h.tasks,
    h'.streams.trans h.streams, h.nextId.trans h'.nextId⟩

theorem push (e : Encoder) (q : Queue) (r : Row) : Unmoved e (e.push q r) := by
  cases q <;> exact ⟨fun h => h, rfl, rfl, rfl, Nat.le_refl _⟩

theorem record (e : Encoder) (v : Value) (t : Token) : Unmoved e (e.record v t) := by
  refine ⟨fun h => h, rfl, rfl, rfl, ?_⟩
  unfold Encoder.record RefTable.record
  split <;> exact Nat.le_refl _

theorem allocateRow (e : Encoder) : Unmoved e e.allocateRow.2 :=
  ⟨fun h => h, rfl, rfl, rfl, Nat.le_succ _⟩

theorem emitRejection (e : Encoder) (s : Store) (id : Nat) (reason : Rejection) :
    Unmoved e (e.emitRejection s id reason).1 := by
  cases reason with
  | postpone r => exact ⟨fun h => h, rfl, rfl, rfl, Nat.le_refl _⟩
  | error cause =>
    simp only [Encoder.emitRejection, Encoder.reportError]
    cases e.digest <;> exact ⟨fun h => h, rfl, rfl, rfl, Nat.le_refl _⟩

theorem queueHint (e : Encoder) (h : Hint) : Unmoved e (e.queueHint h).2 := by
  unfold Encoder.queueHint
  split
  · exact ⟨fun h => h, rfl, rfl, rfl, Nat.le_refl _⟩
  · exact ⟨fun h => h, rfl, rfl, rfl, Nat.le_succ _⟩

theorem queueHints (e : Encoder) (hints : List Hint) :
    Unmoved e (hints.foldl (fun e h => (e.queueHint h).2) e) := by
  induction hints generalizing e with
  | nil => exact ⟨fun h => h, rfl, rfl, rfl, Nat.le_refl _⟩
  | cons h hints ih => exact (queueHint e h).trans (ih _)

theorem flush (e : Encoder) (s : Store) : Unmoved e (e.flush s).1 := by
  unfold Encoder.flush
  split
  · exact ⟨fun h => h, rfl, rfl, rfl, Nat.le_refl _⟩
  · dsimp only
    split
    · exact ⟨fun h => (by cases h), rfl, rfl, rfl, Nat.le_refl _⟩
    · exact ⟨fun h => h, rfl, rfl, rfl, Nat.le_refl _⟩

end Encoder.Unmoved

theorem Store.mailboxes_flush (e : Encoder) (s : Store) :
    (e.flush s).2.mailboxes = s.mailboxes := by
  unfold Encoder.flush
  split
  · rfl
  · dsimp only
    split <;> rfl

theorem Store.emitRejection_eq (e : Encoder) (s : Store) (id : Nat) (reason : Rejection) :
    (e.emitRejection s id reason).2.cells = s.cells ∧
      (e.emitRejection s id reason).2.mailboxes = s.mailboxes := by
  cases reason with
  | postpone r =>
    simp only [Encoder.emitRejection]
    split <;> exact ⟨rfl, rfl⟩
  | error cause =>
    simp only [Encoder.emitRejection, Encoder.reportError]
    cases e.digest <;> exact ⟨rfl, rfl⟩

/-! ### The invariant -/

namespace Awake

variable {Source : CellId → Prop} {mailbox : Nat} {news : List Ping} {own : List Nat}
  {held : List (Nat × CellId)} {e e' : Encoder} {s s' : Store}

theorem unmoved (A : Awake Source mailbox news own held e s) (h : e.Unmoved e') :
    Awake Source mailbox news own held e' s where
  status hs := A.status (h.status hs)
  address := h.mailbox.trans A.address
  there := A.there
  wakers id := by rw [A.wakers, Encoder.taskIds, Encoder.taskIds, h.tasks]
  tasks := by rw [Encoder.taskIds, h.tasks]; exact A.tasks
  taskBound id hid := Nat.lt_of_lt_of_le (A.taskBound id (by rwa [Encoder.taskIds, h.tasks] at hid))
    h.nextId
  ready := by rw [h.tasks]; exact A.ready
  recalled := by rw [h.tasks]; exact A.recalled
  streams := by rw [Encoder.streamIds, h.streams]; exact A.streams
  streamBound id hid := Nat.lt_of_lt_of_le (A.streamBound id
    (by rwa [Encoder.streamIds, h.streams] at hid)) h.nextId
  sources := by rw [h.streams]; exact A.sources
  reading := A.reading
  unread := A.unread

/-- The store changes, and the streams in use are among those that others leave alone. -/
theorem turns_of {Source' : CellId → Prop} (A : Awake Source mailbox news own held e s)
    (h : Turns Source' mailbox s s')
    (hopen : ∀ t ∈ e.streams, ∀ c, t.model = .cell c → Source c → Source' c)
    (hheld : ∀ p ∈ held, Source p.2 → Source' p.2)
    (hunread : ∀ c, Source c → ∀ st, s'.stream? c = some st → st.Unread) :
    Awake Source mailbox news own held e s' where
  status := A.status
  address := A.address
  there := Nat.lt_of_lt_of_le A.there h.size
  wakers id := by rw [h.wakers A.there, A.wakers]
  tasks := A.tasks
  taskBound := A.taskBound
  ready := A.ready
  recalled t ht p hp := h.promises p (A.recalled t ht p hp)
  streams := A.streams
  streamBound := A.streamBound
  sources t ht := by
    obtain ⟨c, hc, hopenAt⟩ := A.sources t ht
    refine ⟨c, hc, fun hsource => ?_⟩
    obtain ⟨st, hst, hserves, hnews⟩ := hopenAt hsource
    obtain ⟨st', hst', hturned⟩ := h.streams A.there c (hopen t ht c hc hsource) st hst
    refine ⟨st', hst', hserves.turned hturned, fun hb => ?_⟩
    rcases hturned.news hb with hold | htold
    · exact List.append_subset.mpr ⟨List.subset_append_left _ _, List.subset_append_of_subset_right
        _ h.pings⟩ (hnews hold)
    · exact List.mem_append_right _ (htold t.id hserves.subscriber)
  reading p hp hsource := by
    obtain ⟨st, hst, hserves⟩ := A.reading p hp hsource
    obtain ⟨st', hst', hturned⟩ := h.streams A.there p.2 (hheld p hp hsource) st hst
    exact ⟨st', hst', hserves.turned hturned⟩
  unread := hunread

/-- **Others are at work.** -/
theorem turns (A : Awake Source mailbox news own held e s) (h : Turns Source mailbox s s') :
    Awake Source mailbox news own held e s' := by
  refine A.turns_of h (fun _ _ _ _ hc => hc) (fun _ _ hc => hc) fun c hc st' hst' => ?_
  cases hst : s.stream? c with
  | none => exact h.made c hc hst st' hst'
  | some st =>
    obtain ⟨_, hlater, hturned⟩ := h.streams A.there c hc st hst
    obtain rfl := Option.some.inj (hst'.symm.trans hlater)
    exact hturned.unread (A.unread c hc st hst)

/-- Nothing changes that matters. -/
theorem congr (A : Awake Source mailbox news own held e s) (hcells : s'.cells = s.cells)
    (hmailboxes : s'.mailboxes = s.mailboxes) : Awake Source mailbox news own held e s' :=
  A.turns (.of_cells_eq hcells hmailboxes)

/-- A task is given up. -/
theorem disown (A : Awake Source mailbox news (id :: own) held e s) :
    Awake Source mailbox news own held e s :=
  { A with
    tasks := (List.nodup_cons.mp A.tasks).2
    taskBound := fun i hi => A.taskBound i (List.mem_cons_of_mem _ hi) }

/-- A new task is in hand. -/
theorem createTask (A : Awake Source mailbox news own held e s) (model : Value)
    (recalled : List CellId) :
    Awake Source mailbox news ((e.createTask model recalled).1.id :: own) held
      (e.createTask model recalled).2 s ∧
      (e.createTask model recalled).1.id ∉ held.map Prod.fst ++
        (e.createTask model recalled).2.streamIds ∧
      (e.createTask model recalled).1.id < (e.createTask model recalled).2.refs.nextId := by
  have hrecord := Encoder.Unmoved.record e.allocateRow.2 model (.row { row := e.refs.nextId })
  have hnext : e.refs.nextId < (e.createTask model recalled).2.refs.nextId :=
    Nat.lt_of_lt_of_le (Nat.lt_succ_self _) hrecord.nextId
  have A' : Awake Source mailbox news own held (e.createTask model recalled).2 s :=
    (A.unmoved ((Encoder.Unmoved.allocateRow e).trans hrecord)).unmoved
      ⟨fun h => h, rfl, rfl, rfl, Nat.le_refl _⟩
  refine ⟨{ A' with tasks := ?_, taskBound := ?_ }, ?_, hnext⟩
  · exact List.nodup_cons.mpr ⟨fun h => Nat.lt_irrefl _ (A.taskBound _ h), A'.tasks⟩
  · intro id hid
    rcases List.mem_cons.mp hid with rfl | hid
    · exact hnext
    · exact A'.taskBound id hid
  · exact fun h => Nat.lt_irrefl _ (A.streamBound _ h)

/-- **A task is put aside** together with what is going to wake it. -/
theorem keepTask {cb : Callback} (A : Awake Source mailbox [] (t.id :: own) held e s)
    (hcb : cb.wakes? mailbox = some t.id) (hrings : Rings mailbox (timesWoken mailbox [cb]) s s')
    (hpromises : ∀ c, (s.promise? c).isSome → (s'.promise? c).isSome)
    (hstreams : ∀ c, s'.stream? c = s.stream? c) (hready : t.status = .pending)
    (ht : s.Promises t.recalled) : Awake Source mailbox [] own held (e.keepTask t) s' where
  status := A.status
  address := A.address
  there := by rw [hrings.size]; exact A.there
  wakers id := by
    have hold := A.wakers id
    have hnew := hrings.wakers A.there id
    have htimes : timesWoken mailbox [cb] id = [t.id].count id := by simp [timesWoken, hcb]
    have hcount : ([t.id] ++ e.taskIds).count id = [t.id].count id + e.taskIds.count id :=
      List.count_append
    change _ = ([t.id] ++ e.taskIds).count id
    omega
  tasks := List.perm_middle.nodup_iff.mpr A.tasks
  taskBound id hid := A.taskBound id (List.perm_middle.mem_iff.mp hid)
  ready := List.forall_mem_cons.mpr ⟨hready, A.ready⟩
  recalled u hu p hp := by
    rcases List.mem_cons.mp hu with rfl | hu
    · exact hpromises p (ht p hp)
    · exact hpromises p (A.recalled u hu p hp)
  streams := A.streams
  streamBound := A.streamBound
  sources u hu := by
    obtain ⟨c, hc, hopen⟩ := A.sources u hu
    refine ⟨c, hc, fun hsource => ?_⟩
    obtain ⟨st, hst, hserves, hnews⟩ := hopen hsource
    exact ⟨st, (hstreams c).trans hst, hserves, fun hb => hrings.pings (hnews hb)⟩
  reading p hp hsource := by
    obtain ⟨st, hst, hserves⟩ := A.reading p hp hsource
    exact ⟨st, (hstreams p.2).trans hst, hserves⟩
  unread c hc st hst := A.unread c hc st ((hstreams c).symm.trans hst)

/-- **A message finds its task.** -/
theorem takeTask {p : Ping} (A : Awake Source mailbox [p] own held e s) (hp : p.wakes? = some id) :
    ∃ t e', e.takeTask id = (some t, e') ∧ t.id = id ∧ t.status = .pending ∧ s.Promises t.recalled ∧
      Awake Source mailbox [] (id :: own) held e' s := by
  have hnews : [p].filterMap Ping.wakes? = [id] := by simp [hp]
  cases htake : e.takeTask id with
  | mk r e' =>
    cases r with
    | none =>
      have hcount := A.wakers id
      rw [hnews, List.count_eq_zero_of_not_mem (Ledger.takeTask_none htake).2] at hcount
      simp at hcount
    | some t =>
      unfold Encoder.takeTask at htake
      split at htake
      case h_2 => cases htake
      rename_i u hu
      obtain ⟨rfl, rfl⟩ : u = t ∧ { e with tasks := e.tasks.filter (·.id != id) } =
        e' := by simpa using htake
      obtain rfl : u.id = id := by simpa using List.find?_some hu
      have hmem := List.mem_of_find?_eq_some hu
      have hperm : (u.id :: (e.tasks.filter (·.id != u.id)).map (·.id)).Perm e.taskIds :=
        perm_filter_ne hmem (List.nodup_append.mp A.tasks).2.1
      have howned : (u.id :: own ++ (e.tasks.filter (·.id != u.id)).map (·.id)).Perm
          (own ++ e.taskIds) :=
        List.perm_middle.symm.trans (hperm.append_left own)
      refine ⟨u, _, rfl, rfl, A.ready u hmem, A.recalled u hmem, { A with
        wakers := fun id => ?_, tasks := howned.nodup_iff.mpr A.tasks
        taskBound := fun id hid => A.taskBound id (howned.mem_iff.mp hid)
        ready := fun t ht => A.ready t (List.mem_filter.mp ht).1
        recalled := fun t ht => A.recalled t (List.mem_filter.mp ht).1
        sources := fun t ht => ?_ }⟩
      · have hcount := A.wakers id
        rw [hnews, ← hperm.count_eq id, List.count_cons, List.count_cons, List.count_nil] at hcount
        have hgoal : (Encoder.taskIds { e with tasks := e.tasks.filter (·.id != u.id) }).count id =
          ((e.tasks.filter (·.id != u.id)).map (·.id)).count id := rfl
        rw [hgoal, List.filterMap_nil, List.count_nil]
        omega
      · obtain ⟨c, hc, hopen⟩ := A.sources t ht
        refine ⟨c, hc, fun hsource => ?_⟩
        obtain ⟨st, hst, hserves, htold⟩ := hopen hsource
        refine ⟨st, hst, hserves, fun hb => ?_⟩
        rcases List.mem_append.mp (htold hb) with h | h
        · rw [← List.mem_singleton.mp h] at hp
          cases hp
        · exact h

/-- **A message finds its stream**, or the stream has ended. -/
theorem takeStream (A : Awake Source mailbox [.stream id] own held e s) :
    (∃ t e' c, e.takeStream id = (some t, e') ∧ t.id = id ∧ t.model = .cell c ∧
      Awake Source mailbox [] own ((id, c) :: held) e' s) ∨
    e.takeStream id = (none, e) ∧ Awake Source mailbox [] own held e s := by
  have later : ∀ t : Task, t.id ≠ id → ∀ c, OpenAt Source mailbox [.stream id] s t.id c →
      OpenAt Source mailbox [] s t.id c := by
    intro t hne c hopen hsource
    obtain ⟨st, hst, hserves, htold⟩ := hopen hsource
    refine ⟨st, hst, hserves, fun hb => ?_⟩
    rcases List.mem_append.mp (htold hb) with h | h
    · exact absurd (Ping.stream.inj (List.mem_singleton.mp h)) hne
    · exact h
  cases hfind : e.streams.find? (·.id == id) with
  | none =>
    refine .inr ⟨by simp only [Encoder.takeStream,
      hfind], { A with wakers := A.wakers, sources := fun t ht => ?_ }⟩
    obtain ⟨c, hc, hopen⟩ := A.sources t ht
    exact ⟨c, hc, later t (by simpa using List.find?_eq_none.mp hfind t ht) c hopen⟩
  | some u =>
    obtain rfl : u.id = id := by simpa using List.find?_some hfind
    have hmem := List.mem_of_find?_eq_some hfind
    obtain ⟨c, hc, hopen⟩ := A.sources u hmem
    have hperm : (u.id :: (e.streams.filter (·.id != u.id)).map (·.id)).Perm e.streamIds :=
      perm_filter_ne hmem (List.nodup_append.mp A.streams).2.1
    have hheld : (u.id :: held.map Prod.fst ++ (e.streams.filter (·.id != u.id)).map (·.id)).Perm
        (held.map Prod.fst ++ e.streamIds) := List.perm_middle.symm.trans (hperm.append_left _)
    refine .inl ⟨u, { e with streams := e.streams.filter (·.id != u.id) },
      c, by simp only [Encoder.takeStream, hfind], rfl, hc, { A with
        wakers := A.wakers, streams := hheld.nodup_iff.mpr A.streams
        streamBound := fun id hid => A.streamBound id (hheld.mem_iff.mp hid)
        sources := fun t ht => ?_, reading := fun p hp => ?_ }⟩
    · obtain ⟨ht, hne⟩ := List.mem_filter.mp ht
      obtain ⟨c', hc', hopen'⟩ := A.sources t ht
      exact ⟨c', hc', later t (by simpa using hne) c' hopen'⟩
    · rcases List.mem_cons.mp hp with rfl | hp
      · intro hsource
        obtain ⟨st, hst, hserves, -⟩ := hopen hsource
        exact ⟨st, hst, hserves⟩
      · exact A.reading p hp

/-- An open stream is kept. -/
theorem keepStream (A : Awake Source mailbox news own held e s)
    (hid : t.id ∉ held.map Prod.fst ++ e.streamIds) (hbound : t.id < e.refs.nextId)
    (hmodel : t.model = .cell c) (hopen : OpenAt Source mailbox news s t.id c) :
    Awake Source mailbox news own held (e.keepStream t) s := by
  have hperm : (Encoder.insertTask t e.streams).Perm (t :: e.streams) :=
    perm_insertTask fun h => hid (List.mem_append_right _ h)
  have hall : (held.map Prod.fst ++ (e.keepStream t).streamIds).Perm (t.id ::
      (held.map Prod.fst ++ e.streamIds)) :=
    ((hperm.map _).append_left _).trans List.perm_middle
  refine { A with
    wakers := A.wakers
    streams := hall.nodup_iff.mpr (List.nodup_cons.mpr ⟨hid, A.streams⟩), streamBound :=
      fun id h => ?_,
    sources := fun u hu => ?_ }
  · rcases List.mem_cons.mp (hall.mem_iff.mp h) with rfl | h
    · exact hbound
    · exact A.streamBound id h
  · rcases List.mem_cons.mp (hperm.mem_iff.mp hu) with rfl | hu
    · exact ⟨c, hmodel, hopen⟩
    · exact A.sources u hu

/-- A stream is let go, and may change from now on. -/
theorem letGo (A : Awake Source mailbox news own ((id, c) :: held) e s) (h : OnlyAt c s s')
    (hunread : Source c → ∀ st, s'.stream? c = some st → st.Unread) :
    Awake Source mailbox news own held e s' := by
  have hfresh := List.nodup_cons.mp A.streams
  -- no other stream in use is in the cell, since it has one subscriber
  have hne : ∀ id' c', id' ≠ id → Source c' → HeldAt Source mailbox s id' c' → c' ≠ c := by
    rintro id' c' hid hsource hheld rfl
    obtain ⟨st, hst, hserves⟩ := A.reading _ List.mem_cons_self hsource
    obtain ⟨st', hst', hserves'⟩ := hheld hsource
    obtain rfl := Option.some.inj (hst.symm.trans hst')
    exact hid (Prod.mk.inj (Option.some.inj (hserves'.subscriber.symm.trans hserves.subscriber))).2
  have A' : Awake Source mailbox news own held e s :=
    { A with
      streams := hfresh.2, streamBound := fun i hi => A.streamBound i (List.mem_cons_of_mem _ hi)
      reading := fun p hp => A.reading p (List.mem_cons_of_mem _ hp) }
  have hturns : Turns (fun c' => Source c' ∧ c' ≠ c) mailbox s s' := by
    have hrings : Rings mailbox (fun _ => 0) s s' := h.rings
    refine ⟨Nat.le_of_eq hrings.size.symm, hrings.pings, fun hm task =>
      (hrings.wakers hm task).trans (Nat.add_zero _),
      fun c' hc' => by rwa [h.promises c'], fun _ c' hc' st hst => ⟨st,
        (h.streams c' hc'.2).trans hst, .refl st⟩,
      fun c' hc' hst st hst' => ?_⟩
    rw [h.streams c' hc'.2, hst] at hst'
    cases hst'
  refine A'.turns_of hturns (fun t ht c' hc' hsource => ⟨hsource, ?_⟩)
    (fun p hp hsource => ⟨hsource, ?_⟩) fun c' hc' st hst => ?_
  · obtain ⟨c'', hc'', hopen⟩ := A.sources t ht
    obtain rfl := Value.cell.inj (hc''.symm.trans hc')
    refine hne t.id c'' (fun hid => hfresh.1 (List.mem_append_right _ ?_)) hsource fun h => ?_
    · exact hid ▸ List.mem_map_of_mem ht
    · obtain ⟨st, hst, hserves, -⟩ := hopen h
      exact ⟨st, hst, hserves⟩
  · refine hne p.1 p.2 (fun hid => hfresh.1 (List.mem_append_left _ ?_)) hsource
      (A.reading p (List.mem_cons_of_mem _ hp))
    exact List.mem_map.mpr ⟨p, hp, hid⟩
  · by_cases hne' : c' = c
    · subst hne'
      exact hunread hc' st hst
    · exact A.unread c' hc' st ((h.streams c' hne').symm.trans hst)

/-- A stream is taken in hand. -/
theorem hold (A : Awake Source mailbox news own held e s)
    (hid : id ∉ held.map Prod.fst ++ e.streamIds) (hbound : id < e.refs.nextId)
    (h : HeldAt Source mailbox s id c) : Awake Source mailbox news own ((id, c) :: held) e s :=
  { A with
    streams := List.nodup_cons.mpr ⟨hid, A.streams⟩
    streamBound := fun i hi => by
      rcases List.mem_cons.mp hi with rfl | hi
      · exact hbound
      · exact A.streamBound i hi
    reading := fun p hp => by
      rcases List.mem_cons.mp hp with rfl | hp
      · exact h
      · exact A.reading p hp }

/-- **A stream is opened** that nobody else reads. -/
theorem subscribe {st : Stream} (A : Awake Source mailbox [] own held e s)
    (hid : t.id ∉ held.map Prod.fst ++ e.streamIds) (hbound : t.id < e.refs.nextId)
    (hmodel : t.model = .cell c) (hst : s.stream? c = some st) (hfree : st.locked = false) :
    ∃ s', s.subscribe c mailbox t.id = .ok s' ∧
      Awake Source mailbox [] own held (e.keepStream t) s' := by
  obtain ⟨s', hsubscribe, hrings, hpromises, hnew, hother, htold⟩ :=
    Store.exists_subscribe hst hfree mailbox t.id
  refine ⟨s', hsubscribe, ?_⟩
  -- the streams in use are locked, and this one is not
  have hne : ∀ id' c', Source c' → HeldAt Source mailbox s id' c' → c' ≠ c := by
    rintro id' c' hsource hheld rfl
    obtain ⟨st', hst', hserves⟩ := hheld hsource
    obtain rfl := Option.some.inj (hst.symm.trans hst')
    rw [hserves.locked] at hfree
    cases hfree
  have hturns : Turns (fun c' => Source c' ∧ c' ≠ c) mailbox s s' := by
    refine ⟨Nat.le_of_eq hrings.size.symm, hrings.pings, fun hm task =>
      (hrings.wakers hm task).trans (Nat.add_zero _),
      fun c' hc' => by rwa [hpromises c'], fun _ c' hc' st hst => ⟨st,
        (hother c' hc'.2).trans hst, .refl st⟩,
      fun c' hc' hst st hst' => ?_⟩
    rw [hother c' hc'.2, hst] at hst'
    cases hst'
  have A' : Awake Source mailbox [] own held e s' := by
    refine A.turns_of hturns (fun u hu c' hc' hsource => ⟨hsource, ?_⟩)
      (fun p hp hsource => ⟨hsource, ?_⟩) fun c' hc' st' hst' => ?_
    · obtain ⟨c'', hc'', hopen⟩ := A.sources u hu
      obtain rfl := Value.cell.inj (hc''.symm.trans hc')
      refine hne u.id c'' hsource fun h => ?_
      obtain ⟨st', hst', hserves, -⟩ := hopen h
      exact ⟨st', hst', hserves⟩
    · exact hne p.1 p.2 hsource (A.reading p hp)
    · by_cases hc : c' = c
      · subst hc
        obtain rfl := Option.some.inj (hnew.symm.trans hst')
        rintro ⟨⟩
      · exact A.unread c' hc' st' ((hother c' hc).symm.trans hst')
  refine A'.keepStream hid hbound hmodel fun hsource => ⟨_, hnew, ?_, htold A.there⟩
  obtain ⟨hwhole, hcancelled⟩ := A.unread c hsource st hst hfree
  exact ⟨rfl, rfl, hcancelled, hwhole⟩

/-- **The next event of a stream in hand is read.** -/
theorem next {id : Nat} {c : CellId} (A : Awake Source mailbox news own ((id, c) :: held) e s) :
    ((∀ ev, (s.next c).1 = some ev → ev.isTerminal = false) →
      Awake Source mailbox news own ((id, c) :: held) e (s.next c).2) ∧
      Awake Source mailbox news own held e (s.next c).2 ∧
      ((s.next c).1 = none → OpenAt Source mailbox news (s.next c).2 id c) := by
  have honly := Store.onlyAt_next s c
  have hnext : ∀ hsource : Source c, ∃ st', (s.next c).2.stream? c = some st' ∧
      st'.subscriber = some (mailbox, id) ∧
      st'.locked = true ∧ st'.cancelled = none ∧ ((s.next c).1 = none → st'.buffer = []) ∧
      ((∀ ev, (s.next c).1 = some ev → ev.isTerminal = false) → st'.Whole) := by
    intro hsource
    obtain ⟨st, hst, hserves⟩ := A.reading _ List.mem_cons_self hsource
    obtain ⟨-, st', hst', hsubscriber, hlocked, hcancelled, hempty, hwhole⟩ := Store.next_onlyAt hst
    exact ⟨st', hst', hsubscriber.trans hserves.subscriber, hlocked.trans hserves.locked,
      hcancelled.trans hserves.cancelled, hempty, fun hitem => hwhole hitem hserves.whole⟩
  have hgone : Awake Source mailbox news own held e (s.next c).2 := by
    refine A.letGo honly fun hsource st hst => ?_
    obtain ⟨st', hst', -, hlocked, -⟩ := hnext hsource
    obtain rfl := Option.some.inj (hst.symm.trans hst')
    intro hfree
    rw [hlocked] at hfree
    cases hfree
  refine ⟨fun hitem => hgone.hold (List.nodup_cons.mp A.streams).1
    (A.streamBound id List.mem_cons_self) fun hsource => ?_, hgone,
    fun hnone hsource => ?_⟩
  · obtain ⟨st', hst', hsubscriber, hlocked, hcancelled, -, hwhole⟩ := hnext hsource
    exact ⟨st', hst', hsubscriber, hlocked, hcancelled, hwhole hitem⟩
  · obtain ⟨st', hst', hsubscriber, hlocked, hcancelled, hempty, hwhole⟩ := hnext hsource
    refine ⟨st', hst', ⟨hsubscriber, hlocked, hcancelled, hwhole fun ev hev => ?_⟩,
      fun hb => absurd (hempty hnone) hb⟩
    rw [hnone] at hev
    cases hev

/-- A stream in hand is cancelled. -/
theorem cancel (A : Awake Source mailbox news own ((id, c) :: held) e s) (r : Rejection) :
    Awake Source mailbox news own held e (s.cancel c r) := by
  obtain ⟨honly, hlocked⟩ := Store.onlyAt_cancel s c r
  refine A.letGo honly fun hsource st hst hfree => ?_
  obtain ⟨st', hst', heq⟩ := hlocked st hst
  obtain ⟨st'', hst'', hserves⟩ := A.reading _ List.mem_cons_self hsource
  obtain rfl := Option.some.inj (hst'.symm.trans hst'')
  rw [heq, hserves.locked] at hfree
  cases hfree

/-- **A message is taken** out of the mailbox. -/
theorem receive {p : Ping} (A : Awake Source mailbox [] own held e s)
    (hp : (s.receive mailbox).1 = some p) :
    Awake Source mailbox [p] own held e (s.receive mailbox).2 := by
  obtain ⟨hcells, hsize, hpings⟩ := Store.receive_of_some hp
  have hpromise := Store.promise?_congr hcells
  have hstream := Store.stream?_congr hcells
  refine { A with
    there := hsize.symm ▸ A.there, wakers := fun id => ?_, recalled :=
      fun t ht q hq => ?_, sources := fun t ht => ?_
    reading := fun q hq hsource => ?_, unread := fun c hc st hst => A.unread c hc st
      ((hstream c).symm.trans hst) }
  · have hcount : s.heard mailbox id = ([p].filterMap Ping.wakes?).count id +
        (s.receive mailbox).2.heard mailbox id := by
      rw [Store.heard, hpings, Store.heard, ← List.count_append, ← List.filterMap_append]
      rfl
    have hawaited : (s.receive mailbox).2.awaited mailbox id = s.awaited mailbox id :=
      Store.awaited_congr (Store.calls_congr hpromise) id
    have hold := A.wakers id
    rw [List.filterMap_nil, List.count_nil] at hold
    rw [Store.wakers] at hold ⊢
    omega
  · rw [hpromise]
    exact A.recalled t ht q hq
  · obtain ⟨c, hc, hopen⟩ := A.sources t ht
    refine ⟨c, hc, fun hsource => ?_⟩
    obtain ⟨st, hst, hserves, hnews⟩ := hopen hsource
    refine ⟨st, (hstream c).trans hst, hserves, fun hb => ?_⟩
    have htold := hnews hb
    rw [List.nil_append, hpings] at htold
    exact htold
  · obtain ⟨st, hst, hserves⟩ := A.reading q hq hsource
    exact ⟨st, (hstream q.2).trans hst, hserves⟩

theorem flush (A : Awake Source mailbox news own held e s) :
    Awake Source mailbox news own held (e.flush s).1 (e.flush s).2 :=
  (A.unmoved (Encoder.Unmoved.flush e s)).congr (Encoder.cells_flush e s)
    (Store.mailboxes_flush e s)

end Awake

end GraphRows
