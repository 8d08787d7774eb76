import GraphRows.Proofs.Store.Outcomes

/-!
# Who will be woken

A task that waits is woken through its mailbox: by a message that is already there, or by a callback
on a promise that is still pending. `Store.wakers` counts both. Settling a promise turns its
callbacks into messages and so keeps the count, however many promises settle on the way; pushing an
event to a stream and whatever does not concern the mailbox keep it too.

Of a stream that one party alone reads, two things matter: a subscriber is told of every event, and
the event that ends the stream is not lost. `Stream.Whole` says the latter.

`Store.Goes` lists what others may do to the store of a party with a mailbox, and `Store.Turns` is
what the party may rely on. Which streams nobody else reads or cancels is a parameter of both.

## Main results

* `Store.rings_settle`: settling wakes whoever waits, once
* `Store.Goes.turns`: what a party may rely on
-/

namespace GraphRows

variable {c : CellId} {st : Stream}

/-- The task that a callback wakes in a mailbox. -/
def Callback.wakes? (mailbox : Nat) : Callback → Option Nat
  | .retry m task => if m = mailbox then some task else none
  | .deliver m task => if m = mailbox then some task else none
  | .observe _ _ => none

/-- The task that a message wakes. -/
def Ping.wakes? : Ping → Option Nat
  | .retry task => some task
  | .fulfilled task _ => some task
  | .rejected task _ => some task
  | .stream _ => none

/-- The tasks that a promise will wake in a mailbox. -/
def Promise.calls (p : Promise) (mailbox : Nat) : List Nat :=
  if p.outcome.isNone then p.callbacks.filterMap (Callback.wakes? mailbox) else []

namespace Stream

/-- The event that ends the stream has not been read, if it has come. -/
def Whole (st : Stream) : Prop := st.finished = true → ∃ e ∈ st.buffer, e.isTerminal = true

/-- Nobody has read or cancelled the stream before somebody subscribes. -/
def Unread (st : Stream) : Prop := st.locked = false → st.Whole ∧ st.cancelled = none

end Stream

namespace Store

variable {s s' s'' : Store} {mailbox : Nat}

/-- The messages in a mailbox. -/
def pings (s : Store) (mailbox : Nat) : List Ping := ((s.mailboxes[mailbox]?).map (·.pings)).getD []

/-- The tasks that the promise in a cell will wake. -/
def calls (s : Store) (mailbox : Nat) (c : CellId) : List Nat :=
  ((s.promise? c).map (·.calls mailbox)).getD []

/-- How many messages wake a task. -/
def heard (s : Store) (mailbox task : Nat) : Nat :=
  ((s.pings mailbox).filterMap Ping.wakes?).count task

/-- How many callbacks on pending promises wake a task. -/
def awaited (s : Store) (mailbox task : Nat) : Nat :=
  ∑ c ∈ Finset.range s.cells.size, (s.calls mailbox c).count task

/-- How often a task is going to be woken. -/
def wakers (s : Store) (mailbox task : Nat) : Nat := s.heard mailbox task + s.awaited mailbox task

/-! ### Counting -/

theorem calls_of_size_le (h : s.cells.size ≤ c) : s.calls mailbox c = [] := by
  simp [calls, promise?, cell?, h]

theorem calls_of_promise? {p : Promise} (h : s.promise? c = some p) :
    s.calls mailbox c = p.calls mailbox := by
  rw [calls, h]
  rfl

theorem awaited_eq_sum {n : Nat} (h : s.cells.size ≤ n) (mailbox task : Nat) :
    s.awaited mailbox task = ∑ c ∈ Finset.range n, (s.calls mailbox c).count task := by
  refine Finset.sum_subset (Finset.range_mono h) fun c _ hc => ?_
  rw [calls_of_size_le (by simpa using hc)]
  rfl

/-- One cell changes. -/
theorem awaited_update (h : ∀ c', c' ≠ c → s'.calls mailbox c' = s.calls mailbox c') (task : Nat) :
    s'.awaited mailbox task + (s.calls mailbox c).count task = s.awaited mailbox task +
      (s'.calls mailbox c).count task := by
  have hc : c ∈ Finset.range (s.cells.size + s'.cells.size + c + 1) :=
    Finset.mem_range.mpr (by omega)
  have hold := awaited_eq_sum (show s.cells.size ≤ s.cells.size + s'.cells.size + c + 1 by omega)
    mailbox task
  have hnew := awaited_eq_sum (show s'.cells.size ≤ s.cells.size + s'.cells.size + c + 1 by omega)
    mailbox task
  rw [← Finset.add_sum_erase _ _ hc] at hold hnew
  rw [Finset.sum_congr rfl fun c' hc' => by rw [h c' (Finset.ne_of_mem_erase hc')]] at hnew
  omega

theorem awaited_congr (h : ∀ c, s'.calls mailbox c = s.calls mailbox c) (task : Nat) :
    s'.awaited mailbox task = s.awaited mailbox task := by
  have hupdate := awaited_update (c := 0) (fun c' _ => h c') task
  rw [h 0] at hupdate
  omega

theorem calls_congr (h : ∀ c, s'.promise? c = s.promise? c) (c : CellId) :
    s'.calls mailbox c = s.calls mailbox c := by
  rw [calls, h, calls]

theorem wakers_congr (hcells : s'.cells = s.cells) (hpings : s'.pings mailbox = s.pings mailbox)
    (task : Nat) : s'.wakers mailbox task = s.wakers mailbox task := by
  rw [wakers, wakers, heard, heard, hpings, awaited_congr (calls_congr (promise?_congr hcells))]

/-- Exactly one callback wakes the task, and the promise it is on is pending. -/
def AwaitedOnce (s : Store) (mailbox task : Nat) : Prop :=
  ∃ c p, s.promise? c = some p ∧ p.outcome = none ∧
    (p.callbacks.filterMap (Callback.wakes? mailbox)).count task = 1 ∧
    ∀ c' p', c' ≠ c → s.promise? c' = some p' → p'.outcome = none → ∀ cb ∈ p'.callbacks,
      cb.wakes? mailbox ≠ some task

theorem awaitedOnce_of_awaited {task : Nat} (h : s.awaited mailbox task = 1) :
    s.AwaitedOnce mailbox task := by
  obtain ⟨c, hc, hne⟩ := Finset.exists_ne_zero_of_sum_ne_zero
    (show s.awaited mailbox task ≠ 0 by omega)
  have hsum := Finset.add_sum_erase (Finset.range s.cells.size)
    (fun c => (s.calls mailbox c).count task) hc
  rw [← awaited, h] at hsum
  have hrest : ∀ c' ∈ (Finset.range s.cells.size).erase c, (s.calls mailbox c').count task = 0 :=
    Finset.sum_eq_zero_iff.mp (by omega)
  cases hp : s.promise? c with
  | none => exact absurd (by rw [calls, hp]; rfl) hne
  | some p =>
    rw [calls_of_promise? hp] at hne hsum
    cases houtcome : p.outcome with
    | some o => exact absurd (by rw [Promise.calls, houtcome]; rfl) hne
    | none =>
      have hcalls : p.calls mailbox = p.callbacks.filterMap (Callback.wakes? mailbox) := by
        rw [Promise.calls, houtcome]; rfl
      rw [hcalls] at hne hsum
      refine ⟨c, p, hp, houtcome, by omega, fun c' p' hc' hp' houtcome' cb hcb hwakes => ?_⟩
      have hmem : c' ∈ (Finset.range s.cells.size).erase c :=
        Finset.mem_erase.mpr ⟨hc', Finset.mem_range.mpr (cell?_lt_size (promise?_eq_some hp'))⟩
      have hcalls' : s.calls mailbox c' = p'.callbacks.filterMap (Callback.wakes? mailbox) := by
        rw [calls_of_promise? hp', Promise.calls, houtcome']
        rfl
      refine List.count_eq_zero.mp (hrest c' hmem) ?_
      rw [hcalls']
      exact List.mem_filterMap.mpr ⟨cb, hcb, hwakes⟩

/-! ### Messages -/

/-- A message goes to the end of its mailbox. -/
theorem mailboxes_post (s : Store) (m : Nat) (p : Ping) :
    (s.post m p).mailboxes = s.mailboxes.modify m fun b => ⟨b.pings ++ [p], none⟩ := by
  unfold post
  cases hm : s.mailboxes[m]? with
  | none =>
    refine Array.ext_getElem? fun i => ?_
    rw [Array.getElem?_modify]
    by_cases h : m = i
    · rw [if_pos h, ← h, hm]
      rfl
    · rw [if_neg h]
  | some b =>
    have hset : s.mailboxes.setIfInBounds m ⟨b.pings ++ [p], none⟩ = s.mailboxes.modify m fun b =>
        ⟨b.pings ++ [p], none⟩ := by
      refine Array.ext_getElem? fun i => ?_
      rw [Array.getElem?_modify, Array.getElem?_setIfInBounds]
      by_cases h : m = i
      · rw [if_pos h, if_pos h, ← h, hm, if_pos (Array.getElem?_eq_some_iff.mp hm).1]
        rfl
      · rw [if_neg h, if_neg h]
    dsimp only
    cases b.bell <;> exact hset

theorem size_post (s : Store) (m : Nat) (p : Ping) :
    (s.post m p).mailboxes.size = s.mailboxes.size := by
  rw [mailboxes_post, Array.size_modify]

theorem pings_congr (h : s'.mailboxes = s.mailboxes) (mailbox : Nat) :
    s'.pings mailbox = s.pings mailbox := by
  rw [pings, h, pings]

theorem pings_post_self (s : Store) (h : mailbox < s.mailboxes.size) (p : Ping) :
    (s.post mailbox p).pings mailbox = s.pings mailbox ++ [p] := by
  rw [pings, pings, mailboxes_post, Array.getElem?_modify, if_pos rfl, Array.getElem?_eq_getElem h]
  rfl

theorem pings_post_ne (s : Store) {m : Nat} (h : m ≠ mailbox) (p : Ping) :
    (s.post m p).pings mailbox = s.pings mailbox := by
  rw [pings, pings, mailboxes_post, Array.getElem?_modify, if_neg h]

theorem pings_subset_post (s : Store) (m : Nat) (p : Ping) :
    s.pings mailbox ⊆ (s.post m p).pings mailbox := by
  by_cases h : m = mailbox
  · subst h
    by_cases hm : m < s.mailboxes.size
    · rw [pings_post_self s hm]
      exact List.subset_append_left _ _
    · have hnone : s.mailboxes[m]? = none := Array.getElem?_eq_none (Nat.le_of_not_lt hm)
      simp [pings, hnone]
  · rw [pings_post_ne s h]
    exact List.Subset.refl _

/-- A message wakes its task. -/
theorem wakers_post (s : Store) (h : mailbox < s.mailboxes.size) (m : Nat) (p : Ping) (task : Nat) :
    (s.post m p).wakers mailbox task =
      s.wakers mailbox task + if m = mailbox then (p.wakes?.toList).count task else 0 := by
  have hawaited : (s.post m p).awaited mailbox task = s.awaited mailbox task :=
    awaited_congr (calls_congr (promise?_congr (post_eq s m p).1)) task
  rw [wakers, wakers, hawaited, heard, heard]
  by_cases hm : m = mailbox
  · subst hm
    rw [pings_post_self s h, if_pos rfl, List.filterMap_append, List.count_append]
    have hsingle : ([p].filterMap Ping.wakes?) = p.wakes?.toList := by cases p <;> rfl
    rw [hsingle]
    omega
  · rw [pings_post_ne s hm, if_neg hm]
    omega

/-! ### Settling -/

/-- The mailboxes are there, no message is gone, and every task is going to be woken as often as
before and `extra` times more. -/
structure Rings (mailbox : Nat) (extra : Nat → Nat) (s s' : Store) : Prop where
  size : s'.mailboxes.size = s.mailboxes.size
  pings : s.pings mailbox ⊆ s'.pings mailbox
  wakers : mailbox < s.mailboxes.size → ∀ task, s'.wakers mailbox task =
    s.wakers mailbox task + extra task

namespace Rings

variable {f g : Nat → Nat}

theorem trans (h : Rings mailbox f s s') (h' : Rings mailbox g s' s'') :
    Rings mailbox (fun n => f n + g n) s s'' := by
  refine ⟨h'.size.trans h.size, List.Subset.trans h.pings h'.pings, fun hm task => ?_⟩
  rw [h'.wakers (h.size.symm ▸ hm), h.wakers hm, Nat.add_assoc]

theorem of_cells_eq (hcells : s'.cells = s.cells) (hmailboxes : s'.mailboxes = s.mailboxes) :
    Rings mailbox (fun _ => 0) s s' := by
  have hpings : s'.pings mailbox = s.pings mailbox := by rw [Store.pings, hmailboxes, Store.pings]
  exact ⟨by
    rw [hmailboxes], by
      rw [hpings]; exact List.Subset.refl _, fun _ task => wakers_congr hcells hpings task⟩

theorem congr (h : Rings mailbox f s s') (hfg : ∀ n, f n = g n) : Rings mailbox g s s' :=
  (funext hfg : f = g) ▸ h

end Rings

/-- How often a callback wakes a task. -/
def timesWoken (mailbox : Nat) (callbacks : List Callback) (task : Nat) : Nat :=
  (callbacks.filterMap (Callback.wakes? mailbox)).count task

theorem timesWoken_cons (cb : Callback) (callbacks : List Callback) (task : Nat) :
    timesWoken mailbox (cb :: callbacks) task = timesWoken mailbox [cb] task +
      timesWoken mailbox callbacks task := by
  rw [timesWoken, timesWoken, timesWoken, ← List.count_append, ← List.filterMap_append]
  rfl

/-- **A callback runs**, and wakes whom it has to wake. -/
theorem rings_callWith {settle : CellId → Outcome → Store → Store}
    (hsettle : ∀ id o s, Rings mailbox (fun _ => 0) s (settle id o s)) (cb : Callback) (o : Outcome)
    (s : Store) : Rings mailbox (timesWoken mailbox [cb]) s (callWith settle cb o s) := by
  have hpost : ∀ (m task : Nat) (p : Ping), p.wakes? = some task → ∀ f : Nat → Nat,
      (∀ n, f n = if m = mailbox then [task].count n else 0) → Rings mailbox f s (s.post m p) := by
    intro m task p hp f hf
    refine ⟨size_post s m p, pings_subset_post s m p, fun hm n => ?_⟩
    rw [wakers_post s hm, hf, hp]
    rfl
  have htimes : ∀ m task n : Nat, ([if m = mailbox then some task else none].filterMap id).count n =
      if m = mailbox then [task].count n else 0 := by
    intro m task n
    split <;> simp
  cases cb with
  | retry m task => exact hpost m task _ rfl _ fun n => htimes m task n
  | deliver m task =>
    cases o with
    | ok v => exact hpost m task _ rfl _ fun n => htimes m task n
    | error r => exact hpost m task _ rfl _ fun n => htimes m task n
  | observe label forward =>
    have hnote : Rings mailbox (fun _ => 0) s (s.note (.settled label (s.reportOutcome o))) :=
      .of_cells_eq rfl rfl
    unfold callWith
    dsimp only
    split
    · exact (hnote.trans (hsettle _ o _)).congr fun _ => rfl
    · exact hnote.congr fun _ => rfl

/-- **Settling a promise** turns its callbacks into messages. -/
theorem rings_settleWith (fuel : Nat) : ∀ (id : CellId) (o : Outcome) (s : Store),
    Rings mailbox (fun _ => 0) s (settleWith fuel id o s).2 := by
  induction fuel with
  | zero => exact fun _ _ s => .of_cells_eq rfl rfl
  | succ fuel ih =>
    intro id o s
    unfold settleWith
    split
    · rename_i callbacks bells hp
      have hcalls : ∀ (l : List Callback) (t : Store), Rings mailbox (timesWoken mailbox l) t
          (l.foldl (fun s cb => callWith (fun q o s => (settleWith fuel q o s).2) cb o s) t) := by
        intro l
        induction l with
        | nil => exact fun t => .of_cells_eq rfl rfl
        | cons cb l ihl =>
          exact fun t => ((rings_callWith ih cb o t).trans (ihl _)).congr fun n =>
            (timesWoken_cons cb l n).symm
      have hbells : ∀ (l : List Nat) (t : Store),
          Rings mailbox (fun _ => 0) t (l.foldl ring t) := by
        intro l
        induction l with
        | nil => exact fun t => .of_cells_eq rfl rfl
        | cons bell l ihl =>
          intro t
          have hring : Rings mailbox (fun _ => 0) t (t.ring bell) := .of_cells_eq rfl rfl
          exact (hring.trans (ihl _)).congr fun _ => rfl
      have htold := (hcalls callbacks (s.write id (.promise ⟨some o, [], []⟩))).trans
        (hbells bells _)
      refine ⟨htold.size, htold.pings, fun hm task => ?_⟩
      -- the callbacks are taken off the promise before they run
      have hnew := promise?_of_cell? (cell?_write_self s (.promise ⟨some o, [], []⟩)
        (cell?_lt_size (promise?_eq_some hp)))
      have hupdate : (s.write id (.promise ⟨some o, [], []⟩)).awaited mailbox task +
          (s.calls mailbox id).count task =
          s.awaited mailbox task + ((s.write id (.promise ⟨some o, [], []⟩)).calls mailbox id).count
            task :=
        awaited_update (fun c hc => by simp only [calls, promise?, cell?_write_ne s _ (Ne.symm hc)])
          task
      have htaken : (s.calls mailbox id).count task = timesWoken mailbox callbacks task := by
        rw [calls_of_promise? hp]
        rfl
      have hempty : ((s.write id (.promise ⟨some o, [], []⟩)).calls mailbox id).count task = 0 := by
        rw [calls_of_promise? hnew]
        rfl
      have hheard : (s.write id (.promise ⟨some o, [], []⟩)).heard mailbox task =
        s.heard mailbox task := rfl
      rw [htold.wakers hm task, wakers, wakers, hheard]
      omega
    · exact .of_cells_eq rfl rfl

theorem rings_settle (s : Store) (id : CellId) (o : Outcome) :
    Rings mailbox (fun _ => 0) s (s.settle id o).2 :=
  rings_settleWith _ id o s

theorem Settles.isSome_promise? {o : Outcome} (h : Settles o s s') (c : CellId)
    (hc : (s.promise? c).isSome) : (s'.promise? c).isSome := by
  obtain ⟨p, hp⟩ := Option.isSome_iff_exists.mp hc
  obtain ⟨p', hp', -⟩ := h.promises c p hp
  exact Option.isSome_iff_exists.mpr ⟨p', hp'⟩

/-- **Waiting for a promise** that is there: the task is going to be woken once more. -/
theorem rings_andThen {id : CellId} {p : Promise} (hp : s.promise? id = some p) (cb : Callback) :
    Rings mailbox (timesWoken mailbox [cb]) s (s.andThen id cb) := by
  obtain ⟨outcome, callbacks, bells⟩ := p
  unfold andThen
  rw [hp]
  cases outcome with
  | some o => exact rings_callWith (fun q o s => rings_settle s q o) cb o s
  | none =>
    dsimp only
    refine ⟨rfl, List.Subset.refl _, fun _ task => ?_⟩
    have hnew := promise?_of_cell? (cell?_write_self s (.promise ⟨none, callbacks ++ [cb], bells⟩)
      (cell?_lt_size (promise?_eq_some hp)))
    have hupdate : (s.write id (.promise ⟨none, callbacks ++ [cb], bells⟩)).awaited mailbox task +
          (s.calls mailbox id).count task = s.awaited mailbox task +
          ((s.write id (.promise ⟨none, callbacks ++ [cb], bells⟩)).calls mailbox id).count task :=
      awaited_update (fun c hc => by simp only [calls, promise?, cell?_write_ne s _ (Ne.symm hc)])
        task
    have hcalls :
        ((s.write id (.promise ⟨none, callbacks ++ [cb], bells⟩)).calls mailbox id).count task =
        (s.calls mailbox id).count task + timesWoken mailbox [cb] task := by
      rw [calls_of_promise? hnew, calls_of_promise? hp, timesWoken, ← List.count_append,
        Promise.calls, Promise.calls]
      simp only [Option.isNone_none, if_true, List.filterMap_append]
    have hheard : (s.write id (.promise ⟨none, callbacks ++ [cb], bells⟩)).heard mailbox task =
      s.heard mailbox task := rfl
    rw [wakers, wakers, hheard]
    omega

theorem stream?_andThen (s : Store) (id : CellId) (cb : Callback) (c : CellId) :
    (s.andThen id cb).stream? c = s.stream? c := by
  unfold andThen
  split
  · exact (settles_callWith (fun q s => settles_settle s q _) cb s).streams c
  · rename_i callbacks bells hp
    by_cases h : id = c
    · subst h
      have hcell := promise?_eq_some hp
      rw [stream?, cell?_write_self s _ (cell?_lt_size hcell), stream?, hcell]
    · exact stream?_write_ne h _
  · rfl

theorem isSome_promise?_andThen (s : Store) (id : CellId) (cb : Callback) (c : CellId)
    (hc : (s.promise? c).isSome) : ((s.andThen id cb).promise? c).isSome := by
  unfold andThen
  split
  · exact (settles_callWith (fun q s => settles_settle s q _) cb s).isSome_promise? c hc
  · rename_i callbacks bells hp
    by_cases h : id = c
    · subst h
      rw [promise?_of_cell? (cell?_write_self s _ (cell?_lt_size (promise?_eq_some hp)))]
      rfl
    · simpa only [promise?, cell?_write_ne s _ h] using hc
  · exact hc

/-! ### Streams -/

/-- What becomes of a stream that others do not read: they may push to it, and a subscriber hears of
it. -/
structure Turned (mailbox : Nat) (s : Store) (st st' : Stream) : Prop where
  subscriber : st'.subscriber = st.subscriber
  cancelled : st'.cancelled = st.cancelled
  locked : st.locked = true → st'.locked = true
  whole : st.Whole → st'.Whole
  news : st'.buffer ≠ [] → st.buffer ≠ [] ∨ ∀ task, st.subscriber = some (mailbox, task) →
    .stream task ∈ s.pings mailbox

namespace Turned

variable {st st' st'' : Stream}

theorem refl (st : Stream) : Turned mailbox s st st := ⟨rfl, rfl, fun h => h, fun h => h, .inl⟩

theorem trans (h : Turned mailbox s st st') (hpings : s.pings mailbox ⊆ s'.pings mailbox)
    (h' : Turned mailbox s' st' st'') : Turned mailbox s' st st'' := by
  refine ⟨h'.subscriber.trans h.subscriber, h'.cancelled.trans h.cancelled,
    fun hl => h'.locked (h.locked hl), fun hw => h'.whole (h.whole hw), fun hb => ?_⟩
  rcases h'.news hb with hb' | htold
  · exact (h.news hb').imp_right fun htold task ht => hpings (htold task ht)
  · exact .inr fun task ht => htold task (h.subscriber.trans ht)

theorem unread (h : Turned mailbox s st st') (hst : st.Unread) : st'.Unread := by
  intro hl
  have hold : st.locked = false := Bool.eq_false_iff.mpr
    fun hl' => by rw [h.locked hl'] at hl; cases hl
  exact ⟨h.whole (hst hold).1, h.cancelled.trans (hst hold).2⟩

end Turned

/-- What a party may rely on while others are at work, if nobody else reads or cancels the streams
with `Source`. -/
structure Turns (Source : CellId → Prop) (mailbox : Nat) (s s' : Store) : Prop where
  size : s.mailboxes.size ≤ s'.mailboxes.size
  pings : s.pings mailbox ⊆ s'.pings mailbox
  wakers : mailbox < s.mailboxes.size → ∀ task, s'.wakers mailbox task = s.wakers mailbox task
  promises : ∀ c, (s.promise? c).isSome → (s'.promise? c).isSome
  streams : mailbox < s.mailboxes.size → ∀ c, Source c → ∀ st, s.stream? c = some st →
    ∃ st', s'.stream? c = some st' ∧ Turned mailbox s' st st'
  made : ∀ c, Source c → s.stream? c = none → ∀ st, s'.stream? c = some st → st.Unread

namespace Turns

variable {Source : CellId → Prop}

theorem trans (h : Turns Source mailbox s s') (h' : Turns Source mailbox s' s'')
    (hm : mailbox < s.mailboxes.size) : Turns Source mailbox s s'' := by
  have hm' := Nat.lt_of_lt_of_le hm h.size
  refine ⟨h.size.trans h'.size, List.Subset.trans h.pings h'.pings, fun _ task =>
    (h'.wakers hm' task).trans (h.wakers hm task),
    fun c hc => h'.promises c (h.promises c hc), fun _ c hc st hst => ?_,
      fun c hc hst st'' hst'' => ?_⟩
  · obtain ⟨st', hst', ht⟩ := h.streams hm c hc st hst
    obtain ⟨st'', hst'', ht'⟩ := h'.streams hm' c hc st' hst'
    exact ⟨st'', hst'', ht.trans h'.pings ht'⟩
  · cases hst' : s'.stream? c with
    | none => exact h'.made c hc hst' st'' hst''
    | some st' =>
      obtain ⟨_, hlater, ht⟩ := h'.streams hm' c hc st' hst'
      obtain rfl := Option.some.inj (hst''.symm.trans hlater)
      exact ht.unread (h.made c hc hst st' hst')

/-- A change that concerns no stream. -/
theorem of_rings (h : Rings mailbox (fun _ => 0) s s')
    (hpromises : ∀ c, (s.promise? c).isSome → (s'.promise? c).isSome)
    (hstreams : ∀ c, s'.stream? c = s.stream? c) : Turns Source mailbox s s' := by
  refine ⟨Nat.le_of_eq h.size.symm, h.pings, fun hm task =>
    (h.wakers hm task).trans (Nat.add_zero _), hpromises,
    fun _ c _ st hst => ⟨st, (hstreams c).trans hst, .refl st⟩, fun c _ hst st hst' => ?_⟩
  rw [hstreams, hst] at hst'
  cases hst'

theorem of_cells_eq (hcells : s'.cells = s.cells) (hmailboxes : s'.mailboxes = s.mailboxes) :
    Turns Source mailbox s s' :=
  of_rings (.of_cells_eq hcells hmailboxes) (fun c hc => by rwa [promise?_congr hcells c])
    (stream?_congr hcells)

/-- A cell is made that holds neither a promise nor a stream. -/
theorem alloc (s : Store) {cell : Cell} (hp : ∀ p, cell ≠ .promise p)
    (hst : ∀ st, cell ≠ .stream st) : Turns Source mailbox s (s.alloc cell).2 := by
  have hcell : ∀ c, (s.alloc cell).2.cell? c = s.cell? c ∨ s.cell? c = none ∧
      (s.alloc cell).2.cell? c = some cell := by
    intro c
    rcases Nat.lt_trichotomy c s.cells.size with h | h | h
    · exact .inl (cell?_alloc_old s cell h)
    · exact .inr ⟨by simp [cell?, h], h ▸ cell?_alloc_new s cell⟩
    · refine .inl ?_
      simp [Store.alloc, cell?, Nat.not_lt.mpr (Nat.le_of_lt h), Nat.not_lt.mpr
        (Nat.succ_le_of_lt h)]
  have hpromise : ∀ c, (s.alloc cell).2.promise? c = s.promise? c := by
    intro c
    rcases hcell c with h | ⟨hnone, h⟩
    · simp only [promise?, h]
    · rw [promise?, promise?, h, hnone]
      cases cell with
      | promise p => exact absurd rfl (hp p)
      | _ => rfl
  have hstream : ∀ c, (s.alloc cell).2.stream? c = s.stream? c := by
    intro c
    rcases hcell c with h | ⟨hnone, h⟩
    · simp only [stream?, h]
    · rw [stream?, stream?, h, hnone]
      cases cell with
      | stream st => exact absurd rfl (hst st)
      | _ => rfl
  have hrings : Rings mailbox (fun _ => 0) s (s.alloc cell).2 := by
    refine ⟨rfl, List.Subset.refl _, fun _ task => ?_⟩
    have hheard : (s.alloc cell).2.heard mailbox task = s.heard mailbox task := rfl
    rw [Store.wakers, Store.wakers, hheard, awaited_congr (calls_congr hpromise), Nat.add_zero]
  exact of_rings hrings (fun c hc => by rwa [hpromise c]) hstream

end Turns

/-- What a push does to the mailboxes. -/
theorem push_mailboxes (s : Store) (id : CellId) (e : StreamEvent) :
    (s.push id e).2.mailboxes = s.mailboxes ∨
    ∃ m task, (s.push id e).2.mailboxes = (s.post m (.stream task)).mailboxes := by
  unfold push
  cases hst : s.stream? id with
  | none => exact .inl rfl
  | some st =>
    dsimp only
    split
    · exact .inl rfl
    · cases hsub : st.subscriber with
      | none => cases st.bell <;> exact .inl rfl
      | some p =>
        refine .inr ⟨p.1, p.2, ?_⟩
        rw [mailboxes_post]
        cases st.bell <;> exact mailboxes_post _ _ _

/-- A stream that takes the event tells its subscriber. -/
theorem mem_pings_push {id : CellId} (hst : s.stream? id = some st) (hopen : st.isOpen = true)
    {task : Nat} (hsub : st.subscriber = some (mailbox, task)) (hm : mailbox < s.mailboxes.size)
    (e : StreamEvent) : .stream task ∈ (s.push id e).2.pings mailbox := by
  have hclosed : (st.finished || st.cancelled.isSome) = false := by
    simpa [Stream.isOpen] using hopen
  have hmem : ∀ t : Store, t.mailboxes = s.mailboxes →
      .stream task ∈ (t.post mailbox (.stream task)).pings mailbox := by
    intro t ht
    rw [pings_post_self t (by rw [ht]; exact hm)]
    exact List.mem_append_right _ (List.mem_singleton.mpr rfl)
  unfold push
  rw [hst]
  dsimp only
  rw [hclosed, if_neg Bool.false_ne_true, hsub]
  cases st.bell <;> exact hmem _ rfl

theorem rings_push (s : Store) (id : CellId) (e : StreamEvent) :
    Rings mailbox (fun _ => 0) s (s.push id e).2 := by
  have hawaited : ∀ task, (s.push id e).2.awaited mailbox task = s.awaited mailbox task :=
    awaited_congr (calls_congr (promise?_push s id e))
  obtain heq | ⟨m, told, heq⟩ := push_mailboxes s id e
  · refine ⟨by rw [heq], by rw [pings_congr heq]; exact List.Subset.refl _, fun _ task => ?_⟩
    rw [wakers, wakers, hawaited, heard, heard, pings_congr heq]
    rfl
  · refine ⟨by rw [heq, size_post],
      by rw [pings_congr heq]; exact pings_subset_post s m _, fun hm task => ?_⟩
    have hposted := wakers_post s hm m (.stream told) task
    have hcells : (s.post m (.stream told)).awaited mailbox task = s.awaited mailbox task :=
      awaited_congr (calls_congr (promise?_congr (post_eq s m _).1)) task
    rw [wakers, heard, ← pings_congr heq, hcells] at hposted
    rw [wakers, hawaited, heard, hposted]
    split <;> rfl

/-- **An event pushed to a stream** reaches whoever has subscribed, and the event that ends it is
there to be read. -/
theorem turns_push (Source : CellId → Prop) (mailbox : Nat) (s : Store) (id : CellId)
    (e : StreamEvent) : Turns Source mailbox s (s.push id e).2 := by
  have hrings : Rings mailbox (fun _ => 0) s (s.push id e).2 := rings_push s id e
  have hpromises : ∀ c, (s.promise? c).isSome → ((s.push id e).2.promise? c).isSome :=
      fun c hc => by
    rwa [promise?_push s id e c]
  have hcells := push_cells s id e
  cases hst : s.stream? id with
  | none => exact .of_rings hrings hpromises (stream?_congr (by simpa only [hst] using hcells))
  | some st =>
    simp only [hst] at hcells
    cases hopen : st.isOpen with
    | false =>
      exact .of_rings hrings hpromises (stream?_congr
        (by simpa only [hopen, Bool.false_eq_true, if_false] using hcells))
    | true =>
      rw [if_pos hopen] at hcells
      have hnew : (s.push id e).2.stream? id =
          some { st with buffer := st.buffer ++ [e], finished := e.isTerminal, bell := none } := by
        rw [stream?_congr hcells]
        exact stream?_of_cell? (cell?_write_self s _ (cell?_lt_size (stream?_eq_some hst)))
      have hother : ∀ c, c ≠ id → (s.push id e).2.stream? c = s.stream? c :=
        fun c hc => stream?_push_ne s (Ne.symm hc) e
      refine ⟨Nat.le_of_eq hrings.size.symm, hrings.pings, fun hm task =>
        (hrings.wakers hm task).trans (Nat.add_zero _),
        hpromises, fun hm c _ st' hst' => ?_, fun c _ hnone st' hst' => ?_⟩
      · by_cases hc : c = id
        · subst hc
          obtain rfl := Option.some.inj (hst.symm.trans hst')
          refine ⟨_, hnew, rfl, rfl, fun h => h, fun _ hfinished => ⟨e, by simp, hfinished⟩,
            fun _ => .inr fun task hsub => ?_⟩
          exact mem_pings_push hst hopen hsub hm e
        · exact ⟨st', (hother c hc).trans hst', .refl st'⟩
      · have hc : c ≠ id := by
          rintro rfl
          rw [hst] at hnone
          cases hnone
        rw [hother c hc, hnone] at hst'
        cases hst'

/-! ### Reading -/

/-- Only the stream in `c` changes. -/
structure OnlyAt (c : CellId) (s s' : Store) : Prop where
  mailboxes : s'.mailboxes = s.mailboxes
  promises : ∀ c', s'.promise? c' = s.promise? c'
  streams : ∀ c', c' ≠ c → s'.stream? c' = s.stream? c'

theorem OnlyAt.of_write (hst : s.stream? c = some st) (st' : Stream) :
    OnlyAt c s (s.write c (.stream st')) ∧ (s.write c (.stream st')).stream? c = some st' := by
  have hcell := stream?_eq_some hst
  have hnew := cell?_write_self s (.stream st') (cell?_lt_size hcell)
  refine ⟨⟨rfl, fun c' => ?_, fun c' hc' => stream?_write_ne (Ne.symm hc') _⟩,
    stream?_of_cell? hnew⟩
  by_cases h : c = c'
  · subst h
    rw [promise?, promise?, hnew, hcell]
  · simp only [promise?, cell?_write_ne s _ h]

theorem OnlyAt.rings (h : OnlyAt c s s') : Rings mailbox (fun _ => 0) s s' := by
  have hpings := pings_congr h.mailboxes mailbox
  refine ⟨by rw [h.mailboxes], by rw [hpings]; exact List.Subset.refl _, fun _ task => ?_⟩
  rw [wakers, wakers, heard, heard, hpings, awaited_congr (calls_congr h.promises), Nat.add_zero]

/-- **The next event is read.** There is none only if none is held, and one that does not end the
stream leaves the one that does. -/
theorem next_onlyAt (hst : s.stream? c = some st) :
    OnlyAt c s (s.next c).2 ∧
    ∃ st', (s.next c).2.stream? c = some st' ∧ st'.subscriber = st.subscriber ∧
      st'.locked = st.locked ∧
      st'.cancelled = st.cancelled ∧ ((s.next c).1 = none → st'.buffer = []) ∧
      ((∀ e, (s.next c).1 = some e → e.isTerminal = false) → st.Whole → st'.Whole) := by
  cases hbuffer : st.buffer with
  | nil =>
    have hnext : s.next c = (none, s) := by simp only [next, hst, hbuffer]
    rw [hnext]
    exact ⟨⟨rfl, fun _ => rfl, fun _ _ => rfl⟩, st, hst, rfl, rfl, rfl,
      fun _ => hbuffer, fun _ h => h⟩
  | cons e rest =>
    have hwhole : ∀ st' : Stream, st'.buffer = rest → st'.finished = st.finished →
        e.isTerminal = false → st.Whole → st'.Whole := by
      intro st' hrest hfin hitem hw hfinished
      obtain ⟨e', he', hterminal⟩ := hw (hfin ▸ hfinished)
      rw [hbuffer] at he'
      rcases List.mem_cons.mp he' with rfl | he'
      · rw [hitem] at hterminal
        cases hterminal
      · exact ⟨e', hrest ▸ he', hterminal⟩
    cases e with
    | item v =>
      have hnext : s.next c = (some (.item v), s.write c (.stream { st with buffer := rest })) := by
        simp only [next, hst, hbuffer]
      rw [hnext]
      obtain ⟨honly, hnew⟩ := OnlyAt.of_write hst { st with buffer := rest }
      exact ⟨honly, _, hnew, rfl, rfl, rfl, by rintro ⟨⟩, fun _ hw => hwhole _ rfl rfl rfl hw⟩
    | close v =>
      have hnext : s.next c =
          (some (.close v), s.write c (.stream
            { st with buffer := rest, terminated := true, returned := v })) := by
        simp only [next, hst, hbuffer]
      rw [hnext]
      obtain ⟨honly, hnew⟩ := OnlyAt.of_write hst
        { st with buffer := rest, terminated := true, returned := v }
      exact ⟨honly, _, hnew, rfl, rfl, rfl, by rintro ⟨⟩,
        fun hitem => absurd (hitem _ rfl : true = false) Bool.noConfusion⟩
    | error r =>
      have hnext : s.next c = (some (.error r),
          s.write c (.stream { st with buffer := rest, terminated := true })) := by
        simp only [next, hst, hbuffer]
      rw [hnext]
      obtain ⟨honly, hnew⟩ := OnlyAt.of_write hst { st with buffer := rest, terminated := true }
      exact ⟨honly, _, hnew, rfl, rfl, rfl, by rintro ⟨⟩,
        fun hitem => absurd (hitem _ rfl : true = false) Bool.noConfusion⟩

theorem onlyAt_next (s : Store) (c : CellId) : OnlyAt c s (s.next c).2 := by
  cases hst : s.stream? c with
  | none =>
    have hnext : s.next c = (none, s) := by simp only [next, hst]
    rw [hnext]
    exact ⟨rfl, fun _ => rfl, fun _ _ => rfl⟩
  | some st => exact (next_onlyAt hst).1

theorem onlyAt_cancel (s : Store) (c : CellId) (r : Rejection) :
    OnlyAt c s (s.cancel c r) ∧
    ∀ st, (s.cancel c r).stream? c = some st → ∃ st', s.stream? c = some st' ∧
      st.locked = st'.locked := by
  unfold cancel
  cases hst : s.stream? c with
  | none => exact ⟨⟨rfl, fun _ => rfl, fun _ _ => rfl⟩, fun st h => by rw [hst] at h; cases h⟩
  | some st =>
    dsimp only
    split
    · exact ⟨⟨rfl, fun _ => rfl, fun _ _ => rfl⟩, fun st' h =>
        ⟨st, rfl, by rw [Option.some.inj (h.symm.trans hst)]⟩⟩
    · obtain ⟨honly, hnew⟩ := OnlyAt.of_write hst
        { st with cancelled := some r, buffer := [], subscriber := none }
      exact ⟨honly, fun st' h => ⟨st, rfl, by rw [Option.some.inj (h.symm.trans hnew)]⟩⟩

/-- **Subscribing to a stream that is free** succeeds, and the subscriber hears of what is held
already. -/
theorem exists_subscribe (hst : s.stream? c = some st) (hfree : st.locked = false)
    (mailbox task : Nat) :
    ∃ s', s.subscribe c mailbox task = .ok s' ∧ Rings mailbox (fun _ => 0) s s' ∧
      (∀ c', s'.promise? c' = s.promise? c') ∧
      s'.stream? c = some { st with locked := true, subscriber := some (mailbox, task) } ∧
      (∀ c', c' ≠ c → s'.stream? c' = s.stream? c') ∧
      (mailbox < s.mailboxes.size → st.buffer ≠ [] → .stream task ∈ s'.pings mailbox) := by
  obtain ⟨honly, hnew⟩ := OnlyAt.of_write hst
    { st with locked := true, subscriber := some (mailbox, task) }
  have hsubscribe : s.subscribe c mailbox task = .ok (if st.buffer.isEmpty
      then s.write c (.stream { st with locked := true, subscriber := some (mailbox, task) })
      else (s.write c (.stream { st with locked := true, subscriber := some (mailbox, task) })).post
        mailbox (.stream task)) := by
    simp only [subscribe, hst, hfree, Bool.false_eq_true, if_false]
  generalize s.write c (.stream { st with locked := true, subscriber := some (mailbox, task) }) =
    t at honly hnew hsubscribe
  by_cases hempty : st.buffer.isEmpty = true
  · rw [if_pos hempty] at hsubscribe
    exact ⟨t, hsubscribe, honly.rings, honly.promises, hnew, honly.streams, fun _ h =>
      absurd (List.isEmpty_iff.mp hempty) h⟩
  · rw [if_neg hempty] at hsubscribe
    have hcells := (post_eq t mailbox (.stream task)).1
    have hsize : t.mailboxes.size = s.mailboxes.size := by rw [honly.mailboxes]
    have hposted : Rings mailbox (fun _ => 0) t (t.post mailbox (.stream task)) := by
      refine ⟨size_post t mailbox _, pings_subset_post t mailbox _, fun hm n => ?_⟩
      rw [wakers_post t hm, if_pos rfl]
      rfl
    refine ⟨_, hsubscribe, (honly.rings.trans hposted).congr fun _ => rfl,
      fun c' => (promise?_congr hcells c').trans (honly.promises c'),
        (stream?_congr hcells c).trans hnew,
      fun c' hc' => (stream?_congr hcells c').trans (honly.streams c' hc'), fun hm _ => ?_⟩
    rw [pings_post_self t (hsize ▸ hm)]
    exact List.mem_append_right _ (List.mem_singleton.mpr rfl)

theorem receive_of_none (h : (s.receive mailbox).1 = none) :
    (s.receive mailbox).2 = s ∧ s.pings mailbox = [] := by
  unfold receive at h ⊢
  split at h
  · cases h
  · rename_i hne
    refine ⟨rfl, ?_⟩
    cases hm : s.mailboxes[mailbox]? with
    | none => simp [pings, hm]
    | some b =>
      obtain ⟨pings, bell⟩ := b
      cases pings with
      | nil => simp [Store.pings, hm]
      | cons p rest => exact absurd hm (hne p rest bell)

/-- A message is taken out of its mailbox. -/
theorem receive_of_some {p : Ping} (h : (s.receive mailbox).1 = some p) :
    (s.receive mailbox).2.cells = s.cells ∧
    (s.receive mailbox).2.mailboxes.size = s.mailboxes.size ∧
      s.pings mailbox = p :: (s.receive mailbox).2.pings mailbox := by
  unfold receive at h ⊢
  split at h
  · rename_i q rest bell hm
    obtain rfl := Option.some.inj h
    have hlt := (Array.getElem?_eq_some_iff.mp hm).1
    refine ⟨rfl, Array.size_setIfInBounds, ?_⟩
    rw [pings, pings, hm, Array.getElem?_setIfInBounds, if_pos rfl, if_pos hlt]
    rfl
  · cases h

/-! ### What others do -/

/-- Somebody is at work whom the mailbox does not concern, and who neither reads nor cancels a
stream with `Source`. -/
structure Aside (Source : CellId → Prop) (mailbox : Nat) (s s' : Store) : Prop where
  size : s.mailboxes.size ≤ s'.mailboxes.size
  pings : s'.pings mailbox = s.pings mailbox
  calls : ∀ c, s'.calls mailbox c = s.calls mailbox c
  promises : ∀ c, (s.promise? c).isSome → (s'.promise? c).isSome
  streams : ∀ c, Source c → ∀ st, s.stream? c = some st → ∃ st', s'.stream? c = some st' ∧
    st'.buffer = st.buffer ∧
    st'.finished = st.finished ∧ st'.cancelled = st.cancelled ∧ st'.subscriber = st.subscriber ∧
    (st.locked = true → st'.locked = true)
  made : ∀ c, Source c → s.stream? c = none → ∀ st, s'.stream? c = some st → ∃ kind, st = { kind }

/-- What others may do: settle promises, push to streams, and mind their own business. -/
inductive Goes (Source : CellId → Prop) (mailbox : Nat) : Store → Store → Prop
  | settle (s : Store) (id : CellId) (o : Outcome) : Goes Source mailbox s (s.settle id o).2
  | push (s : Store) (id : CellId) (e : StreamEvent) : Goes Source mailbox s (s.push id e).2
  | aside {s s' : Store} (h : Aside Source mailbox s s') : Goes Source mailbox s s'

theorem Aside.turns {Source : CellId → Prop} (h : Aside Source mailbox s s') :
    Turns Source mailbox s s' := by
  refine ⟨h.size, by
    rw [h.pings]; exact List.Subset.refl _, fun _ task => ?_, h.promises, fun _ c hc st hst => ?_,
    fun c hc hst st hst' => ?_⟩
  · rw [wakers, wakers, heard, heard, h.pings, awaited_congr h.calls]
  · obtain ⟨st', hst', hbuffer, hfinished, hcancelled, hsubscriber, hlocked⟩ :=
      h.streams c hc st hst
    refine ⟨st', hst', hsubscriber, hcancelled, hlocked, fun hwhole hfinished' => ?_,
      fun hb => .inl (hbuffer ▸ hb)⟩
    rw [hbuffer]
    exact hwhole (hfinished ▸ hfinished')
  · obtain ⟨kind, rfl⟩ := h.made c hc hst st hst'
    exact fun _ => ⟨fun h => absurd h Bool.false_ne_true, rfl⟩

/-- **What a party may rely on**, whatever others do and however often. -/
theorem Goes.turns {Source : CellId → Prop} (h : Relation.ReflTransGen (Goes Source mailbox) s s')
    (hm : mailbox < s.mailboxes.size) : Turns Source mailbox s s' := by
  induction h with
  | refl => exact .of_cells_eq rfl rfl
  | tail _ hstep ih =>
    refine ih.trans ?_ hm
    cases hstep with
    | settle id o =>
      exact .of_rings (rings_settle _ id o) (settles_settle _ id o).isSome_promise?
        (settles_settle _ id o).streams
    | push id e => exact turns_push Source mailbox _ id e
    | aside h => exact h.turns

end Store

end GraphRows
