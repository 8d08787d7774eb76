import GraphRows.Proofs.Encoder.Waiting

/-!
# No wake-up is lost

Rendering may fail, suspend, outline or open streams, at any depth. Whatever it does, what is put
aside is going to be woken exactly once. Acting on a message uses it up, so when there is none left,
whatever is still put aside waits for something that has not happened.

## Main results

* `Render.upholds_vigil`: the simple steps of rendering
* `Render.handle_awake`: acting on a message
* `Encoding.Step.awake`: one step of a run
* `no_wakeup_lost`: what is left when the work is done, for every run
-/

namespace GraphRows

open Store (Turns Rings timesWoken)

/-! ### Rendering -/

namespace Render

open EncodeM Encoder

variable {η : Type} {Source : CellId → Prop} {mailbox : Nat} {own : List Nat}
  {held : List (Nat × CellId)}

/-- The invariant while no message is being acted on. -/
abbrev Up (Source : CellId → Prop) (mailbox : Nat) (own : List Nat) (held : List (Nat × CellId))
    (x : Encoding η) : Prop :=
  Awake Source mailbox [] own held x.encoder x.store

/-- Being awake as an invariant of rendering: what is known to be a promise is one. -/
def Vigil (Source : CellId → Prop) (mailbox : Nat) (held : List (Nat × CellId)) : Invariant η :=
  fun K own _ x =>
  Up Source mailbox own held x ∧ ∀ c, K (.promise c) → (x.store.promise? c).isSome

namespace Vigil

variable {K : Fact → Prop} {due due' : List Nat} {x : Encoding η} {t : Task}

/-- The encoder changes, but neither its tasks nor its streams do. -/
theorem unmoved (h : Vigil Source mailbox held K own due x) {e : Encoder}
    (he : Unmoved x.encoder e) : Vigil Source mailbox held K own due' { x with encoder := e } :=
  ⟨h.1.unmoved he, h.2⟩

/-- Others are at work. -/
theorem turns (h : Vigil Source mailbox held K own due x) {s : Store}
    (hs : Turns Source mailbox x.store s) :
    Vigil Source mailbox held K own due' { x with store := s } :=
  ⟨h.1.turns hs, fun c hc => hs.promises c (h.2 c hc)⟩

/-- Nothing more is known of promises. -/
theorem also {α : Type} [Tells α] {a : α} (h : Vigil Source mailbox held K own due x)
    (ha : ∀ c, ¬ tells a (.promise c)) : Vigil Source mailbox held (also K a) own due x :=
  ⟨h.1, fun c hc => hc.elim (h.2 c) fun hc => absurd hc (ha c)⟩

theorem emitRejection (h : Vigil Source mailbox held K own due x) (id : Nat) (reason : Rejection) :
    Vigil Source mailbox held K own due' { x with
      encoder := (x.encoder.emitRejection x.store id reason).1
      store := (x.encoder.emitRejection x.store id reason).2 } := by
  obtain ⟨hcells, hmailboxes⟩ := Store.emitRejection_eq x.encoder x.store id reason
  exact ⟨(h.1.unmoved (Unmoved.emitRejection x.encoder x.store id reason)).congr hcells hmailboxes,
      fun c hc => by
    rw [Store.promise?_congr hcells c]
    exact h.2 c hc⟩

theorem fatalRow (h : Vigil Source mailbox held K own due x) :
    Vigil Source mailbox held K own due' { x with
      encoder := (x.encoder.fatalRow x.store).2.1
      store := (x.encoder.fatalRow x.store).2.2 } := by
  unfold Encoder.fatalRow
  split
  · exact h
  · have h' : Vigil Source mailbox held K own due
        { x with
          encoder := { x.encoder.allocateRow.2 with fatal := some x.encoder.refs.nextId } } :=
      h.unmoved ⟨fun h => h, rfl, rfl, rfl, Nat.le_succ _⟩
    exact h'.emitRejection _ _

/-- A task is put aside together with what is going to wake it. -/
theorem wake {s : Store} (cb : Callback) (h : Vigil Source mailbox held K (t.id :: own) due x)
    (hready : t.status = .pending) (ht : ∀ c ∈ t.recalled, K (.promise c))
    (hcb : cb.wakes? mailbox = some t.id)
    (hrings : Rings mailbox (timesWoken mailbox [cb]) x.store s)
    (hpromises : ∀ c, (x.store.promise? c).isSome → (s.promise? c).isSome)
    (hstreams : ∀ c, s.stream? c = x.store.stream? c) :
    Vigil Source mailbox held K own due' { x with encoder := x.encoder.keepTask t, store := s } :=
  ⟨h.1.keepTask hcb hrings hpromises hstreams hready fun c hc => h.2 c (ht c hc),
    fun c hc => hpromises c (h.2 c hc)⟩

/-- **The task waits** for a promise. -/
theorem andThen {p : CellId} {cb : Callback} (h : Vigil Source mailbox held K (t.id :: own) due x)
    (hready : t.status = .pending) (hknown : ∀ c ∈ p :: t.recalled, K (.promise c))
    (hcb : cb.wakes? mailbox = some t.id) :
    Vigil Source mailbox held K own due'
      { x with encoder := x.encoder.keepTask t, store := x.store.andThen p cb } := by
  obtain ⟨_, hp⟩ := Option.isSome_iff_exists.mp (h.2 p (hknown p List.mem_cons_self))
  exact h.wake cb hready (fun c hc => hknown c (List.mem_cons_of_mem _ hc)) hcb
    (Store.rings_andThen hp cb) (Store.isSome_promise?_andThen _ _ _) (Store.stream?_andThen _ _ _)

/-- **The task is to be tried** at once. -/
theorem post (h : Vigil Source mailbox held K (t.id :: own) due x) (hready : t.status = .pending)
    (ht : ∀ c ∈ t.recalled, K (.promise c)) :
    Vigil Source mailbox held K own due
      { x with encoder := x.encoder.keepTask t, store := x.store.post mailbox (.retry t.id) } := by
  have hcells := (Store.post_eq x.store mailbox (.retry t.id)).1
  have hrings : Rings mailbox (timesWoken mailbox [.retry mailbox t.id]) x.store
      (x.store.post mailbox (.retry t.id)) :=
    Store.rings_callWith (fun q o s => Store.rings_settle s q o) (.retry mailbox t.id)
      (.ok .null) x.store
  exact h.wake (.retry mailbox t.id) hready ht (if_pos rfl) hrings
    (fun c hc => by rwa [Store.promise?_congr hcells c]) (Store.stream?_congr hcells)

end Vigil

theorem force_vigil {run : Force η} (hrun : Wakeful Source mailbox run) {K : Fact → Prop}
    (id : CellId) {recalled : List CellId} (hrecalled : ∀ c ∈ recalled, K (.promise c)) :
    Keeps (Vigil Source mailbox held) K [] [] (force run id recalled) := by
  intro own x a y hx hy
  unfold force at hy
  split at hy
  · cases hy
  · rename_i r a' store host hforce
    obtain ⟨rfl, rfl⟩ := Prod.mk.inj (Option.some.inj hy)
    obtain ⟨hgoes, hpromises, hsuspend⟩ := hrun _ _ _ _ _ _ _ _ hforce fun c hc =>
      hx.2 c (hrecalled c hc)
    have hturns := Store.Goes.turns hgoes hx.1.there
    refine ⟨(hx.1.turns hturns).unmoved (Unmoved.queueHints x.encoder a'.hints), fun c hc => ?_⟩
    rcases hc with hc | ⟨_, hc, ⟨⟩⟩ | ⟨_, hc, ⟨⟩⟩
    · exact hturns.promises c (hx.2 c hc)
    · exact hpromises c hc
    · exact hsuspend c hc

/-- The stream is kept before it is subscribed to. -/
theorem renderStream_vigil {K : Fact → Prop} (id : CellId) (st : Stream) :
    Ensures (fun x : Encoding η => Vigil Source mailbox held K own [] x ∧ x.store.stream? id =
      some st) (renderStream id st) fun r => Vigil Source mailbox held (also K r) own [] := by
  unfold renderStream
  split
  · refine .pure fun x hx => hx.1.also ?_
    rintro c (⟨_, ⟨⟩, _⟩ | ⟨_, _, _, ⟨⟩, _⟩)
  rename_i hlocked
  intro x a y hx hy
  obtain ⟨A, hid, hbound⟩ := hx.1.1.createTask (.cell id) []
  have A' : Awake Source mailbox [] own held
    ({ (x.encoder.createTask (.cell id) []).2.dropAbortable x.encoder.refs.nextId with
      pending := x.encoder.pending + 1 + 1 }.push .regular ⟨x.encoder.refs.nextId,
        .opening st.kind⟩) x.store :=
    A.disown.unmoved ⟨fun h => h, rfl, rfl, rfl, Nat.le_refl _⟩
  obtain ⟨s', hs', A''⟩ := A'.subscribe (t := (x.encoder.createTask (.cell id) []).1) hid hbound rfl
    hx.2 (Bool.not_eq_true _ ▸ hlocked)
  obtain ⟨s'', hs'', -, hpromises, -⟩ := Store.exists_subscribe hx.2 (Bool.not_eq_true _ ▸ hlocked)
    mailbox x.encoder.refs.nextId
  obtain rfl := Except.ok.inj (hs'.symm.trans hs'')
  have hsubscribe : x.store.subscribe id x.encoder.mailbox x.encoder.refs.nextId = .ok s' :=
    hx.1.1.address ▸ hs'
  iterate 7
    obtain ⟨_, _, h, hy⟩ := bind_eq_some.mp hy
    cases h
  generalize hr : x.store.subscribe id _ _ = r at hy
  obtain rfl : .ok s' = r := hsubscribe.symm.trans hr
  obtain ⟨rfl, rfl⟩ := Prod.mk.inj (Option.some.inj hy)
  refine ⟨A'', fun c hc => ?_⟩
  rcases hc with hc | ⟨_, ⟨⟩, _, _, ⟨⟩⟩ | ⟨_, _, _, ⟨⟩, _⟩
  exact (congrArg Option.isSome (hpromises c)).trans (hx.1.2 c hc)

/-- **The simple steps of rendering leave nothing asleep.** -/
theorem upholds_vigil {run : Force η} (hrun : Wakeful Source mailbox run) :
    Upholds run (Vigil Source mailbox held) where
  weaken hx h := ⟨hx.1, fun c hc => hx.2 c (h _ hc)⟩
  encoder hx := hx.also (by rintro c ⟨_, _, ⟨⟩⟩)
  store hx := by
    refine ⟨hx.1, fun c hc => hc.elim (hx.2 c) ?_⟩
    rintro ⟨_, hc, ⟨⟩⟩
    exact hc
  owned hx := hx.also (by rintro c ⟨⟩)
  allocateRow hx := (hx.unmoved (Unmoved.allocateRow _)).also (by rintro c ⟨⟩)
  createTask model recalled hx hrecalled := by
    refine ⟨(hx.1.createTask model recalled).1, fun c hc => ?_⟩
    rcases hc with hc | ⟨⟨⟩⟩ | ⟨_, hmem, ⟨⟩⟩
    · exact hx.2 c hc
    · exact hx.2 c (hrecalled c hmem)
  dropAbortable hx := ⟨hx.1.disown.unmoved ⟨fun h => h, rfl, rfl, rfl, Nat.le_refl _⟩, hx.2⟩
  push hx _ _ _ _ _ := hx.unmoved (Unmoved.push _ _ _)
  emitRejection reason hx := hx.emitRejection _ reason
  fatalRow hx := hx.fatalRow.also (by rintro c ⟨⟩)
  remember hx hnext _ := hx.unmoved ⟨fun h => h, rfl, rfl, rfl, Nat.le_of_eq hnext.symm⟩
  andThen hx hready hknown hcb := hx.andThen hready hknown (by
    rw [hx.1.address] at hcb
    rcases hcb with rfl | rfl <;> exact if_pos rfl)
  post hx hready ht := hx.1.address ▸ hx.post hready ht
  make hx hpromise hstream := hx.turns (.alloc _ hpromise hstream)
  force id _ hrecalled := force_vigil hrun id hrecalled
  renderStream id st := renderStream_vigil id st

/-! ### Acting on messages -/

section Messages

variable {run : Force η}

theorem Keeps.awake {α : Type} [Tells α] {m : EncodeM η α} {K : Fact → Prop} {mine due : List Nat}
    (h : Keeps (Vigil Source mailbox held) K mine due m) :
    Ensures (fun x => Up Source mailbox (mine ++ own) held x ∧ ∀ c,
      K (.promise c) → (x.store.promise? c).isSome) m
      fun _ => Up Source mailbox own held :=
  (h own).post fun _ _ hx => hx.1

theorem unmoved_ensures {f : Encoder → Encoder} (h : ∀ e, Unmoved e (f e)) :
    Ensures (Up (η := η) Source mailbox own held) (modifyEncoder f) fun _ =>
      Up Source mailbox own held :=
  .modifyEncoder fun x hx => hx.unmoved (h x.encoder)

theorem emitRejection_awake (hrun : Wakeful Source mailbox run) (id : Nat) (reason : Rejection) :
    Ensures (Up (η := η) Source mailbox own held) (EncodeM.emitRejection id reason) fun _ =>
      Up Source mailbox own held :=
  (Keeps.awake ((upholds_vigil hrun).reject (K := fun _ => False) id reason)).pre fun _ hx =>
    ⟨hx, fun _ h => h.elim⟩

/-- A task that is tried is finished or put aside. -/
theorem retryTask_awake (hrun : Wakeful Source mailbox run) (fuel : Nat) (task : Task)
    (hready : task.status = .pending) :
    Ensures (fun x => Up Source mailbox (task.id :: own) held x ∧ x.store.Promises task.recalled)
      (retryTask run fuel task) fun _ => Up Source mailbox own held := by
  refine (Keeps.awake (((upholds_vigil hrun).renders fuel).task (K := tells task) task hready
    fun c hc => .inr ⟨c, hc, rfl⟩)).pre fun x hx => ⟨hx.1, ?_⟩
  rintro c (⟨⟨⟩⟩ | ⟨_, hc, ⟨⟩⟩)
  exact hx.2 c hc

theorem emitItem_awake (hrun : Wakeful Source mailbox run) (fuel : Nat) (task : Task)
    (item : Value) :
    Ensures (Up Source mailbox own held) (emitItem run fuel task item) fun _ =>
      Up Source mailbox own held := by
  unfold emitItem
  refine .bind .store fun s => .pre (P := Up Source mailbox own held) ?_ fun x hx => hx.1
  extract_lets finish
  have hfinish : ∀ b : Except Rejection RowBody, Ensures (Up Source mailbox own held) (finish b)
      fun _ => Up Source mailbox own held := by
    intro b
    cases b with
    | error r => exact .pure fun x hx => hx
    | ok body =>
      exact .bind (unmoved_ensures fun e => ⟨fun h => h, rfl, rfl, rfl, Nat.le_refl _⟩) fun _ =>
        .bind (unmoved_ensures fun e => Unmoved.push e _ _) fun _ => .pure fun x hx => hx
  split
  · rw [pure_bind]
    exact hfinish (.ok _)
  · rw [pure_bind]
    exact hfinish (.ok _)
  · refine .bind
      ((Keeps.awake (((upholds_vigil hrun).renders fuel).model (K := fun _ => False) task.id "" _
        (by rintro _ ⟨⟩))).pre
      fun _ hx => ⟨hx, fun _ h => h.elim⟩) fun r => ?_
    split
    · rw [pure_bind]
      exact hfinish (.ok _)
    · rw [pure_bind]
      exact hfinish (.error _)
    · refine .bind .store fun s => ?_
      rw [pure_bind]
      exact (hfinish (.error _)).pre fun x hx => hx.1

/-- Writing the events of a stream that was taken out ends it, or gives it back with nothing left in
it. -/
theorem writeEvents_awake (hrun : Wakeful Source mailbox run) (fuel : Nat) {task : Task}
    {source : CellId} (hmodel : task.model = .cell source) :
    Ensures (Up Source mailbox own ((task.id, source) :: held)) (writeEvents run fuel task source)
      fun _ => Up Source mailbox own held := by
  induction fuel with
  | zero => exact .exhausted
  | succ fuel ih =>
    unfold writeEvents
    refine .bind (.onStore (Q := fun ev x =>
      ((∀ ev', ev = some ev' → ev'.isTerminal = false) → Up Source mailbox own
        ((task.id, source) :: held) x) ∧
      Up Source mailbox own held x ∧ (ev = none → OpenAt Source mailbox [] x.store task.id source) ∧
      task.id ∉ held.map Prod.fst ++ x.encoder.streamIds ∧ task.id < x.encoder.refs.nextId)
        fun x hx => ?_) fun ev => ?_
    · obtain ⟨hitem, hgone, hopen⟩ := hx.next
      exact ⟨hitem, hgone, hopen, (List.nodup_cons.mp hx.streams).1,
        hx.streamBound _ List.mem_cons_self⟩
    split
    · exact .modifyEncoder fun x hx => hx.2.1.keepStream hx.2.2.2.1 hx.2.2.2.2 hmodel (hx.2.2.1 rfl)
    · refine .bind ((emitItem_awake hrun fuel task _).pre fun x hx => hx.1 ?_) fun r => ?_
      · rintro _ ⟨⟩
        rfl
      split
      · exact ih
      · exact .bind (emitRejection_awake hrun task.id _) fun _ => .modifyStore
          fun x hx => hx.cancel _
    · exact (unmoved_ensures fun e => Unmoved.push e _ _).pre fun x hx => hx.2.1
    · exact .bind
        ((Keeps.awake (((upholds_vigil hrun).renders fuel).outline (K := fun _ => False) _)).pre
        fun x hx => ⟨hx.2.1, fun _ h => h.elim⟩) fun row => unmoved_ensures fun e =>
          Unmoved.push e _ _
    · exact (emitRejection_awake hrun task.id _).pre fun x hx => hx.2.1

theorem takeTask_awake {p : Ping} {id : Nat} (hp : p.wakes? = some id) :
    Ensures (fun x : Encoding η => Awake Source mailbox [p] own held x.encoder x.store)
      (onEncoder (·.takeTask id))
      fun r x => ∃ t, r = some t ∧ t.id = id ∧ t.status = .pending ∧ x.store.Promises t.recalled ∧
        Up Source mailbox (t.id :: own) held x := by
  refine .onEncoder fun x hx => ?_
  obtain ⟨t, e', htake, hid, hready, hrecalled, A⟩ := hx.takeTask hp
  rw [htake]
  exact ⟨t, rfl, hid, hready, hrecalled, hid.symm ▸ A⟩

/-- **Acting on a message** of the mailbox. -/
theorem handle_awake (hrun : Wakeful Source mailbox run) (fuel : Nat) (ping : Ping) :
    Ensures (fun x => Awake Source mailbox [ping] own held x.encoder x.store) (handle run fuel ping)
      fun _ => Up Source mailbox own held := by
  cases ping with
  | retry id =>
    refine .bind (takeTask_awake rfl) fun r => ?_
    rintro x a y ⟨t, rfl, -, hready, hrecalled, A⟩
    exact retryTask_awake hrun fuel t hready x a y ⟨A, hrecalled⟩
  | fulfilled id v =>
    refine .bind (takeTask_awake rfl) fun r => ?_
    rintro x a y ⟨t, rfl, -, hready, hrecalled, A⟩
    exact retryTask_awake hrun fuel { t with model := v } hready x a y ⟨A, hrecalled⟩
  | rejected id reason =>
    refine .bind (takeTask_awake rfl) fun r => ?_
    rintro x a y ⟨t, rfl, rfl, -, -, A⟩
    exact Keeps.awake ((upholds_vigil hrun).drop
      ((upholds_vigil hrun).reject (K := fun _ => False) t.id reason)) x a y
      ⟨A, fun _ h => h.elim⟩
  | stream id =>
    refine .bind (.onEncoder (Q := fun r x => (∃ t c, r = some t ∧ t.model = .cell c ∧
      Up Source mailbox own ((t.id, c) :: held) x) ∨ r = none ∧ Up Source mailbox own held x)
        fun x hx => ?_) fun r => ?_
    · rcases hx.takeStream with ⟨t, e', c, htake, hid, hmodel, A⟩ | ⟨htake, A⟩
      · rw [htake]
        exact .inl ⟨t, c, rfl, hmodel, hid.symm ▸ A⟩
      · rw [htake]
        exact .inr ⟨rfl, A⟩
    · rintro x a y (⟨t, c, rfl, hmodel, A⟩ | ⟨rfl, A⟩) hy
      · simp only [hmodel] at hy
        exact writeEvents_awake hrun fuel hmodel x a y A hy
      · exact Ensures.pure (Q := fun _ => Up Source mailbox own held) (fun x hx => hx) x a y A hy

/-- **Acting on all messages**: there is none in the end. -/
theorem handleAll_awake (hrun : Wakeful Source mailbox run) (fuel : Nat) :
    Ensures (Up Source mailbox own held) (handleAll run fuel)
      fun _ x => Up Source mailbox own held x ∧ x.store.pings mailbox = [] := by
  induction fuel with
  | zero => exact .exhausted
  | succ fuel ih =>
    unfold handleAll
    refine .bind .encoder fun e => .bind (.onStore (Q := fun r x =>
      (∀ p, r = some p → Awake Source mailbox [p] own held x.encoder x.store) ∧
      (r = none → Up Source mailbox own held x ∧ x.store.pings mailbox = []))
      fun x hx => ?_) fun r => ?_
    · obtain ⟨A, rfl⟩ := hx
      rw [A.address]
      refine ⟨fun p hp => A.receive hp, fun hnone => ?_⟩
      obtain ⟨hsame, hempty⟩ := Store.receive_of_none hnone
      rw [hsame]
      exact ⟨A, hempty⟩
    · cases r with
      | none => exact .pure fun x hx => hx.2 rfl
      | some ping =>
        exact .bind ((handle_awake hrun fuel ping).pre fun x hx => hx.1 ping rfl) fun _ => ih

/-- **All work that can be done now is done.** -/
theorem work_awake (hrun : Wakeful Source mailbox run) {fuel : Nat} {r : Except Fault Unit}
    {x z : Encoding η} (hx : Up Source mailbox [] [] x) (h : work run fuel x = some (r, z)) :
    Up Source mailbox [] [] z ∧ (r = .ok () → z.store.pings mailbox = []) := by
  have handled : ∀ {s y}, x.store.takeSlot x.encoder.slot = .ok s →
      handleAll run fuel { x with store := s } = some ((), y) →
      Up Source mailbox [] [] y ∧ y.store.pings mailbox = [] := by
    intro s y hslot hy
    refine handleAll_awake hrun fuel { x with store := s } () y ?_ hy
    unfold Store.takeSlot at hslot
    split at hslot
    · cases hslot
    · obtain rfl := Except.ok.inj hslot
      exact hx.congr rfl rfl
  refine work_elim (P := fun z => Up Source mailbox [] [] z ∧
    (r = .ok () → z.store.pings mailbox = [])) h
    (fun hr => ⟨hx, fun h => absurd h hr⟩) (fun s y hslot hy _ => ?_) fun s y hslot hy _ => ?_
  all_goals obtain ⟨A, hempty⟩ := handled hslot hy
  · exact ⟨A.congr rfl rfl, fun _ => hempty⟩
  · exact ⟨A.flush.congr rfl rfl, fun _ =>
      (Store.pings_congr (Store.mailboxes_flush y.encoder y.store) mailbox).trans hempty⟩

end Messages

end Render

/-! ### Runs -/

namespace Encoding

variable {η : Type} {run : Force η} {Source : CellId → Prop} {mailbox : Nat} {x y : Encoding η}

/-- One step of a run without an abort. Others do what they like, but do not read the messages for
the encoder, and leave the streams with `Source` to be read by it. -/
inductive Step (run : Force η) (Source : CellId → Prop) (x : Encoding η) : Encoding η → Prop
  | work {fuel : Nat} {r : Except Fault Unit} {y : Encoding η}
    (h : Render.work run fuel x = some (r, y)) : Step run Source x y
  | start {i : Nat} {e : Encoder} {s : Store} (h : x.encoder.startFlowing x.store i = .ok (e, s)) :
      Step run Source x ⟨e, s, x.host⟩
  | pull : Step run Source x ⟨(x.encoder.pull x.store).1, (x.encoder.pull x.store).2, x.host⟩
  | hint (h : Hint) : Step run Source x ⟨(x.encoder.hint x.store h).2.1,
    (x.encoder.hint x.store h).2.2, x.host⟩
  | outside {s : Store} {host : η} (h : Relation.ReflTransGen
      (Store.Goes Source x.encoder.mailbox) x.store s) : Step run Source x ⟨x.encoder, s, host⟩

/-- **One step of a run.** -/
theorem Step.awake (hrun : Wakeful Source mailbox run)
    (hx : Awake Source mailbox [] [] [] x.encoder x.store) (h : Step run Source x y) :
    Awake Source mailbox [] [] [] y.encoder y.store := by
  have running : ∀ sink, x.encoder.Unmoved { x.encoder with sink, flowing := true } :=
    fun sink => ⟨fun h => h, rfl, rfl, rfl, Nat.le_refl _⟩
  cases h with
  | work h => exact (Render.work_awake hrun hx h).1
  | start h =>
    exact Encoder.startFlowing_elim h (fun _ => hx) fun _ _ => (hx.unmoved (running _)).flush
  | pull => exact Encoder.pull_elim hx fun _ => (hx.unmoved (running x.encoder.sink)).flush
  | hint h =>
    have hqueued := hx.unmoved (Encoder.Unmoved.queueHint x.encoder h)
    exact Encoder.hint_elim hqueued fun _ _ => hqueued.flush
  | outside h => exact hx.turns (Store.Goes.turns (hx.address ▸ h) hx.there)

end Encoding

/-- **A new encoder**: its first task is to be tried. -/
theorem Awake.create {Source : CellId → Prop} {s : Store}
    (hnew : ∀ c, s.calls s.mailboxes.size c = [])
    (hunread : ∀ c, Source c → ∀ st, s.stream? c = some st → st.Unread) (model : Value)
    (manifest : Manifest) (options : EncoderOptions) :
    Awake Source s.mailboxes.size [] [] [] (Encoder.create s model manifest options).1
      (Encoder.create s model manifest options).2 := by
  have begin : ∀ (e : Encoder) (s' : Store), e.status = .running → e.mailbox = s.mailboxes.size →
      e.tasks = [] → e.streams = [] → s'.cells = s.cells → s'.mailboxes = s.mailboxes.push {} →
      Awake Source s.mailboxes.size [] [] [] ((e.createTask model []).2.keepTask
        (e.createTask model []).1)
        (s'.post s.mailboxes.size (.retry (e.createTask model []).1.id)) := by
    intro e s' hstatus haddress htasks hstreams hcells hmailboxes
    have hempty : s'.pings s.mailboxes.size = [] := by simp [Store.pings, hmailboxes]
    have hcalls : ∀ c, s'.calls s.mailboxes.size c = [] := fun c =>
      (Store.calls_congr (Store.promise?_congr hcells) c).trans (hnew c)
    have A : Awake Source s.mailboxes.size [] [] [] e s' := {
      status := by rw [hstatus]; rintro ⟨⟩
      address := haddress
      there := by rw [hmailboxes, Array.size_push]; exact Nat.lt_succ_self _
      wakers := fun id => by
        simp [Store.wakers, Store.heard, hempty, Store.awaited, hcalls, Encoder.taskIds, htasks]
      tasks := by simp [Encoder.taskIds, htasks]
      taskBound := by simp [Encoder.taskIds, htasks]
      ready := by simp [htasks]
      recalled := by simp [htasks]
      streams := by simp [Encoder.streamIds, hstreams]
      streamBound := by simp [Encoder.streamIds, hstreams]
      sources := by simp [hstreams]
      reading := by simp
      unread := fun c hc st hst => hunread c hc st ((Store.stream?_congr hcells c).symm.trans hst) }
    have V : Render.Vigil Source s.mailboxes.size [] (fun _ => False)
        [(e.createTask model []).1.id] []
        (⟨(e.createTask model []).2, s', ()⟩ : Encoding Unit) :=
          ⟨(A.createTask model []).1, fun _ h => h.elim⟩
    exact (V.post rfl (by rintro p ⟨⟩)).1
  unfold Encoder.create
  cases options.slot with
  | some slot => exact begin _ _ rfl rfl rfl rfl rfl rfl
  | none => exact begin _ _ rfl rfl rfl rfl rfl rfl

/-- **No wake-up is lost.** Take any run of an encoder without an abort, whatever promises settle
and whatever is pushed to streams on the way, and let the encoder work. When it is done, there is no
message left for it. Every task that is left is pending, so that a message for it is acted on, and
is going to be woken by exactly one callback, on a promise that is pending. Every open stream whose
source is left to the encoder holds nothing, and has the encoder as its subscriber. So if no promise
is pending that the encoder waits for, no task is left; and if the sources of the open streams have
all finished, no stream is open. -/
theorem no_wakeup_lost {η : Type} {run : Force η} {Source : CellId → Prop} {s : Store}
    {model : Value} {manifest : Manifest} {options : EncoderOptions} {host : η} {x y : Encoding η}
    {fuel : Nat} (hnew : ∀ c, s.calls s.mailboxes.size c = [])
    (hunread : ∀ c, Source c → ∀ st, s.stream? c = some st → st.Unread)
    (hrun : Wakeful Source s.mailboxes.size run)
    (hx : Relation.ReflTransGen (Encoding.Step run Source)
      ⟨(Encoder.create s model manifest options).1, (Encoder.create s model manifest options).2,
      host⟩ x)
    (hy : Render.work run fuel x = some (.ok (), y)) :
    y.store.pings y.encoder.mailbox = [] ∧
    (y.encoder.taskIds.Nodup ∧ ∀ t ∈ y.encoder.tasks, t.status = .pending ∧
      y.store.AwaitedOnce y.encoder.mailbox t.id) ∧
    (∀ t ∈ y.encoder.streams, ∃ c, t.model = .cell c ∧
      (Source c → ∃ st, y.store.stream? c = some st ∧ st.buffer = [] ∧
      st.cancelled = none ∧ st.subscriber = some (y.encoder.mailbox, t.id))) ∧
    ((∀ c p, y.store.promise? c = some p → p.outcome = none → ∀ cb ∈ p.callbacks,
      cb.wakes? y.encoder.mailbox = none) → y.encoder.tasks = []) ∧
    ((∀ t ∈ y.encoder.streams, ∀ c, t.model = .cell c →
      Source c ∧ ∀ st, y.store.stream? c = some st → st.finished = true) →
        y.encoder.streams = []) := by
  have hreached : Awake Source s.mailboxes.size [] [] [] x.encoder x.store := by
    clear hy
    induction hx with
    | refl => exact Awake.create hnew hunread model manifest options
    | tail _ hstep ih => exact hstep.awake hrun ih
  obtain ⟨A, hempty⟩ := Render.work_awake hrun hreached hy
  have hempty := hempty rfl
  rw [A.address]
  have hawaited : ∀ t ∈ y.encoder.tasks, y.store.AwaitedOnce s.mailboxes.size t.id := by
    intro t ht
    have hnodup : y.encoder.taskIds.Nodup := A.tasks
    have hcount := A.wakers t.id
    rw [List.count_eq_one_of_mem hnodup (List.mem_map_of_mem ht), Store.wakers, Store.heard,
      hempty] at hcount
    exact Store.awaitedOnce_of_awaited (by simpa using hcount)
  have hserved : ∀ t ∈ y.encoder.streams, ∃ c, t.model = .cell c ∧
      (Source c → ∃ st, y.store.stream? c = some st ∧
      st.buffer = [] ∧ st.Serves s.mailboxes.size t.id) := by
    intro t ht
    obtain ⟨c, hc, hopen⟩ := A.sources t ht
    refine ⟨c, hc, fun hsource => ?_⟩
    obtain ⟨st, hst, hserves, hnews⟩ := hopen hsource
    refine ⟨st, hst, by_contra fun hb => ?_, hserves⟩
    have htold := hnews hb
    rw [hempty] at htold
    cases htold
  refine ⟨hempty, ⟨A.tasks, fun t ht => ⟨A.ready t ht, hawaited t ht⟩⟩, fun t ht => ?_,
    fun hsettled => ?_, fun hfinished => ?_⟩
  · obtain ⟨c, hc, hserves⟩ := hserved t ht
    refine ⟨c, hc, fun hsource => ?_⟩
    obtain ⟨st, hst, hb, hserves⟩ := hserves hsource
    exact ⟨st, hst, hb, hserves.cancelled, hserves.subscriber⟩
  · refine List.eq_nil_iff_forall_not_mem.mpr fun t ht => ?_
    obtain ⟨c, p, hp, hpending, hcount, -⟩ := hawaited t ht
    have hmem : t.id ∈ p.callbacks.filterMap (Callback.wakes? s.mailboxes.size) :=
      List.count_pos_iff.mp (by omega)
    obtain ⟨cb, hcb, hwakes⟩ := List.mem_filterMap.mp hmem
    rw [hsettled c p hp hpending cb hcb] at hwakes
    cases hwakes
  · refine List.eq_nil_iff_forall_not_mem.mpr fun t ht => ?_
    obtain ⟨c, hc, hserves⟩ := hserved t ht
    obtain ⟨hsource, hfinished⟩ := hfinished t ht c hc
    obtain ⟨st, hst, hb, hserves⟩ := hserves hsource
    obtain ⟨ev, hev, -⟩ := hserves.whole (hfinished st hst)
    rw [hb] at hev
    cases hev

/-! ### A lazy value, a promise and a stream -/

/-- Every thunk reads the promise in the first cell. -/
def readsFirst : Force Unit := fun _ a s h =>
  if (s.promise? 0).isSome then some ((a.read s 0).1, (a.read s 0).2, s, h) else some
    (.ok .undefined, a, s, h)

theorem wakeful_readsFirst (Source : CellId → Prop) (mailbox : Nat) :
    Wakeful Source mailbox readsFirst := by
  have look : ∀ (s : Store) (p q : CellId), (s.promise? p).isSome →
      Attempt.look s p = .error (.suspend q) → (s.promise? q).isSome := by
    intro s p q hp hlook
    unfold Attempt.look at hlook
    split at hlook
    · cases hlook
    · cases hlook
    · cases hlook
      exact hp
  intro id a s h r a' s' h' hrun hrecalled
  unfold readsFirst at hrun
  split at hrun
  · rename_i hfirst
    cases hrun
    unfold Attempt.read
    split
    · rename_i earlier hearlier
      exact ⟨.refl, hrecalled, fun q hq => look s earlier q
        (hrecalled earlier (List.mem_of_getElem? hearlier)) hq⟩
    · refine ⟨.refl, fun p hp => ?_, fun q hq => look s 0 q hfirst hq⟩
      rcases List.mem_append.mp hp with hp | hp
      · exact hrecalled p hp
      · rw [List.mem_singleton.mp hp]
        exact hfirst
  · cases hrun
    exact ⟨.refl, hrecalled, by rintro p ⟨⟩⟩

/-- A promise, a lazy value, a stream, and an array of the three. -/
def waitingArray : Value × Store :=
  let (promise, s) := ({} : Store).newPromise
  let (thunk, s) := s.alloc .lazy
  let (stream, s) := s.newStream .readable
  s.make (.array [.cell thunk, .cell promise, .cell stream])

/-- The encoder of the array. -/
def waitingEncoding : Encoding Unit :=
  ⟨(Encoder.create waitingArray.2 waitingArray.1 default {}).1,
    (Encoder.create waitingArray.2 waitingArray.1 default {}).2, ()⟩

theorem no_wakeup_lost_waiting :
    ∃ y : Encoding Unit, Render.work readsFirst 30 waitingEncoding = some (.ok (), y) ∧
    y.encoder.tasks.length = 2 ∧ y.encoder.streams.length = 1 ∧
      y.store.pings y.encoder.mailbox = [] ∧
    (∀ t ∈ y.encoder.tasks, t.status = .pending ∧ y.store.AwaitedOnce y.encoder.mailbox t.id) ∧
    ∀ t ∈ y.encoder.streams, ∃ c, t.model = .cell c ∧ ∃ st, y.store.stream? c = some st ∧
      st.buffer = [] := by
  have hworked : ((Render.work readsFirst 30 waitingEncoding).any fun w => w.1.isOk &&
      w.2.encoder.tasks.length == 2 && w.2.encoder.streams.length == 1) = true := by decide +kernel
  obtain ⟨⟨r, y⟩, hwork, hfacts⟩ := (Option.any_eq_true _ _).mp hworked
  simp only [Bool.and_eq_true, beq_iff_eq] at hfacts
  obtain ⟨⟨hok, htasks⟩, hstreams⟩ := hfacts
  cases r with
  | error f => cases hok
  | ok u =>
    have hnew : ∀ c, waitingArray.2.calls waitingArray.2.mailboxes.size c = [] := by
      intro c
      obtain _ | _ | _ | _ | c := c
      · rfl
      · rfl
      · rfl
      · rfl
      · exact Store.calls_of_size_le (Nat.le_add_left 4 c)
    have hunread : ∀ c, True → ∀ st, waitingArray.2.stream? c = some st → st.Unread := by
      intro c _ st hst
      have hlt : c < 4 := Store.cell?_lt_size (Store.stream?_eq_some hst)
      obtain _ | _ | _ | _ | c := c
      · cases hst
      · cases hst
      · cases hst
        exact fun _ => ⟨fun h => absurd h Bool.false_ne_true, rfl⟩
      · cases hst
      · exact absurd hlt (Nat.not_lt.mpr (Nat.le_add_left 4 c))
    obtain ⟨hpings, htask, hstream, -⟩ := no_wakeup_lost hnew hunread
      (wakeful_readsFirst _ _) .refl hwork
    refine ⟨y, hwork, htasks, hstreams, hpings, htask.2, fun t ht => ?_⟩
    obtain ⟨c, hc, hst⟩ := hstream t ht
    obtain ⟨st, hst, hb, -⟩ := hst trivial
    exact ⟨c, hc, st, hst, hb⟩

end GraphRows
