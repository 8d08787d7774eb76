import GraphRows.Proofs.Encoder.Ledger
import GraphRows.Proofs.Store.Outcomes

/-!
# What rendering upholds

Rendering may fail, suspend, outline, postpone, or give up for want of fuel; it may meet any value
and any thunk. What has to hold of the encoder all along differs from one argument to the next, but
the way through rendering is the same: some rows are owed, some tasks are in hand, and some facts
are relied on, that a row is provided for or that a cell holds a promise. Facts are learned from
answers and never lost. `Upholds run I` says how the simple steps treat an invariant with these
three parts. The theorems here go through rendering once for all of them. There is one statement for
each of the mutually recursive functions, and they are proved together by induction on the fuel.

A statement has the form `Ensures P m Q`: if `P` holds before and `m` gives an answer, then `Q`
holds of the answer and the state after it. Giving up is no answer, so it satisfies every such
statement.

## Main results

* `Render.Upholds.renders`: all of rendering, for every fuel
-/

namespace GraphRows

namespace EncodeM

variable {η α β : Type}

/-- Every answer of `m` from a state with `P` has `Q`. -/
def Ensures (P : Encoding η → Prop) (m : EncodeM η α) (Q : α → Encoding η → Prop) : Prop :=
  ∀ x a y, P x → m x = some (a, y) → Q a y

variable {P P' : Encoding η → Prop} {Q Q' : α → Encoding η → Prop} {m : EncodeM η α}

theorem bind_eq_some {f : α → EncodeM η β} {x z : Encoding η} {b : β} :
    (m >>= f) x = some (b, z) ↔ ∃ a y, m x = some (a, y) ∧ f a y = some (b, z) := by
  change (m x).bind (fun p => f p.1 p.2) = some (b, z) ↔ _
  rw [Option.bind_eq_some_iff]
  exact ⟨fun ⟨p, hp, h⟩ => ⟨p.1, p.2, hp, h⟩, fun ⟨a, y, hp, h⟩ => ⟨(a, y), hp, h⟩⟩

namespace Ensures

theorem bind {f : α → EncodeM η β} {R : β → Encoding η → Prop} (hm : Ensures P m Q)
    (hf : ∀ a, Ensures (Q a) (f a) R) : Ensures P (m >>= f) R := by
  intro x b z hx h
  obtain ⟨a, y, hay, hbz⟩ := bind_eq_some.mp h
  exact hf a y b z (hm x a y hx hay) hbz

theorem pure {a : α} (h : ∀ x, P x → Q a x) : Ensures P (Pure.pure a) Q := by
  intro x b y hx hy
  obtain ⟨rfl, rfl⟩ := Prod.mk.inj (Option.some.inj hy)
  exact h x hx

theorem exhausted : Ensures P (EncodeM.exhausted : EncodeM η α) Q := fun _ _ _ _ h => nomatch h

theorem pre (h : Ensures P m Q) (hP : ∀ x, P' x → P x) : Ensures P' m Q :=
  fun x a y hx => h x a y (hP x hx)

theorem post (h : Ensures P m Q) (hQ : ∀ a y, Q a y → Q' a y) : Ensures P m Q' :=
  fun x a y hx hy => hQ a y (h x a y hx hy)

theorem encoder :
    Ensures P (EncodeM.encoder : EncodeM η Encoder) fun e x => P x ∧ x.encoder = e := by
  intro x a y hx hy
  obtain ⟨rfl, rfl⟩ := Prod.mk.inj (Option.some.inj hy)
  exact ⟨hx, rfl⟩

theorem store : Ensures P (EncodeM.store : EncodeM η Store) fun s x => P x ∧ x.store = s := by
  intro x a y hx hy
  obtain ⟨rfl, rfl⟩ := Prod.mk.inj (Option.some.inj hy)
  exact ⟨hx, rfl⟩

theorem modifyEncoder {f : Encoder → Encoder} {Q : Unit → Encoding η → Prop}
    (h : ∀ x, P x → Q () { x with encoder := f x.encoder }) :
    Ensures P (EncodeM.modifyEncoder f) Q := by
  intro x a y hx hy
  obtain ⟨rfl, rfl⟩ := Prod.mk.inj (Option.some.inj hy)
  exact h x hx

theorem modifyStore {f : Store → Store} {Q : Unit → Encoding η → Prop}
    (h : ∀ x, P x → Q () { x with store := f x.store }) : Ensures P (EncodeM.modifyStore f) Q := by
  intro x a y hx hy
  obtain ⟨rfl, rfl⟩ := Prod.mk.inj (Option.some.inj hy)
  exact h x hx

theorem onEncoder {f : Encoder → α × Encoder}
    (h : ∀ x, P x → Q (f x.encoder).1 { x with encoder := (f x.encoder).2 }) :
    Ensures P (EncodeM.onEncoder f) Q := by
  intro x a y hx hy
  obtain ⟨rfl, rfl⟩ := Prod.mk.inj (Option.some.inj hy)
  exact h x hx

theorem onStore {f : Store → α × Store}
    (h : ∀ x, P x → Q (f x.store).1 { x with store := (f x.store).2 }) :
    Ensures P (EncodeM.onStore f) Q := by
  intro x a y hx hy
  obtain ⟨rfl, rfl⟩ := Prod.mk.inj (Option.some.inj hy)
  exact h x hx

theorem onBoth {f : Encoder → Store → Encoder × Store} {Q : Unit → Encoding η → Prop}
    (h : ∀ x, P x →
      Q () { x with encoder := (f x.encoder x.store).1, store := (f x.encoder x.store).2 }) :
    Ensures P (EncodeM.onBoth f) Q := by
  intro x a y hx hy
  obtain ⟨rfl, rfl⟩ := Prod.mk.inj (Option.some.inj hy)
  exact h x hx

end Ensures

end EncodeM

namespace Render

open EncodeM Encoder

variable {η α β : Type}

/-! ### Facts -/

/-- What may be relied on from now on: a row is provided for, a cell holds a promise. -/
inductive Fact
  | row (id : Nat)
  | promise (c : CellId)

/-- The facts that come with an answer. -/
class Tells (α : Type) where
  tells : α → Fact → Prop

export Tells (tells)

instance : Tells Unit := ⟨fun _ _ => False⟩

instance : Tells Value := ⟨fun _ _ => False⟩

/-- The id of a row. -/
instance : Tells Nat := ⟨fun id f => f = .row id⟩

/-- The rows a payload speaks of. -/
instance : Tells Json := ⟨fun j f => ∃ n, j.Mentions n ∧ f = .row n⟩

instance : Tells (List (String × Json)) := ⟨fun fs f => ∃ n, Json.MentionsField n fs ∧ f = .row n⟩

instance : Tells (Option Reference) := ⟨fun r f => ∃ ref, r = some ref ∧ f = .row ref.row⟩

/-- The rows an encoder remembers. -/
instance : Tells Encoder := ⟨fun e f => ∃ n ∈ e.remembered, f = .row n⟩

/-- The promises in a store. -/
instance : Tells Store := ⟨fun s f => ∃ c, (s.promise? c).isSome ∧ f = .promise c⟩

/-- The row of a task and the promises its thunk has read. -/
instance : Tells Task := ⟨fun t f => f = .row t.id ∨ ∃ c ∈ t.recalled, f = .promise c⟩

/-- The promises a thunk has read and the one it waits for. -/
instance : Tells (Except Interrupt Value × List CellId) :=
  ⟨fun r f => (∃ c ∈ r.2, f = .promise c) ∨ ∃ p, r.1 = .error (.suspend p) ∧ f = .promise p⟩

/-- What a result speaks of, or the promises it waits for. -/
instance [Tells α] : Tells (Rendered α) := ⟨fun r f =>
  (∃ a, r = .ok a ∧ tells a f) ∨ ∃ model p recalled, r = .error (.suspend model p recalled) ∧
    ∃ c ∈ p :: recalled, f = .promise c⟩

/-- The facts that are known together with an answer. -/
def also [Tells α] (K : Fact → Prop) (a : α) : Fact → Prop := fun f => K f ∨ tells a f

/-- An invariant, given the facts that are known, the tasks in hand and the rows that are owed at
once. -/
abbrev Invariant (η : Type) := (Fact → Prop) → List Nat → List Nat → Encoding η → Prop

/-- With the tasks `mine` in hand and the rows `due` owed, `m` answers for all of them. Whatever
else is in hand stays so. -/
def Keeps (I : Invariant η) (K : Fact → Prop) (mine due : List Nat) [Tells α] (m : EncodeM η α) :
    Prop :=
  ∀ own, Ensures (I K (mine ++ own) due) m fun a => I (also K a) own []

/-- The parts of a value at a place are addressed through a row that is provided for. -/
def Placed (K : Fact → Prop) (parent : Option Reference) : Prop :=
  ∀ r, parent = some r → K (.row r.row)

theorem Placed.childReference? {K : Fact → Prop} {parent : Option Reference} (h : Placed K parent)
    (key : String) : Placed K (childReference? parent key) := by
  intro r hr
  unfold Render.childReference? at hr
  split at hr
  · split at hr
    · cases hr
    · rename_i q _
      obtain rfl := Option.some.inj hr
      exact h q rfl
  · cases hr

theorem tells_rowJson {id : Nat} {f : Fact} (h : tells (Encoder.rowJson id) f) : tells id f := by
  obtain ⟨n, hn, rfl⟩ := h
  exact congrArg _ (Ledger.eq_of_mentions_rowJson hn)

/-- What failed with one result would have failed with another. -/
theorem tells_error [Tells α] [Tells β] {h : Halt} {f : Fact}
    (hf : tells (.error h : Rendered α) f) : tells (.error h : Rendered β) f := by
  rcases hf with ⟨_, ⟨⟩, _⟩ | ⟨model, p, recalled, ⟨⟩, hf⟩
  exact .inr ⟨model, p, recalled, rfl, hf⟩

theorem tells_suspend [Tells α] {model : Value} {p c : CellId} {recalled : List CellId}
    (hc : c ∈ p :: recalled) :
    tells (.error (.suspend model p recalled) : Rendered α) (.promise c) :=
  .inr ⟨model, p, recalled, rfl, c, hc, rfl⟩

theorem tells_interrupt [Tells α] {model : Value} {p : CellId} {recalled : List CellId} {f : Fact}
    (hf : tells (.error (.suspend model p recalled) : Rendered α) f) :
    tells ((.error (.suspend p), recalled) : Except Interrupt Value × List CellId) f := by
  rcases hf with ⟨_, ⟨⟩, _⟩ | ⟨_, _, _, ⟨⟩, c, hc, rfl⟩
  rcases List.mem_cons.mp hc with rfl | hc
  · exact .inr ⟨c, rfl, rfl⟩
  · exact .inl ⟨c, hc, rfl⟩

theorem not_mentions_ofNumber (x : Double) (n : Nat) : ¬ (Json.ofNumber x).Mentions n := by
  unfold Json.ofNumber
  split
  · exact fun h => h.elim
  · split
    · exact fun h => h.elim
    · exact fun h => by cases Json.mentions_tokenJson h

/-- The simple steps of rendering uphold an invariant. -/
structure Upholds (run : Force η) (I : Invariant η) : Prop where
  weaken : ∀ {K K' own due x}, I K own due x → (∀ f, K' f → K f) → I K' own due x
  encoder : ∀ {K own due x}, I K own due x → I (also K x.encoder) own due x
  store : ∀ {K own due x}, I K own due x → I (also K x.store) own due x
  owned : ∀ {K id own due x}, I K (id :: own) due x → I (also K id) (id :: own) due x
  allocateRow : ∀ {K own x}, I K own [] x →
    I (also K x.encoder.allocateRow.1) own [x.encoder.allocateRow.1]
      { x with encoder := x.encoder.allocateRow.2 }
  createTask : ∀ {K own x} model {recalled : List CellId}, I K own [] x →
    (∀ c ∈ recalled, K (.promise c)) →
    I (also K (x.encoder.createTask model recalled).1)
      ((x.encoder.createTask model recalled).1.id :: own) []
      { x with encoder := (x.encoder.createTask model recalled).2 }
  dropAbortable : ∀ {K id own x}, I K (id :: own) [] x →
    I K own [id] { x with encoder := x.encoder.dropAbortable id }
  push : ∀ {K own id x q body}, I K own [id] x → q ≠ .hints → body.isValue →
    body.isOpening = false →
    Row.HintSafe ⟨id, body⟩ → (∀ n, body.Mentions n → K (.row n)) →
      I K own [] { x with encoder := x.encoder.push q ⟨id, body⟩ }
  emitRejection : ∀ {K own id x} reason, I K own [id] x → I K own []
    { x with
      encoder := (x.encoder.emitRejection x.store id reason).1
      store := (x.encoder.emitRejection x.store id reason).2 }
  fatalRow : ∀ {K own due x}, I K own due x → I (also K (x.encoder.fatalRow x.store).1) own due
    { x with
      encoder := (x.encoder.fatalRow x.store).2.1
      store := (x.encoder.fatalRow x.store).2.2 }
  remember : ∀ {K own x refs}, I K own [] x → refs.nextId = x.encoder.refs.nextId →
    (∀ n ∈ { x.encoder with refs }.remembered, n ∈ x.encoder.remembered ∨ K (.row n)) →
    I K own [] { x with encoder := { x.encoder with refs } }
  /-- a task is put aside together with what is going to wake it -/
  andThen : ∀ {K own x} {t : Task} {p cb}, I K (t.id :: own) [] x → t.status = .pending →
    (∀ c ∈ p :: t.recalled, K (.promise c)) →
    cb = .retry x.encoder.mailbox t.id ∨ cb = .deliver x.encoder.mailbox t.id →
    I K own [] { x with encoder := x.encoder.keepTask t, store := x.store.andThen p cb }
  post : ∀ {K own x} {t : Task}, I K (t.id :: own) [] x → t.status = .pending →
    (∀ c ∈ t.recalled, K (.promise c)) →
    I K own []
      { x with
        encoder := x.encoder.keepTask t
        store := x.store.post x.encoder.mailbox (.retry t.id) }
  make : ∀ {K own x c}, I K own [] x → (∀ p, c ≠ .promise p) → (∀ st, c ≠ .stream st) →
    I K own [] { x with store := (x.store.make c).2 }
  force : ∀ {K} id {recalled : List CellId}, (∀ c ∈ recalled, K (.promise c)) →
    Keeps I K [] [] (force run id recalled)
  renderStream : ∀ {K own} id st, Ensures (fun x => I K own [] x ∧ x.store.stream? id =
    some st) (renderStream id st) fun r => I (also K r) own []

namespace Upholds

variable {run : Force η} {I : Invariant η} {K : Fact → Prop} {mine due : List Nat}
  [Tells α] [Tells β] {m : EncodeM η α} {f : α → EncodeM η β} {task : Task}

variable (U : Upholds run I)
include U

/-! ### One step after the other -/

theorem forget {a : α} {b : β} {own : List Nat} {x : Encoding η}
    (hx : I (also (also K a) b) own due x) : I (also K b) own due x :=
  U.weaken hx fun _ h => h.imp_left .inl

theorem silent {a : α} {own : List Nat} {x : Encoding η} (hx : I K own due x)
    (ha : ∀ f, ¬ tells a f) : I (also K a) own due x :=
  U.weaken hx fun f h => h.elim id fun h => absurd h (ha f)

theorem bind (hm : Keeps I K [] [] m) (hf : ∀ a, Keeps I (also K a) mine [] (f a)) :
    Keeps I K mine [] (m >>= f) :=
  fun own => .bind (hm (mine ++ own)) fun a => (hf a own).post fun _ _ hx => U.forget hx

/-- What is in hand or owed is answered for first. -/
theorem next {m : EncodeM η Unit} {m' : EncodeM η β} (hm : Keeps I K mine due m)
    (hm' : Keeps I K [] [] m') : Keeps I K mine due (m >>= fun _ => m') :=
  fun own => .bind (hm own) fun _ => (hm' own).pre fun _ hx => U.weaken hx fun _ => .inl

theorem pure {a : α} (h : ∀ f, tells a f → K f) : Keeps I K [] [] (Pure.pure a : EncodeM η α) :=
  fun _ => .pure fun _ hx => U.weaken hx fun f hf => hf.elim id (h f)

theorem ok {a : α} (h : ∀ f, tells a f → K f) :
    Keeps I K [] [] (Pure.pure (.ok a) : EncodeM η (Rendered α)) := by
  refine U.pure fun f hf => ?_
  rcases hf with ⟨_, ⟨⟩, hf⟩ | ⟨_, _, _, ⟨⟩, _⟩
  exact h f hf

theorem throw (reason : Rejection) :
    Keeps I K [] [] (Pure.pure (.error (.throw reason)) : EncodeM η (Rendered α)) := by
  refine U.pure fun f hf => ?_
  rcases hf with ⟨_, ⟨⟩, _⟩ | ⟨_, _, _, ⟨⟩, _⟩

/-- An answer that is passed on. -/
theorem return_ok {m : EncodeM η Json} (hm : Keeps I K [] [] m) :
    Keeps I K [] [] (do return .ok (← m) : EncodeM η (Rendered Json)) :=
  U.bind hm fun _ => U.ok fun _ => .inr

/-- A token is written whose row is provided for. -/
theorem token {t : Token} (h : ∀ n, t.row? = some n → K (.row n)) :
    Keeps I K [] [] (Pure.pure (tokenJson t) : EncodeM η Json) := by
  refine U.pure ?_
  rintro _ ⟨n, hn, rfl⟩
  exact h n (Json.mentions_tokenJson hn)

theorem row {id : Nat} (h : K (.row id)) :
    Keeps I K [] [] (Pure.pure (Encoder.rowJson id) : EncodeM η Json) :=
  U.token (t := .row { row := id }) fun _ hn => Option.some.inj hn ▸ h

theorem readEncoder {f : Encoder → EncodeM η β} (hf : ∀ e, Keeps I (also K e) mine due (f e)) :
    Keeps I K mine due (EncodeM.encoder >>= f) := by
  intro own x b y hx hy
  exact U.forget (hf x.encoder own x b y (U.encoder hx) hy)

theorem readStore {f : Store → EncodeM η β} (hf : ∀ s, Keeps I (also K s) mine due (f s)) :
    Keeps I K mine due (EncodeM.store >>= f) := by
  intro own x b y hx hy
  exact U.forget (hf x.store own x b y (U.store hx) hy)

/-! ### Rows and tasks -/

theorem allocate {f : Nat → EncodeM η β} (hf : ∀ id, Keeps I (also K id) [] [id] (f id)) :
    Keeps I K [] [] (onEncoder (·.allocateRow) >>= f) := by
  intro own x b y hx hy
  exact U.forget (hf _ own _ b y (U.allocateRow hx) hy)

theorem create {f : Task → EncodeM η β} (model : Value) {recalled : List CellId}
    (hrecalled : ∀ c ∈ recalled, K (.promise c))
    (hf : ∀ t, t.status = .pending → t.recalled = recalled → Keeps I (also K t) [t.id] [] (f t)) :
    Keeps I K [] [] (onEncoder (·.createTask model recalled) >>= f) := by
  intro own x b y hx hy
  exact U.forget (hf _ rfl rfl own _ b y (U.createTask model hx hrecalled) hy)

/-- The row of a task in hand is provided for. -/
theorem own {id : Nat} {m : EncodeM η β} (hm : Keeps I (also K id) [id] [] m) :
    Keeps I K [id] [] m := by
  intro own x b y hx hy
  exact U.forget (hm own x b y (U.owned hx) hy)

/-- A task is done with but for its row. -/
theorem drop {id : Nat} {m : EncodeM η β} (hm : Keeps I K [] [id] m) :
    Keeps I K [id] [] (modifyEncoder (·.dropAbortable id) >>= fun _ => m) :=
  fun own _ b y hx hy => hm own _ b y (U.dropAbortable hx) hy

theorem pushRow {q : Queue} {id : Nat} {body : RowBody} (hq : q ≠ .hints) (hvalue : body.isValue)
    (hopen : body.isOpening = false) (hsafe : Row.HintSafe ⟨id, body⟩)
    (hm : ∀ n, body.Mentions n → K (.row n)) :
    Keeps I K [] [id] (modifyEncoder (·.push q ⟨id, body⟩)) :=
  fun _ => .modifyEncoder fun _ hx => U.silent (U.push hx hq hvalue hopen hsafe hm) fun _ h => h

/-- A model row speaks of rows that are provided for. -/
theorem pushModel {q : Queue} {id : Nat} {j : Json} (hq : q ≠ .hints) (hj : ∀ f, tells j f → K f) :
    Keeps I K [] [id] (modifyEncoder (·.pushModel q id j)) :=
  U.pushRow hq rfl rfl (by rintro c j ⟨⟩) fun n hn => hj (.row n) ⟨n, hn, rfl⟩

theorem reject (id : Nat) (reason : Rejection) :
    Keeps I K [] [id] (EncodeM.emitRejection id reason) :=
  fun _ => .onBoth fun _ hx => U.silent (U.emitRejection reason hx) fun _ h => h

theorem fatal {f : Nat → EncodeM η β} (hf : ∀ id, Keeps I (also K id) mine due (f id)) :
    Keeps I K mine due (EncodeM.fatalRow >>= f) := by
  intro own x b y hx hy
  exact U.forget (hf _ own _ b y (U.fatalRow hx) hy)

/-- A task is put aside until a promise settles. -/
theorem await {m : EncodeM η β} {p : CellId} (cb : Nat → Callback) (hready : task.status = .pending)
    (hknown : ∀ c ∈ p :: task.recalled, K (.promise c))
    (hcb : ∀ mailbox, cb mailbox = .retry mailbox task.id ∨ cb mailbox = .deliver mailbox task.id)
    (hm : Keeps I K [] [] m) :
    Keeps I K [task.id] [] (do
      modifyEncoder (·.keepTask task)
      modifyStore (·.andThen p (cb (← EncodeM.encoder).mailbox))
      m) :=
  fun own _ b y hx hy => hm own _ b y (U.andThen hx hready hknown (hcb _)) hy

/-- A task is put aside and tried again at once. -/
theorem retryLater (task : Task) {m : EncodeM η β} (hready : task.status = .pending)
    (hknown : ∀ c ∈ task.recalled, K (.promise c)) (hm : Keeps I K [] [] m) :
    Keeps I K [task.id] [] (do
      modifyEncoder (·.keepTask task)
      modifyStore (·.post (← EncodeM.encoder).mailbox (.retry task.id))
      m) :=
  fun own _ b y hx hy => hm own _ b y (U.post hx hready hknown) hy

theorem suspendTask (task : Task) {p : CellId} (hready : task.status = .pending)
    (hknown : ∀ c ∈ p :: task.recalled, K (.promise c)) :
    Keeps I K [task.id] [] (suspendTask task p) := by
  intro own x a y hx hy
  obtain ⟨rfl, rfl⟩ := Prod.mk.inj (Option.some.inj hy)
  exact U.silent (U.andThen hx hready hknown (.inl rfl)) fun _ h => h

/-! ### Memory -/

theorem note (g : RefTable Token → RefTable Token) (hnext : ∀ refs, (g refs).nextId = refs.nextId)
    (hg : ∀ e : Encoder, ∀ n ∈ { e with refs := g e.refs }.remembered,
      n ∈ e.remembered ∨ K (.row n)) :
    Keeps I K [] [] (modifyEncoder fun e => { e with refs := g e.refs }) :=
  fun _ => .modifyEncoder fun x hx => U.silent (U.remember hx (hnext _) (hg x.encoder)) fun _ h => h

theorem record (v : Value) {t : Token} (ht : ∀ n, t.row? = some n → K (.row n)) :
    Keeps I K [] [] (modifyEncoder (·.record v t)) :=
  U.note (·.record v t) (RefTable.nextId_record · v t) fun _ n hn =>
    (mem_remembered_record hn).imp_right (ht n)

theorem recordRow (v : Value) {r : Reference} (hr : K (.row r.row)) :
    Keeps I K [] [] (modifyEncoder (·.record v (.row r))) :=
  U.record v fun _ hn => Option.some.inj hn ▸ hr

theorem makes {c : Cell} (hpromise : ∀ p, c ≠ .promise p) (hstream : ∀ st, c ≠ .stream st) :
    Keeps I K [] [] (onStore (·.make c)) :=
  fun _ => .onStore fun _ hx => U.silent (U.make hx hpromise hstream) fun _ h => h

/-- Making the cells that stand for a collection. -/
theorem entriesArray (c : Cell) : Keeps I K [] [] (onStore (entriesArray c)) := by
  have hmake : ∀ {own} (x : Encoding η) items, I K own [] x →
      I K own [] { x with store := (x.store.make (.array items)).2 } :=
    fun _ _ hx => U.make hx (by rintro _ ⟨⟩) (by rintro _ ⟨⟩)
  have hpairs : ∀ {own} (entries : List (Value × Value)) (x : Encoding η), I K own [] x →
      I K own [] { x with store := (pairArrays entries x.store).2 } := by
    intro own entries
    induction entries with
    | nil => exact fun _ hx => hx
    | cons entry entries ih => exact fun x hx => ih _ (hmake x [entry.1, entry.2] hx)
  refine fun own => .onStore fun x hx => U.weaken ?_ fun _ h => h.elim (fun h => h) False.elim
  unfold Render.entriesArray
  split
  · exact hmake _ _ (hpairs _ x hx)
  · exact hmake _ _ (hpairs _ x hx)
  · exact hmake x _ hx
  · exact hmake _ _ (U.make hx (by rintro _ ⟨⟩) (by rintro _ ⟨⟩))
  · exact hmake x _ hx

/-! ### Leaves -/

theorem renderString (t : String) : Keeps I K [] [] (renderString t) := by
  unfold Render.renderString
  refine U.readEncoder fun e => ?_
  split
  · refine U.allocate fun id => U.next (U.pushRow (by decide) rfl rfl (by rintro c j ⟨⟩) ?_)
      (U.row (.inr rfl))
    exact fun _ h => h.elim
  · exact U.token (by rintro n ⟨⟩)

theorem renderSymbol (name : String) : Keeps I K [] [] (renderSymbol name) := by
  unfold Render.renderSymbol
  refine U.readEncoder fun e => ?_
  split
  · exact U.row (.inr ⟨_, mem_remembered_symbol ‹_›, rfl⟩)
  · refine U.allocate fun id => U.next (U.pushModel (by decide) ?_) (U.next ?_ (U.row (.inr rfl)))
    · rintro _ ⟨n, hn, rfl⟩
      cases Json.mentions_tokenJson hn
    · exact U.note (·.recordSymbol name id) (fun _ => rfl) fun _ n hn =>
        (mem_remembered_recordSymbol hn).imp_right fun hn => .inr (congrArg _ hn)

theorem renderClient (path : String) (isAsync : Bool) :
    Keeps I K [] [] (renderClient path isAsync) := by
  unfold Render.renderClient
  refine U.readEncoder fun e => ?_
  split
  · exact U.row (.inr ⟨_, mem_remembered_client ‹_›, rfl⟩)
  refine U.allocate fun id => U.readEncoder fun e' => ?_
  have record : Keeps I (also (also (also K e) id) e') [] [] (do
      modifyEncoder fun e => { e with refs := e.refs.recordClient (clientKey path isAsync) id }
      return Encoder.rowJson id : EncodeM η Json) := by
    refine U.next (U.note (·.recordClient (clientKey path isAsync) id) (fun _ => rfl)
      fun _ n hn => ?_) (U.row (.inl (.inr rfl)))
    exact (mem_remembered_recordClient hn).imp_right fun hn => .inl (.inr (congrArg _ hn))
  split
  · exact U.next (U.pushRow (by decide) rfl rfl (by rintro c j ⟨⟩) fun _ h => h.elim) record
  · exact U.next (U.reject id _) record

theorem promiseRow {id : CellId} (hid : K (.promise id)) : Keeps I K [] [] (promiseRow id) := by
  unfold Render.promiseRow
  refine U.create .null (by rintro _ ⟨⟩) fun task hready htask => U.readStore fun s => ?_
  have answered : Keeps I (also (also K task) s) [] [] (Pure.pure task.id : EncodeM η Nat) :=
    U.pure fun f hf => .inl (.inr (.inl hf))
  have hknown : ∀ c ∈ task.recalled, also (also K task) s (.promise c) := by
    rw [htask]
    rintro _ ⟨⟩
  split <;> dsimp only
  · rename_i v _
    exact U.retryLater { task with model := v } hready hknown answered
  · exact U.drop (U.next (U.reject task.id _) answered)
  refine U.readEncoder fun e => ?_
  split
  · refine U.drop (U.fatal fun fatal => U.next (U.pushModel (by decide) fun f hf =>
      .inr (tells_rowJson hf)) ?_)
    exact U.pure fun f hf => .inl (.inl (.inl (.inr (.inl hf))))
  · refine U.await (.deliver · task.id) hready (fun c hc => .inl ?_) (fun _ => .inr rfl)
      (U.pure fun f hf => .inl (.inl (.inr (.inl hf))))
    rcases List.mem_cons.mp hc with rfl | hc
    · exact .inl (.inl hid)
    · exact hknown c hc

theorem renderPromise {id : CellId} (isRoot : Bool) (hid : K (.promise id)) :
    Keeps I K [] [] (renderPromise id isRoot) := by
  unfold Render.renderPromise
  refine U.readEncoder fun e => ?_
  split
  · exact U.token fun n hn => .inr ⟨n, mem_remembered_of_get? ‹_› hn, rfl⟩
  · have hrow : ∀ row n, (Token.promise row).row? = some n → also (also K e) row (.row n) :=
      fun row n hn => .inr (congrArg _ (Option.some.inj hn).symm)
    exact U.bind (U.promiseRow (.inl hid)) fun row => U.next (U.record _ (hrow row))
      (U.token (hrow row))

theorem renderBinary (id : CellId) (data : Binary) : Keeps I K [] [] (renderBinary id data) := by
  unfold Render.renderBinary
  refine U.allocate fun row => U.next
    (U.pushRow (by decide) rfl rfl (by rintro c j ⟨⟩) fun _ h => h.elim) (U.readEncoder fun e => ?_)
  dsimp only
  split
  · exact U.next (U.recordRow _ (.inl (.inr rfl))) (U.row (.inl (.inr rfl)))
  · exact U.row (.inl (.inr rfl))

/-! ### Places -/

theorem remember_keeps {id : CellId} {parent : Option Reference} {isRoot : Bool} {own : List Nat}
    {task : Nat} (key : String) (isTree : Bool) (S : Store → Prop) (hparent : Placed K parent)
    (hroot : isRoot = true → K (.row task)) :
    Ensures (fun x => I K own [] x ∧ S x.store) (Render.remember task parent key id isRoot isTree)
      fun _ x => I K own [] x ∧ S x.store := by
  have record : ∀ r : Reference, K (.row r.row) → Ensures (fun x => I K own [] x ∧ S x.store)
      (modifyEncoder (·.record (.cell id) (.row r))) fun _ x => I K own [] x ∧ S x.store := by
    refine fun r hr => .modifyEncoder fun x hx =>
      ⟨U.remember hx.1 (RefTable.nextId_record _ _ _) fun n hn => ?_, hx.2⟩
    refine (mem_remembered_record hn).imp_right fun hn => ?_
    obtain rfl : r.row = n := Option.some.inj hn
    exact hr
  have second : Ensures (fun x => I K own [] x ∧ S x.store)
      (if isRoot && isTree then modifyEncoder
        (·.record (.cell id) (.row { row := task })) else Pure.pure ())
      fun _ x => I K own [] x ∧ S x.store := by
    split
    · rename_i h
      exact record _ (hroot (Bool.and_eq_true_iff.mp h).1)
    · exact .pure fun x hx => hx
  unfold Render.remember
  refine .bind .encoder fun e => .pre (P := fun x => I K own [] x ∧ S x.store) ?_ fun x hx => hx.1
  dsimp only
  split
  · split
    · rename_i r hr
      exact .bind (record r (hparent.childReference? key r hr)) fun _ => second
    · exact second
  · exact second

theorem ownReference (id : CellId) : Keeps I K [] [] (ownReference id) := by
  unfold Render.ownReference
  refine U.readEncoder fun e => ?_
  split
  · refine U.pure ?_
    rintro _ ⟨r, ⟨⟩, rfl⟩
    exact .inr ⟨_, mem_remembered_of_get? ‹_› rfl, rfl⟩
  · exact U.pure (by rintro _ ⟨r, ⟨⟩, -⟩)

theorem renderParts {render : String → Value → EncodeM η (Rendered Json)}
    {parent : Option Reference}
    (hrender : ∀ {K} k v, Placed K parent → Keeps I K [] [] (render k v))
    (parts : List (String × Value)) (hparent : Placed K parent) :
    Keeps I K [] [] (renderParts render parts) := by
  induction parts generalizing K with
  | nil => exact U.ok (by rintro _ ⟨n, ⟨⟩, -⟩)
  | cons part parts ih =>
    obtain ⟨k, v⟩ := part
    unfold Render.renderParts
    refine U.bind (hrender k v hparent) fun r => ?_
    cases r with
    | error h => exact U.pure fun f hf => .inr (tells_error hf)
    | ok j =>
      refine U.bind (ih fun r hr => .inl (hparent r hr)) fun rs => ?_
      cases rs with
      | error h => exact U.pure fun f hf => .inr (tells_error hf)
      | ok fs =>
        refine U.ok ?_
        rintro _ ⟨n, hn | hn, rfl⟩
        · exact .inl (.inr (.inl ⟨j, rfl, n, hn, rfl⟩))
        · exact .inr (.inl ⟨fs, rfl, n, hn, rfl⟩)

end Upholds

/-! ### All of rendering -/

/-- Rendering with some fuel upholds an invariant, whichever of its functions is called. A task that
is tried answers for its own row; everything else leaves what the caller owes as it was. -/
structure Upholding (run : Force η) (I : Invariant η) (fuel : Nat) : Prop where
  task : ∀ {K} (task : Task), task.status = .pending → (∀ c ∈ task.recalled, K (.promise c)) →
    Keeps I K [task.id] [] (retryTask run fuel task)
  root : ∀ {K} v {recalled : List CellId}, (∀ c ∈ recalled, K (.promise c)) →
    Keeps I K [] [] (resolveRoot run fuel v recalled)
  outline : ∀ {K} model, Keeps I K [] [] (outline run fuel model)
  model : ∀ {K parent} task key v, Placed K parent →
    Keeps I K [] [] (renderModel run fuel task parent key v)
  value : ∀ {K parent task isRoot} key v, Placed K parent → (isRoot = true → K (.row task)) →
    Keeps I K [] [] (renderValue run fuel task parent key v isRoot)
  server : ∀ {K} id name bound, Keeps I K [] [] (renderServer run fuel id name bound)
  shared : ∀ {K own parent task isRoot} key id c, Placed K parent →
    (isRoot = true → K (.row task)) →
    Ensures (fun x => I K own [] x ∧ x.store.cell? id = some c)
      (renderShared run fuel task parent key id c isRoot) fun r => I (also K r) own []

namespace Upholds

variable {run : Force η} {I : Invariant η} {K : Fact → Prop} {fuel : Nat}
  {parent : Option Reference} {task : Nat}

variable (U : Upholds run I) (R : Upholding run I fuel)
include U R

theorem retryTask_succ (task : Task) (hready : task.status = .pending)
    (htask : ∀ c ∈ task.recalled, K (.promise c)) :
    Keeps I K [task.id] [] (retryTask run (fuel + 1) task) := by
  rw [retryTask, if_neg (by simp [hready])]
  refine U.bind (R.root task.model htask) fun r => ?_
  extract_lets finish
  have hfinish : ∀ {K : Fact → Prop} r, (∀ f, tells r f → K f) →
      Keeps I K [task.id] [] (finish r) := by
    intro K r hr
    rcases r with (⟨model, promise, recalled⟩ | reason) | j
    · refine U.readEncoder fun e => ?_
      split
      · exact U.drop (U.fatal fun fatal => U.pushModel (by decide) fun f hf =>
          .inr (tells_rowJson hf))
      · exact U.suspendTask { task with status := .pending, model, recalled } rfl
          fun c hc => .inl (hr _ (tells_suspend hc))
    · exact U.drop (U.reject task.id reason)
    · exact U.drop (U.pushModel (by decide) fun f hf => hr f (.inl ⟨j, rfl, hf⟩))
  split
  · -- the row of the task is owed all along, so it may be spoken of
    exact U.own (U.bind (R.value "" _ (by rintro _ ⟨⟩) fun _ => .inr rfl) fun r =>
      hfinish r fun f hf => .inr hf)
  · rename_i h
    rw [pure_bind]
    exact hfinish (.error h) fun f hf => .inr (tells_error hf)

theorem resolveRoot_succ (v : Value) {recalled : List CellId}
    (hrecalled : ∀ c ∈ recalled, K (.promise c)) :
    Keeps I K [] [] (resolveRoot run (fuel + 1) v recalled) := by
  unfold resolveRoot
  refine U.readStore fun s => ?_
  split
  · refine U.bind (U.force _ fun c hc => .inl (hrecalled c hc)) fun r => ?_
    split
    · exact R.root _ (by rintro _ ⟨⟩)
    · exact U.pure fun f hf => .inr (tells_interrupt hf)
    · exact U.throw _
  · exact U.ok fun _ h => h.elim

theorem outline_succ (model : Value) : Keeps I K [] [] (outline run (fuel + 1) model) := by
  unfold outline
  refine U.create model (by rintro _ ⟨⟩) fun task hready htask =>
    U.next (R.task task hready ?_) (U.pure fun f hf => .inr (.inl hf))
  rw [htask]
  rintro _ ⟨⟩

theorem renderModel_succ (key : String) (v : Value) (hparent : Placed K parent) :
    Keeps I K [] [] (renderModel run (fuel + 1) task parent key v) := by
  unfold renderModel
  refine U.bind (R.value key v hparent (by rintro ⟨⟩)) fun r => ?_
  split
  · exact U.pure fun f hf => .inr hf
  · refine U.readEncoder fun e => ?_
    split
    · exact U.fatal fun fatal => U.ok fun f hf => .inr (tells_rowJson hf)
    · refine U.create _ (fun c hc => .inl (.inr (tells_suspend (List.mem_cons_of_mem _ hc))))
        fun outlined hready houtlined =>
        U.next (U.suspendTask outlined hready fun c hc =>
          .inl (.inl (.inr (tells_suspend (houtlined ▸ hc)))))
          (U.ok fun f hf => .inr (.inl (tells_rowJson hf)))
  · exact U.allocate fun id => U.next (U.reject id _) (U.ok fun f hf => .inr (tells_rowJson hf))
  · exact U.pure fun f hf => .inr hf

theorem renderValue_succ {isRoot : Bool} (key : String) (v : Value) (hparent : Placed K parent)
    (hroot : isRoot = true → K (.row task)) :
    Keeps I K [] [] (renderValue run (fuel + 1) task parent key v isRoot) := by
  have token : ∀ {K : Fact → Prop} {t : Token}, t.row? = none →
      Keeps I K [] [] (Pure.pure (.ok (tokenJson t)) : EncodeM η (Rendered Json)) :=
    fun ht => U.return_ok (U.token fun n hn => by rw [ht] at hn; cases hn)
  have plain : ∀ {j : Json}, (∀ n, ¬ j.Mentions n) →
      Keeps I K [] [] (Pure.pure (.ok j) : EncodeM η (Rendered Json)) :=
    fun hj => U.ok fun f hf => by
      obtain ⟨n, hn, rfl⟩ := hf
      exact absurd hn (hj n)
  unfold renderValue
  split
  · exact token rfl
  · exact plain fun _ h => h.elim
  · exact plain fun _ h => h.elim
  · exact plain (not_mentions_ofNumber _)
  · exact U.return_ok (U.renderString _)
  · exact token rfl
  · exact token rfl
  · exact U.return_ok (U.renderSymbol _)
  refine fun own => .bind .store fun s => ?_
  have now : ∀ {m : EncodeM η (Rendered Json)}, Keeps I K [] [] m →
      Ensures (fun x => I K own [] x ∧ x.store = s) m
      fun r => I (also K r) own [] := fun hm => (hm own).pre fun _ hx => hx.1
  split
  · exact now (token rfl)
  · refine now (U.bind (U.force _ (by rintro _ ⟨⟩)) fun r => ?_)
    split
    · exact R.value "" _ (by rintro _ ⟨⟩) (by rintro ⟨⟩)
    · exact U.pure fun f hf => .inr (tells_interrupt hf)
    · exact U.throw _
  · exact now (U.return_ok (U.renderClient _ _))
  · exact now (U.return_ok (R.server _ _ _))
  · rename_i hcell
    exact (R.shared key _ _ hparent hroot).pre fun x hx => ⟨hx.1, hx.2 ▸ hcell⟩

theorem renderServer_succ (id : CellId) (name : String) (bound : Option Value) :
    Keeps I K [] [] (renderServer run (fuel + 1) id name bound) := by
  unfold renderServer
  refine U.readEncoder fun e => ?_
  split
  · exact U.token fun n hn => .inr ⟨n, mem_remembered_of_server? ‹_› hn, rfl⟩
  · have hrow : ∀ {K : Fact → Prop} row n, (Token.derived .server row).row? = some n →
        also K row (.row n) :=
      fun row n hn => .inr (congrArg _ (Option.some.inj hn).symm)
    refine U.bind (U.makes ?_ ?_) fun model => U.bind (R.outline model) fun row =>
      U.next ?_ (U.token (hrow row))
    · rintro _ ⟨⟩
    · rintro _ ⟨⟩
    · exact U.note (·.recordServer (.cell id) (.derived .server row))
        (RefTable.nextId_recordServer · _ _) fun _ n hn =>
          (mem_remembered_recordServer hn).imp_right (hrow row n)

theorem renderShared_succ {own : List Nat} {isRoot : Bool} (key : String) (id : CellId) (c : Cell)
    (hparent : Placed K parent) (hroot : isRoot = true → K (.row task)) :
    Ensures (fun x => I K own [] x ∧ x.store.cell? id =
      some c) (renderShared run (fuel + 1) task parent key id c isRoot)
      fun r => I (also K r) own [] := by
  have now : ∀ {P : Encoding η → Prop} {m : EncodeM η (Rendered Json)}, Keeps I K [] [] m →
      Ensures (fun x => I K own [] x ∧ P x) m fun r => I (also K r) own [] :=
        fun hm => (hm own).pre fun _ hx => hx.1
  have parts : ∀ (l : List (String × Value)) (g : List (String × Json) → Json),
      (∀ fs f, tells (g fs) f → tells fs f) → Keeps I K [] [] (do
        let own ← Render.ownReference id
        return (← Render.renderParts (renderModel run fuel task own) l).map g) := by
    intro l g hg
    refine U.bind (U.ownReference id) fun own? => U.bind (U.renderParts (R.model task) l fun r hr =>
      .inr ⟨r, hr, rfl⟩) fun r => ?_
    cases r with
    | error h => exact U.pure fun f hf => .inr (tells_error hf)
    | ok fs => exact U.ok fun f hf => .inr (.inl ⟨fs, rfl, hg fs f hf⟩)
  unfold renderShared
  refine .bind .encoder fun e => .bind .store fun s =>
    .pre (P := fun x => I K own [] x ∧ x.store.cell? id = some c) ?_ fun x hx => hx.1.1
  split
  · exact now (U.return_ok (U.token (by rintro n ⟨⟩)))
  · exact now (U.throw _)
  · rename_i p _
    intro x a y hx hy
    have hpromise : (x.store.promise? id).isSome := by rw [Store.promise?_of_cell? hx.2]; rfl
    refine U.forget (U.return_ok (U.renderPromise isRoot ?_) own x a y (U.store hx.1) hy)
    exact .inr ⟨id, hpromise, rfl⟩
  rename_i c _ _ _ _ _
  refine .bind .encoder fun e => ?_
  split
  · rename_i t ht
    intro x a y hx hy
    refine U.forget (U.return_ok (U.token ?_) own x a y (U.encoder hx.1.1) hy)
    exact fun n hn => .inr ⟨n, mem_remembered_of_get? (hx.2 ▸ ht) hn, rfl⟩
  refine .bind ((U.remember_keeps key _ (fun s => s.cell? id = some c) hparent hroot).pre
    fun x hx => hx.1) fun _ => ?_
  split
  · refine now (parts _ _ ?_)
    rintro fs _ ⟨n, hn, rfl⟩
    refine ⟨n, Json.mentionsField_iff.mpr ?_, rfl⟩
    obtain ⟨j, hj, hmj⟩ := Json.mentionsItem_iff.mp hn
    obtain ⟨field, hfield, rfl⟩ := List.mem_map.mp hj
    exact ⟨field, hfield, hmj⟩
  · exact now (parts _ _ fun _ _ h => h)
  · exact now (U.return_ok (U.renderBinary id _))
  · exact (U.renderStream id _).pre fun x hx => ⟨hx.1, Store.stream?_of_cell? hx.2⟩
  split
  · exact now (U.throw _)
  rename_i kind _
  have hrow : ∀ {K : Fact → Prop} row n, (Token.derived kind row).row? = some n →
      also K row (.row n) :=
    fun row n hn => .inr (congrArg _ (Option.some.inj hn).symm)
  refine now (U.bind (U.entriesArray _) fun entries => U.bind (R.outline entries) fun row =>
    U.readEncoder fun e => ?_)
  dsimp only
  split
  · exact U.next (U.record _ fun n hn => .inl (hrow row n hn))
      (U.return_ok (U.token fun n hn => .inl (hrow row n hn)))
  · exact U.return_ok (U.token fun n hn => .inl (hrow row n hn))

omit R in
/-- **Rendering upholds what its simple steps uphold**, with any fuel. -/
theorem renders (fuel : Nat) : Upholding run I fuel := by
  induction fuel with
  | zero =>
    exact {
      task := fun _ _ _ _ => by unfold retryTask; exact .exhausted
      root := fun _ _ _ _ => by unfold resolveRoot; exact .exhausted
      outline := fun _ _ => by unfold outline; exact .exhausted
      model := fun _ _ _ _ _ => by unfold renderModel; exact .exhausted
      value := fun _ _ _ _ _ => by unfold renderValue; exact .exhausted
      server := fun _ _ _ _ => by unfold renderServer; exact .exhausted
      shared := fun _ _ _ _ _ => by unfold renderShared; exact .exhausted }
  | succ fuel R =>
    exact {
      task := U.retryTask_succ R
      root := U.resolveRoot_succ R
      outline := U.outline_succ R
      model := fun _ => U.renderModel_succ R
      value := U.renderValue_succ R
      server := U.renderServer_succ R
      shared := U.renderShared_succ R }

end Upholds

end Render

end GraphRows
