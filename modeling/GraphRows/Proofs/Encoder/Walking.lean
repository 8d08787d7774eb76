import GraphRows.Proofs.Encoder.Accounts

/-!
# Habits of an encoder

Most of what an encoder does while it renders is of a kind: it looks at itself, though never at what
a flush changes, it queues rows and remembers things. Hints come from thunks only. `Habit P run`
says that `P` holds of each such step, and of two steps one after the other if it holds of each; the
theorems here go through rendering and through the loop over messages once for all habits.

## Main results

* `EncodeM.Habit.renders`: a habit of rendering
* `EncodeM.Habit.handleAll`: a habit of acting on messages
-/

namespace GraphRows

/-- The code and the payload of a hint row. -/
def Row.hint? (r : Row) : Option (Char × Json) :=
  match r.body with
  | .hint code payload => some (code, payload)
  | _ => none

namespace Encoder

/-- No hint is queued, and none is forgotten. -/
structure Unhinted (e e' : Encoder) : Prop where
  status : e'.status = e.status
  hints : e'.hints = e.hints
  keys : e'.hintKeys = e.hintKeys
  others : ∀ r ∈ e'.imports ++ e'.regular ++ e'.errors, r ∈ e.imports ++ e.regular ++ e.errors ∨
    r.hint? = none

namespace Unhinted

variable {e e' e'' : Encoder}

theorem refl (e : Encoder) : Unhinted e e := ⟨rfl, rfl, rfl, fun _ => .inl⟩

theorem trans (h : Unhinted e e') (h' : Unhinted e' e'') : Unhinted e e'' :=
  ⟨h'.status.trans h.status, h'.hints.trans h.hints, h'.keys.trans h.keys, fun r hr =>
    (h'.others r hr).elim (h.others r) .inr⟩

theorem push (h : Unhinted e e') {q : Queue} {r : Row} (hq : q ≠ .hints) (hr : r.hint? = none) :
    Unhinted e (e'.push q r) := by
  refine h.trans ?_
  cases q with
  | hints => exact absurd rfl hq
  | _ =>
    refine ⟨rfl, rfl, rfl, fun r' hr' => ?_⟩
    simp only [Encoder.push, List.mem_append, List.mem_singleton] at hr' ⊢
    grind

theorem takeTask (e : Encoder) (id : Nat) : Unhinted e (e.takeTask id).2 := by
  unfold Encoder.takeTask
  split <;> exact ⟨rfl, rfl, rfl, fun _ => .inl⟩

end Unhinted

/-- What a flush changes, set to something else. -/
def veiled (e : Encoder) (hints : List Row) (sink : Option Nat) (flowing : Bool) (batch : Batch) :
    Encoder :=
  { e with hints, sink, flowing, batch }

/-- A step that queues no hint, and neither looks at what a flush changes nor changes it. -/
structure Plain {α : Type} (g : Encoder → α × Encoder) : Prop where
  blind : ∀ (e : Encoder) hints sink flowing batch, g (e.veiled hints sink flowing batch) =
    ((g e).1, (g e).2.veiled hints sink flowing batch)
  unhinted : ∀ e : Encoder, e.Unhinted (g e).2
  config : ∀ e, (g e).2.config = e.config

namespace Plain

theorem push {q : Queue} {r : Row} (hq : q ≠ .hints) (hr : r.hint? = none) :
    Plain fun e => ((), e.push q r) := by
  refine ⟨fun _ _ _ _ _ => ?_, fun e => (Unhinted.refl e).push hq hr, fun _ => ?_⟩
  all_goals cases q with
  | hints => exact absurd rfl hq
  | _ => rfl

theorem takeTask (id : Nat) : Plain (·.takeTask id) := by
  refine ⟨fun e hints sink flowing batch => ?_, fun e => .takeTask e id, fun e => ?_⟩
  · have htasks : (e.veiled hints sink flowing batch).tasks = e.tasks := rfl
    rw [Encoder.takeTask, Encoder.takeTask, htasks]
    cases e.tasks.find? (·.id == id) <;> rfl
  · unfold Encoder.takeTask
    split <;> rfl

theorem takeStream (id : Nat) : Plain (·.takeStream id) := by
  refine ⟨fun e hints sink flowing batch => ?_, fun e => ?_, fun e => ?_⟩
  · have hstreams : (e.veiled hints sink flowing batch).streams = e.streams := rfl
    rw [Encoder.takeStream, Encoder.takeStream, hstreams]
    cases e.streams.find? (·.id == id) <;> rfl
  · unfold Encoder.takeStream
    split <;> exact ⟨rfl, rfl, rfl, fun _ => .inl⟩
  · unfold Encoder.takeStream
    split <;> rfl

end Plain

end Encoder

namespace EncodeM

open Render

variable {η : Type}

/-- A property of steps that holds of what an encoder does while it renders, and of two steps, one
after the other, if it holds of each. What follows may look at all of the encoder but what a flush
changes. -/
structure Habit (P : ∀ α : Type, EncodeM η α → Prop) (run : Force η) : Prop where
  pure : ∀ {α : Type} (a : α), P α (Pure.pure a)
  bind : ∀ {α β : Type} {m : EncodeM η α} {f : α → EncodeM η β}, P α m →
    (∀ a, P β (f a)) → P β (m >>= f)
  exhausted : ∀ {α : Type}, P α exhausted
  encoder : ∀ {α : Type} {f : Encoder → EncodeM η α}, (∀ e, P α (f e)) →
    (∀ (e : Encoder) hints sink flowing batch, f (e.veiled hints sink flowing batch) = f e) →
      P α (encoder >>= f)
  store : P Store store
  onEncoder : ∀ {α : Type} {g : Encoder → α × Encoder}, Encoder.Plain g → P α (onEncoder g)
  onStore : ∀ {α : Type} (g : Store → α × Store), P α (onStore g)
  emitRejection : ∀ id r, P Unit (emitRejection id r)
  fatalRow : P Nat fatalRow
  force : ∀ id recalled, P (Except Interrupt Value × List CellId) (force run id recalled)

/-- The habit is one of all rendering with the fuel. -/
structure Renders (P : ∀ α : Type, EncodeM η α → Prop) (run : Force η) (fuel : Nat) : Prop where
  task : ∀ task, P _ (retryTask run fuel task)
  root : ∀ v recalled, P _ (resolveRoot run fuel v recalled)
  row : ∀ v, P _ (outline run fuel v)
  model : ∀ task parent key v, P _ (renderModel run fuel task parent key v)
  value : ∀ task parent key v isRoot, P _ (renderValue run fuel task parent key v isRoot)
  server : ∀ id name bound, P _ (renderServer run fuel id name bound)
  shared : ∀ task parent key id c isRoot, P _ (renderShared run fuel task parent key id c isRoot)

namespace Habit

variable {P : ∀ α : Type, EncodeM η α → Prop} {run : Force η}

theorem modifyEncoder (H : Habit P run) {g : Encoder → Encoder}
    (hg : Encoder.Plain fun e => ((), g e)) : P Unit (modifyEncoder g) :=
  H.onEncoder hg

theorem modifyStore (H : Habit P run) (g : Store → Store) : P Unit (modifyStore g) :=
  H.onStore fun s => ((), g s)

theorem renderParts (H : Habit P run) {render : String → Value → EncodeM η (Rendered Json)}
    (h : ∀ k v, P _ (render k v)) (parts : List (String × Value)) :
    P _ (renderParts render parts) := by
  induction parts with
  | nil => exact H.pure _
  | cons part parts ih =>
    refine H.bind (h _ _) fun r => ?_
    cases r with
    | error => exact H.pure _
    | ok =>
      refine H.bind ih fun r => ?_
      cases r <;> exact H.pure _

/-- **Rendering** is a matter of habit. -/
theorem renders (H : Habit P run) (fuel : Nat) : Renders P run fuel := by
  induction fuel with
  | zero =>
    constructor <;> intros <;> simp only [retryTask, resolveRoot, outline, renderModel, renderValue,
      renderServer, renderShared] <;> exact H.exhausted
  | succ fuel K =>
    constructor <;> intros
    case' value v _ => cases v
    all_goals simp only [retryTask, resolveRoot, outline, renderModel, renderValue, renderServer,
      renderShared, renderString,
      renderSymbol, renderClient, promiseRow, renderPromise, renderStream, renderBinary, remember,
        ownReference, suspendTask,
      Encoder.pushModel]
    -- one step after the other, whatever was answered before
    all_goals repeat' first
      | refine H.encoder (fun _ => ?_) fun _ _ _ _ _ => rfl
      | refine H.bind ?_ fun _ => ?_
      | split
      | exact H.pure _
      | exact K.task _
      | exact K.root _ _
      | exact K.row _
      | exact K.model _ _ _ _
      | exact K.value _ _ _ _ _
      | exact K.server _ _ _
      | exact K.shared _ _ _ _ _ _
      | exact H.emitRejection _ _
      | exact H.fatalRow
      | exact H.force _ _
      | exact H.renderParts (fun _ _ => K.model _ _ _ _) _
      | exact H.store
      | exact H.modifyStore _
      | exact H.onStore _
      | exact H.modifyEncoder (.push (by decide) rfl)
      | exact H.modifyEncoder ⟨fun _ _ _ _ _ => rfl, fun _ => ⟨rfl, rfl, rfl, fun _ => .inl⟩,
        fun _ => rfl⟩
      | exact H.onEncoder ⟨fun _ _ _ _ _ => rfl, fun _ => ⟨rfl, rfl, rfl, fun _ => .inl⟩,
        fun _ => rfl⟩

theorem emitItem (H : Habit P run) (fuel : Nat) (task : Task) (item : Value) :
    P _ (emitItem run fuel task item) := by
  unfold Render.emitItem
  simp only [pure_bind]
  repeat' first
    | exact (H.renders fuel).model _ _ _ _
    | exact H.pure _
    | exact H.store
    | exact H.modifyEncoder (.push (by decide) rfl)
    | exact H.modifyEncoder ⟨fun _ _ _ _ _ => rfl, fun _ => ⟨rfl, rfl, rfl, fun _ => .inl⟩,
      fun _ => rfl⟩
    | refine H.bind ?_ fun _ => ?_
    | split

theorem writeEvents (H : Habit P run) (fuel : Nat) (task : Task) (source : CellId) :
    P _ (writeEvents run fuel task source) := by
  induction fuel with
  | zero => exact H.exhausted
  | succ fuel ih =>
    unfold Render.writeEvents
    repeat' first
      | exact H.emitItem _ _ _
      | exact H.emitRejection _ _
      | exact (H.renders fuel).row _
      | exact ih
      | exact H.onStore _
      | exact H.modifyStore _
      | exact H.modifyEncoder (.push (by decide) rfl)
      | exact H.modifyEncoder ⟨fun _ _ _ _ _ => rfl, fun _ => ⟨rfl, rfl, rfl, fun _ => .inl⟩,
        fun _ => rfl⟩
      | refine H.bind ?_ fun _ => ?_
      | split

theorem handle (H : Habit P run) (fuel : Nat) (ping : Ping) : P _ (handle run fuel ping) := by
  cases ping <;> unfold Render.handle
  all_goals repeat' first
    | refine H.bind (H.onEncoder (.takeTask _)) fun _ => ?_
    | refine H.bind (H.onEncoder (.takeStream _)) fun _ => ?_
    | refine H.bind (H.modifyEncoder ⟨fun _ _ _ _ _ => rfl, fun _ => ⟨rfl, rfl, rfl, fun _ => .inl⟩,
      fun _ => rfl⟩) fun _ => ?_
    | split
    | exact H.pure _
    | exact (H.renders fuel).task _
    | exact H.writeEvents _ _ _
    | exact H.emitRejection _ _

/-- **Acting on messages** is a matter of habit. -/
theorem handleAll (H : Habit P run) (fuel : Nat) : P _ (handleAll run fuel) := by
  induction fuel with
  | zero => exact H.exhausted
  | succ fuel ih =>
    refine H.encoder (fun e => H.bind (H.onStore _) fun ping => ?_) fun _ _ _ _ _ => rfl
    cases ping with
    | none => exact H.pure _
    | some ping => exact H.bind (H.handle fuel ping) fun _ => ih

end Habit

end EncodeM

end GraphRows
