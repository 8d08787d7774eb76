import GraphRows.Store.Promise
import GraphRows.Store.Stream
import GraphRows.Encoder.Render

/-!
# What leaves the sinks alone

Only a flush writes to a sink. Messages, promises, streams and new cells change other parts of the
store; each operation gets its frame lemma here, and the simplifier composes them.
-/

namespace GraphRows.Store

@[simp] theorem sinks_note (s : Store) (e : Event) : (s.note e).sinks = s.sinks := rfl

@[simp] theorem sinks_ring (s : Store) (bell : Nat) : (s.ring bell).sinks = s.sinks := rfl

@[simp] theorem sinks_make (s : Store) (c : Cell) : (s.make c).2.sinks = s.sinks := rfl

@[simp] theorem sinks_write (s : Store) (id : CellId) (c : Cell) : (s.write id c).sinks = s.sinks :=
  rfl

@[simp] theorem sinks_freeSlot (s : Store) (slot : Nat) : (s.freeSlot slot).sinks = s.sinks := rfl

theorem sinks_takeSlot {s s' : Store} {slot : Nat} (h : s.takeSlot slot = .ok s') :
    s'.sinks = s.sinks := by
  unfold takeSlot at h
  split at h
  · cases h
  · cases h
    rfl

@[simp] theorem sinks_receive (s : Store) (mailbox : Nat) :
    (s.receive mailbox).2.sinks = s.sinks := by
  unfold receive
  split <;> rfl

/-! ### What promises and streams leave alone -/

/-- A view of the store that cells, bells and messages are no part of, and that is blind to the
settling of promises. -/
structure Remote {β : Type} (view : Store → β) : Prop where
  cells : ∀ s cells, view { s with cells } = view s
  bells : ∀ s bells, view { s with bells } = view s
  mailboxes : ∀ s mailboxes, view { s with mailboxes } = view s
  settled : ∀ s label outcome, view (s.note (.settled label outcome)) = view s

namespace Remote

variable {α β : Type} {view : Store → β}

theorem ring (V : Remote view) (s : Store) (bell : Nat) : view (s.ring bell) = view s := V.bells s _

theorem post (V : Remote view) (s : Store) (mailbox : Nat) (p : Ping) :
    view (s.post mailbox p) = view s := by
  unfold Store.post
  split
  · rfl
  · dsimp only
    split
    · exact (V.bells _ _).trans (V.mailboxes s _)
    · exact V.mailboxes s _

theorem foldl {f : Store → α → Store} (h : ∀ s a, view (f s a) = view s) (as : List α) (s : Store) :
    view (as.foldl f s) = view s := by
  induction as generalizing s with
  | nil => rfl
  | cons a as ih => rw [List.foldl_cons, ih, h]

theorem callWith (V : Remote view) {settle : CellId → Outcome → Store → Store}
    (h : ∀ id o s, view (settle id o s) = view s) (c : Callback) (o : Outcome) (s : Store) :
    view (callWith settle c o s) = view s := by
  unfold Store.callWith
  split
  · exact V.post _ _ _
  · exact V.post _ _ _
  · exact V.post _ _ _
  · dsimp only
    split
    · rw [h, V.settled]
    · exact V.settled _ _ _

/-- **Settling promises leaves it alone**, whatever callbacks they have. -/
theorem settle (V : Remote view) (s : Store) (id : CellId) (o : Outcome) :
    view (s.settle id o).2 = view s := by
  have settled : ∀ fuel id o s, view (settleWith fuel id o s).2 = view s := by
    intro fuel
    induction fuel with
    | zero => exact fun _ _ _ => rfl
    | succ fuel ih =>
      intro id o s
      unfold settleWith
      split
      · dsimp only
        rw [foldl V.ring, foldl fun s c => V.callWith ih c o s]
        exact V.cells s _
      · rfl
  exact settled _ id o s

theorem andThen (V : Remote view) (s : Store) (id : CellId) (c : Callback) :
    view (s.andThen id c) = view s := by
  unfold Store.andThen
  split
  · exact V.callWith (fun id o s => V.settle s id o) _ _ _
  · exact V.cells s _
  · rfl

theorem push (V : Remote view) (s : Store) (id : CellId) (e : StreamEvent) :
    view (s.push id e).2 = view s := by
  unfold Store.push
  split
  · rfl
  · split
    · rfl
    · dsimp only
      split <;> split <;> simp only [V.ring, V.post, write, V.cells]

end Remote

theorem remote_sinks : Remote (·.sinks) :=
  ⟨fun _ _ => rfl, fun _ _ => rfl, fun _ _ => rfl, fun _ _ _ => rfl⟩

@[simp] theorem sinks_post (s : Store) (mailbox : Nat) (p : Ping) :
    (s.post mailbox p).sinks = s.sinks :=
  remote_sinks.post s mailbox p

@[simp] theorem sinks_settle (s : Store) (id : CellId) (o : Outcome) :
    (s.settle id o).2.sinks = s.sinks :=
  remote_sinks.settle s id o

@[simp] theorem sinks_andThen (s : Store) (id : CellId) (c : Callback) :
    (s.andThen id c).sinks = s.sinks :=
  remote_sinks.andThen s id c

@[simp] theorem sinks_push (s : Store) (id : CellId) (e : StreamEvent) :
    (s.push id e).2.sinks = s.sinks :=
  remote_sinks.push s id e

@[simp] theorem sinks_cancel (s : Store) (id : CellId) (reason : Rejection) :
    (s.cancel id reason).sinks = s.sinks := by
  unfold cancel
  split
  · rfl
  · split <;> rfl

@[simp] theorem sinks_next (s : Store) (id : CellId) : (s.next id).2.sinks = s.sinks := by
  unfold next
  split
  · rfl
  · split <;> rfl

theorem sinks_subscribe {s s' : Store} {id : CellId} {mailbox task : Nat}
    (h : s.subscribe id mailbox task = .ok s') : s'.sinks = s.sinks := by
  unfold subscribe at h
  split at h
  · cases h
    rfl
  · split at h
    · cases h
    · cases h
      split <;> simp

@[simp] theorem sinks_pairArrays (entries : List (Value × Value)) (s : Store) :
    (Render.pairArrays entries s).2.sinks = s.sinks := by
  induction entries generalizing s with
  | nil => rfl
  | cons entry entries ih =>
    simp only [Render.pairArrays]
    rw [ih]
    rfl

@[simp] theorem sinks_entriesArray (c : Cell) (s : Store) :
    (Render.entriesArray c s).2.sinks = s.sinks := by
  cases c <;> simp [Render.entriesArray]

end GraphRows.Store
