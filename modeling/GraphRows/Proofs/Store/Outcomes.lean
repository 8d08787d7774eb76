import GraphRows.Proofs.Store.Regions

/-!
# What becomes of promises and streams

A promise that settles passes its outcome on to the promises its callbacks lead to, and to nothing
else: what was pending may have the same outcome now, and what had settled is as it was. An event
pushed to a stream is taken if the stream takes events, and no other cell changes.

## Main results

* `Store.settles_settle`, `Store.outcome?_settle`: settling a promise
* `Store.push_cells`: pushing an event
-/

namespace GraphRows

variable {c id : CellId} {p : Promise}

namespace Stream

/-- The stream takes events. -/
def isOpen (st : Stream) : Bool := !st.finished && st.cancelled.isNone

/-- The stream after it was told why nothing more will come. -/
def failed (st : Stream) (r : Rejection) : Stream :=
  { st with buffer := st.buffer ++ [.error r], finished := true, bell := none }

theorem not_isOpen_failed (st : Stream) (r : Rejection) : (st.failed r).isOpen = false := rfl

end Stream

namespace Store

variable {s s' s'' : Store} {o : Outcome}

theorem promise?_congr (h : s'.cells = s.cells) (c : CellId) : s'.promise? c = s.promise? c := by
  simp only [promise?, cell?, h]

theorem stream?_congr (h : s'.cells = s.cells) (c : CellId) : s'.stream? c = s.stream? c := by
  simp only [stream?, cell?, h]

theorem stream?_write_self (h : (s.stream? c).isSome) (st : Stream) :
    (s.write c (.stream st)).stream? c = some st := by
  obtain ⟨old, hold⟩ := Option.isSome_iff_exists.mp h
  rw [stream?, cell?_write_self s _ (cell?_lt_size (stream?_eq_some hold))]

theorem stream?_write_ne {c' : CellId} (h : c' ≠ c) (cell : Cell) :
    (s.write c' cell).stream? c = s.stream? c := by
  rw [stream?, cell?_write_ne s cell h, stream?]

theorem promise?_of_cell? (h : s.cell? c = some (.promise p)) : s.promise? c = some p := by
  simp only [promise?, h]

theorem stream?_of_cell? {st : Stream} (h : s.cell? c = some (.stream st)) :
    s.stream? c = some st := by
  simp only [stream?, h]

/-- Promises that were pending may have settled with `o`, and streams are as they were. -/
structure Settles (o : Outcome) (s s' : Store) : Prop where
  streams : ∀ c, s'.stream? c = s.stream? c
  promises : ∀ c p, s.promise? c = some p →
    ∃ p', s'.promise? c = some p' ∧ (p'.outcome = p.outcome ∨ p.outcome = none ∧
      p'.outcome = some o)

namespace Settles

theorem of_cells_eq (h : s'.cells = s.cells) : Settles o s s' :=
  ⟨stream?_congr h, fun c p hp => ⟨p, (promise?_congr h c).trans hp, .inl rfl⟩⟩

theorem refl (o : Outcome) (s : Store) : Settles o s s := of_cells_eq rfl

theorem trans (h : Settles o s s') (h' : Settles o s' s'') : Settles o s s'' := by
  refine ⟨fun c => (h'.streams c).trans (h.streams c), fun c p hp => ?_⟩
  obtain ⟨p', hp', houtcome⟩ := h.promises c p hp
  obtain ⟨p'', hp'', houtcome'⟩ := h'.promises c p' hp'
  refine ⟨p'', hp'', ?_⟩
  rcases houtcome with houtcome | ⟨hpending, houtcome⟩
  · rw [← houtcome]
    exact houtcome'
  · rcases houtcome' with houtcome' | ⟨hpending', -⟩
    · exact .inr ⟨hpending, houtcome'.trans houtcome⟩
    · rw [houtcome] at hpending'
      cases hpending'

theorem foldl {α : Type} {f : Store → α → Store} (hf : ∀ s a, Settles o s (f s a)) (as : List α)
    (s : Store) : Settles o s (as.foldl f s) := by
  induction as generalizing s with
  | nil => exact .refl o s
  | cons a as ih => exact (hf s a).trans (ih (f s a))

/-- A pending promise settles. -/
theorem write {p' : Promise} (hp : s.promise? c = some p) (hpending : p.outcome = none)
    (hp' : p'.outcome = some o) : Settles o s (s.write c (.promise p')) := by
  have hc := promise?_eq_some hp
  have hnew : (s.write c (.promise p')).cell? c = some (.promise p') :=
    cell?_write_self s _ (cell?_lt_size hc)
  refine ⟨fun c' => ?_, fun c' q hq => ?_⟩
  · by_cases h : c = c'
    · subst h
      simp only [stream?, hnew, hc]
    · simp only [stream?, cell?_write_ne s _ h]
  · by_cases h : c = c'
    · subst h
      obtain rfl := Option.some.inj (hp.symm.trans hq)
      exact ⟨p', promise?_of_cell? hnew, .inr ⟨hpending, hp'⟩⟩
    · exact ⟨q, by simpa only [promise?, cell?_write_ne s _ h] using hq, .inl rfl⟩

end Settles

theorem settles_callWith {settle : CellId → Outcome → Store → Store}
    (hsettle : ∀ id s, Settles o s (settle id o s)) (c : Callback) (s : Store) :
    Settles o s (callWith settle c o s) := by
  unfold callWith
  split
  · exact .of_cells_eq (s.post_eq _ _).1
  · exact .of_cells_eq (s.post_eq _ _).1
  · exact .of_cells_eq (s.post_eq _ _).1
  · dsimp only
    split
    · exact (show Settles o s (s.note _) from .of_cells_eq rfl).trans (hsettle _ _)
    · exact .of_cells_eq rfl

/-- What is told of a settled promise. -/
theorem settles_told (settle : CellId → Outcome → Store → Store)
    (hsettle : ∀ id s, Settles o s (settle id o s)) (callbacks : List Callback) (bells : List Nat)
    (s : Store) :
    Settles o s (bells.foldl ring (callbacks.foldl (fun s c => callWith settle c o s) s)) :=
  (Settles.foldl (fun s c => settles_callWith hsettle c s) callbacks s).trans
    (.foldl (fun s bell => (.of_cells_eq rfl : Settles o s (s.ring bell))) bells _)

/-- **Settling a promise** settles, with the same outcome, what its callbacks lead to. -/
theorem settles_settleWith (fuel : Nat) :
    ∀ (id : CellId) (s : Store), Settles o s (settleWith fuel id o s).2 := by
  induction fuel with
  | zero => exact fun _ s => .refl o s
  | succ fuel ih =>
    intro id s
    unfold settleWith
    split
    · rename_i callbacks bells hp
      exact (Settles.write hp rfl rfl).trans
        (settles_told (fun q o s => (settleWith fuel q o s).2) ih callbacks bells _)
    · exact .refl o s

theorem settles_settle (s : Store) (id : CellId) (o : Outcome) : Settles o s (s.settle id o).2 :=
  settles_settleWith _ id s

/-- The promise that is settled has the outcome, if it was pending. -/
theorem outcome?_settle (hp : s.promise? id = some p) (hpending : p.outcome = none) :
    (s.settle id o).2.outcome? id = some o := by
  obtain ⟨outcome, callbacks, bells⟩ := p
  obtain rfl : outcome = none := hpending
  have hnew : (s.write id (.promise ⟨some o, [], []⟩)).promise? id = some ⟨some o, [], []⟩ :=
    promise?_of_cell? (cell?_write_self s _ (cell?_lt_size (promise?_eq_some hp)))
  have htold : Settles o (s.write id (.promise ⟨some o, [], []⟩)) (s.settle id o).2 := by
    simp only [settle, settleWith, hp]
    exact settles_told (fun q o s' => (settleWith s.cells.size q o s').2) (settles_settleWith _)
      callbacks bells _
  obtain ⟨p', hp', houtcome | ⟨hnone, -⟩⟩ := htold.promises id _ hnew
  · rw [outcome?, hp', Option.bind_some, houtcome]
  · cases hnone

/-- An event pushed to a stream is taken if the stream takes events, and nobody else notices but its
parties. -/
theorem push_cells (s : Store) (id : CellId) (e : StreamEvent) : (s.push id e).2.cells =
    match s.stream? id with
    | some st =>
      if st.isOpen then
        (s.write id (.stream
          { st with buffer := st.buffer ++ [e], finished := e.isTerminal, bell := none })).cells
      else s.cells
    | none => s.cells := by
  unfold push
  cases hst : s.stream? id with
  | none => rfl
  | some st =>
    have hopen : (st.finished || st.cancelled.isSome) = !st.isOpen := by
      cases hfinished : st.finished <;> cases hcancelled : st.cancelled <;>
        simp [Stream.isOpen, hfinished, hcancelled]
    dsimp only
    rw [hopen]
    cases st.isOpen with
    | false => rfl
    | true =>
      cases st.subscriber with
      | none => cases st.bell <;> rfl
      | some p => cases st.bell <;> exact (post_eq _ _ _).1

theorem promise?_push (s : Store) (id : CellId) (e : StreamEvent) (c : CellId) :
    (s.push id e).2.promise? c = s.promise? c := by
  have hcells := push_cells s id e
  cases hst : s.stream? id with
  | none => exact promise?_congr (by simpa only [hst] using hcells) c
  | some st =>
    simp only [hst] at hcells
    split at hcells
    · rw [promise?_congr hcells]
      by_cases h : id = c
      · subst h
        have hc := stream?_eq_some hst
        simp only [promise?, cell?_write_self s _ (cell?_lt_size hc), hc]
      · simp only [promise?, cell?_write_ne s _ h]
    · exact promise?_congr hcells c

theorem stream?_push_ne (s : Store) (h : id ≠ c) (e : StreamEvent) :
    (s.push id e).2.stream? c = s.stream? c := by
  have hcells := push_cells s id e
  cases hst : s.stream? id with
  | none => exact stream?_congr (by simpa only [hst] using hcells) c
  | some st =>
    simp only [hst] at hcells
    split at hcells
    · rw [stream?_congr hcells]
      simp only [stream?, cell?_write_ne s _ h]
    · exact stream?_congr hcells c

/-- A stream that takes events is told why nothing more will come, and takes no more. -/
theorem stream?_push_error {st : Stream} (hst : s.stream? id = some st) (r : Rejection) :
    (s.push id (.error r)).2.stream? id = some (if st.isOpen then st.failed r else st) := by
  have hcells := push_cells s id (.error r)
  simp only [hst] at hcells
  split at hcells
  · rename_i hopen
    rw [stream?_congr hcells, if_pos hopen]
    exact stream?_of_cell? (cell?_write_self s _ (cell?_lt_size (stream?_eq_some hst)))
  · rename_i hopen
    rw [stream?_congr hcells, hst, if_neg hopen]

end Store

end GraphRows
