import GraphRows.Proofs.Decoder.Onward

/-!
# The history of watchers

A watcher is put on an entry that is open and is run when the entry has settled. The history of a
piece of work says which watchers were put on which entries and which were run, in what state of the
entry: it is worked out from the states the decoder goes through, so that nothing about the decoder
itself has to be changed to have it. Between two turns watchers are only added at the end, so what
was put on an entry is what stands behind its old watchers.

`Booked` is the account: whatever was put on an entry has run, or stands there, or was taken off and
is about to run.

## Main results

* `Booked.grow`: work that takes no watchers off
* `Booked.turns`: all turns, until nobody is left to wake for
-/

namespace GraphRows

open Decoder DecodeM

variable {x : Decoding} {i : Nat}

/-- What happens to a watcher. -/
inductive WatcherEvent where
  /-- it is put on the entry `i` -/
  | placed (i : Nat) (w : Watcher)
  /-- it is run for the entry `i`, which is in the state `state` -/
  | ran (i : Nat) (w : Watcher) (state : EntryState)

namespace WatcherEvent

/-- The watcher `w` is put on the entry `i`. -/
def isPlaced (i : Nat) (w : Watcher) : WatcherEvent → Bool
  | .placed j u => j == i && u == w
  | .ran .. => false

/-- The watcher `w` is run for the entry `i`. -/
def isRun (i : Nat) (w : Watcher) : WatcherEvent → Bool
  | .ran j u _ => j == i && u == w
  | .placed .. => false

end WatcherEvent

open WatcherEvent

/-- The watchers that were added from one decoder to another. -/
def placed (d d' : Decoder) : List WatcherEvent :=
  (List.range d'.entries.size).flatMap fun i =>
    ((d'.entry i).watchers.drop (d.entry i).watchers.length).map (.placed i)

/-- The history of a step that takes no watchers off. -/
def historyOf {α : Type} (m : DecodeM α) (x : Decoding) : List WatcherEvent :=
  placed x.decoder (m x).2.decoder

/-- The history of running watchers of the entry `i` one after the other. -/
def historyOfRuns (i : Nat) : List Watcher → Decoding → List WatcherEvent
  | [], _ => []
  | w :: rest, x =>
    .ran i w (x.decoder.entry i).state :: historyOf (runWatcher i w) x ++ historyOfRuns i rest
      (runWatcher i w x).2

/-- The history of running the watchers of the entries that have settled. -/
def historyOfTurns : Nat → Decoding → List WatcherEvent
  | 0, _ => []
  | fuel + 1, x =>
    match x.decoder.wake with
    | [] => []
    | i :: rest =>
      historyOfRuns i (x.decoder.entry i).watchers ⟨takeOff x.decoder i rest, x.store⟩ ++
        historyOfTurns fuel (turn i rest x).2

/-- The history of running all watchers. -/
def historyOfWatchers (x : Decoding) : List WatcherEvent :=
  historyOfTurns (x.decoder.entries.size + x.decoder.wake.length + 1) x

/-! ### The account -/

/-- Whatever was put on an entry has run, stands there, or is about to run; and whatever ran did so
when its entry had settled. -/
structure Booked (h : List WatcherEvent) (running : List (Nat × Watcher)) (d : Decoder) : Prop where
  counts : ∀ i w, h.countP (isPlaced i w) = h.countP (isRun i w) + (d.entry i).watchers.count w +
    running.count (i, w)
  settled : ∀ i w state, .ran i w state ∈ h → state.isTerminal

/-- What was added to an entry is what stands behind its old watchers. -/
theorem countP_isPlaced_placed (d d' : Decoder) (i : Nat) (w : Watcher) :
    (placed d d').countP (isPlaced i w) =
      ((d'.entry i).watchers.drop (d.entry i).watchers.length).count w := by
  let added : Nat → List Watcher := fun j => (d'.entry j).watchers.drop (d.entry j).watchers.length
  have here : ∀ j, ((added j).map (WatcherEvent.placed j)).countP (isPlaced i w) = if j =
      i then (added i).count w else 0 := by
    intro j
    rw [List.countP_map]
    split
    · rename_i h
      subst h
      exact List.countP_congr fun u _ => by simp [isPlaced]
    · rename_i h
      exact List.countP_eq_zero.mpr fun u _ => by simp [isPlaced, h]
  rw [placed, List.countP_flatMap]
  change ((List.range d'.entries.size).map fun j => ((added j).map (WatcherEvent.placed j)).countP
    (isPlaced i w)).sum = (added i).count w
  simp only [here]
  rcases Nat.lt_or_ge i d'.entries.size with hi | hi
  · have hsum := sum_range_changed (f := fun _ => 0)
      (g := fun j => if j = i then (added i).count w else 0) hi fun j hj => if_neg hj
    simpa using hsum
  · have hnone : added i = [] := by
      change (d'.entry i).watchers.drop _ = []
      rw [entry_of_size_le d' hi]
      exact List.drop_nil
    simp [hnone]

theorem countP_isRun_placed (d d' : Decoder) (i : Nat) (w : Watcher) :
    (placed d d').countP (isRun i w) = 0 := by
  refine List.countP_eq_zero.mpr fun event hevent => ?_
  obtain ⟨j, -, hmem⟩ := List.mem_flatMap.mp hevent
  obtain ⟨u, -, rfl⟩ := List.mem_map.mp hmem
  simp [isRun]

theorem not_ran_mem_placed {d d' : Decoder} {w : Watcher} {state : EntryState} :
    .ran i w state ∉ placed d d' := by
  intro h
  obtain ⟨j, -, hmem⟩ := List.mem_flatMap.mp h
  obtain ⟨u, -, hu⟩ := List.mem_map.mp hmem
  cases hu

/-- Watchers that only gather. -/
theorem prefix_watchers {d d' : Decoder} (h : Onward Entry.Grown d d') (i : Nat) :
    (d.entry i).watchers <+: (d'.entry i).watchers := by
  rcases Nat.lt_or_ge i d.entries.size with hi | hi
  · exact (h.entry i hi).watchers
  · rw [entry_of_size_le d hi]
    exact List.nil_prefix

namespace Booked

variable {h : List WatcherEvent} {running : List (Nat × Watcher)} {d d' : Decoder}

theorem congr (B : Booked h running d) (hentries : d'.entries = d.entries) :
    Booked h running d' := by
  refine ⟨fun i w => ?_, B.settled⟩
  rw [Decoder.entry, hentries]
  exact B.counts i w

/-- **Work that takes no watchers off** is accounted for by the watchers it adds. -/
theorem grow (B : Booked h running d) (hgrown : Onward Entry.Grown d d') :
    Booked (h ++ placed d d') running d' := by
  refine ⟨fun i w => ?_, fun i w state hmem => ?_⟩
  · obtain ⟨added, hadded⟩ := prefix_watchers hgrown i
    have hcount := B.counts i w
    rw [List.countP_append, List.countP_append, countP_isPlaced_placed, countP_isRun_placed,
      ← hadded, List.drop_left, List.count_append]
    omega
  · exact B.settled i w state ((List.mem_append.mp hmem).resolve_right not_ran_mem_placed)

/-- The watchers of a settled entry are taken off to be run. -/
theorem takeOff (B : Booked h [] d) (hi : i < d.entries.size) (rest : List Nat) :
    Booked h ((d.entry i).watchers.map (i, ·)) (takeOff d i rest) := by
  have hchanged := changed_takeOff hi rest
  refine ⟨fun j w => ?_, B.settled⟩
  have hcount := B.counts j w
  by_cases hj : j = i
  · subst hj
    have hmap : ((d.entry j).watchers.map (j, ·)).count (j, w) = (d.entry j).watchers.count w :=
      List.count_map_of_injective _ _ (Prod.mk_right_injective j) w
    rw [hchanged.self, hmap]
    simp only [List.count_nil, Nat.add_zero] at hcount ⊢
    exact hcount
  · have hmap : ((d.entry i).watchers.map (i, ·)).count (j, w) = 0 := by
      refine List.count_eq_zero.mpr fun hmem => ?_
      obtain ⟨u, -, hu⟩ := List.mem_map.mp hmem
      exact hj (Prod.mk.inj hu).1.symm
    rw [hchanged.other hj, hmap]
    exact hcount

/-- A watcher that was taken off is run. -/
theorem run {w : Watcher} (B : Booked h ((i, w) :: running) d) (hi : (d.entry i).state.isTerminal) :
    Booked (h ++ [.ran i w (d.entry i).state]) running d := by
  refine ⟨fun j u => ?_, fun j u state hmem => ?_⟩
  · have hcount := B.counts j u
    rw [List.count_cons] at hcount
    rw [List.countP_append, List.countP_append, List.countP_singleton, List.countP_singleton]
    by_cases hsame : (i, w) = (j, u)
    · cases hsame
      simp only [isPlaced, isRun, beq_self_eq_true, Bool.and_self, if_true, Bool.false_eq_true,
        if_false] at hcount ⊢
      omega
    · have hrun : isRun j u (.ran i w (d.entry i).state) = false := by simpa [isRun] using hsame
      have hpair : ((i, w) == (j, u)) = false := beq_false_of_ne hsame
      simp only [isPlaced, hrun, hpair, Bool.false_eq_true, if_false] at hcount ⊢
      omega
  · rcases List.mem_append.mp hmem with hmem | hmem
    · exact B.settled j u state hmem
    · cases List.mem_singleton.mp hmem
      exact hi

/-- **The watchers of one entry** are run. -/
theorem runs {ws : List Watcher} (B : Booked h (ws.map (i, ·)) x.decoder)
    (hi : (x.decoder.entry i).state.isTerminal) :
    Booked (h ++ historyOfRuns i ws x) [] (ws.forM (runWatcher i) x).2.decoder := by
  induction ws generalizing h x with
  | nil =>
    rw [historyOfRuns, List.append_nil]
    exact B
  | cons w rest ih =>
    have hgrown := runWatcher_onward i w x
    have hstill : ((runWatcher i w x).2.decoder.entry i).state.isTerminal := by
      rw [(hgrown.entry i (lt_size_of_isTerminal _ hi)).settled hi]
      exact hi
    have hrest := ih ((B.run hi).grow hgrown) hstill
    have hloop : (w :: rest).forM (runWatcher i) x =
      rest.forM (runWatcher i) (runWatcher i w x).2 := rfl
    rw [historyOfRuns, historyOf, hloop]
    simpa only [List.append_assoc, List.cons_append, List.nil_append] using hrest

/-- One turn. -/
theorem turn (B : Booked h [] d) {s : Store} {rest : List Nat} (hi : (d.entry i).state.isTerminal) :
    Booked (h ++ historyOfRuns i (d.entry i).watchers ⟨DecodeM.takeOff d i rest, s⟩) []
      (DecodeM.turn i rest ⟨d, s⟩).2.decoder := by
  have hsize := lt_size_of_isTerminal d hi
  refine runs (x := ⟨DecodeM.takeOff d i rest, s⟩) (B.takeOff hsize rest) ?_
  rw [(changed_takeOff hsize rest).self]
  exact hi

/-- **All turns**, from a decoder in good order. -/
theorem turns {a : Affairs} {fuel : Nat} (B : Booked h [] x.decoder) (T : Tidy a x.decoder)
    (hloose : a.loose = none) (hrunning : a.running = []) :
    Booked (h ++ historyOfTurns fuel x) [] (runWatchersWith fuel x).2.decoder := by
  induction fuel generalizing h x with
  | zero =>
    rw [historyOfTurns, List.append_nil]
    exact B
  | succ fuel ih =>
    rw [historyOfTurns]
    cases hwake : x.decoder.wake with
    | nil =>
      rw [runWatchersWith_nil hwake, List.append_nil]
      exact B
    | cons i rest =>
      rw [runWatchersWith_cons hwake, ← List.append_assoc]
      exact ih (B.turn (T.waits.wake i (hwake ▸ List.mem_cons_self)))
        (turn_ensures hloose hrunning T hwake).1

theorem watchers {a : Affairs} (B : Booked h [] x.decoder) (T : Tidy a x.decoder)
    (hloose : a.loose = none) (hrunning : a.running = []) :
    Booked (h ++ historyOfWatchers x) [] (runWatchers x).2.decoder :=
  B.turns T hloose hrunning

end Booked

end GraphRows
