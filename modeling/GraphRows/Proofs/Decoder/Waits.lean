import GraphRows.Proofs.Decoder.Waiting

/-!
# Holes, watchers, and what they add up to

For every hole that counts, a watcher stands on the entry the hole waits for, or the watcher has
been taken off a settled entry and is about to run. So a draft with holes is still waited for, and
as the edges are ranked, a chain of drafts waiting for each other ends at an entry that no row has
come for.

`running` are the watchers that were taken off and have not run, each with the entry it was taken
off; `spoken` are the ids that some row refers to, and `refers` says which row refers to which.

Each lemma below is about one way a decoder changes; `Changed d d' i f` says that the entry `i`
became `f` of what it was and that nothing else about the entries and their names differs.

## Main results

* `Waits.settle`, `Waits.hole`, `Waits.watch`, `Waits.restate`, `Waits.newEntry`: the changes while
  a row is read
* `Waits.wakeUp`, `Waits.consume`, `Waits.fill`: the changes while watchers run
* `Waits.not_awaits_self`, `Waits.exists_pending`: between rows nobody waits in a circle, and
  whoever waits, waits for a row that has not come
-/

namespace GraphRows

variable {d d' : Decoder} {e : Entry} {i t : Nat} {w : Watcher}

namespace Watcher

/-- The watcher is a hole of `t` that counts. -/
def counts (t : Nat) : Watcher → Bool
  | .hole target _ _ _ false => target == t
  | _ => false

/-- The draft the watcher belongs to. -/
def target? : Watcher → Option Nat
  | .hole target .. => some target
  | .stream _ => none

end Watcher

theorem EntryState.not_isTerminal_of_isBlocked {state : EntryState} (h : state.isBlocked) :
    state.isTerminal = false := by
  cases state with
  | blocked => rfl
  | _ => cases h

theorem EntryState.not_isPending_of_isTerminal {state : EntryState} (h : state.isTerminal) :
    state.isPending = false := by
  cases state with
  | pending => cases h
  | _ => rfl

/-- An entry of which nothing is known but its handle. -/
structure Entry.IsBlank (e : Entry) : Prop where
  state : e.state = .pending
  draft : e.draft = {}
  watchers : e.watchers = []

/-- An index without an entry already looked like a blank entry. -/
theorem Entry.IsBlank.push (he : e.IsBlank) (hentries : d'.entries = d.entries.push e)
    (j : Nat) : (d'.entry j).state = (d.entry j).state ∧ (d'.entry j).draft = (d.entry j).draft ∧
      (d'.entry j).watchers = (d.entry j).watchers := by
  have hentry : d'.entry j = if j = d.entries.size then e else d.entry j := by
    rw [← Decoder.entry_push d e j]
    simp only [Decoder.entry, hentries]
  rw [hentry]
  split
  · subst j
    rw [Decoder.entry_of_size_le d (Nat.le_refl _)]
    exact ⟨he.state, he.draft, he.watchers⟩
  · exact ⟨rfl, rfl, rfl⟩

namespace Decoder

/-- How many watchers with `p` stand on entries. -/
def tally (d : Decoder) (p : Watcher → Bool) : Nat :=
  ((List.range d.entries.size).map fun i => (d.entry i).watchers.countP p).sum

/-- How many watchers stand for holes of `t` that count. -/
def outstanding (d : Decoder) (t : Nat) : Nat := d.tally (Watcher.counts t)

/-- The blocked entry `t` has a hole that counts and that waits for `i`. -/
def Awaits (d : Decoder) (t i : Nat) : Prop :=
  (d.entry t).state.isBlocked ∧ ∃ w ∈ (d.entry i).watchers, w.counts t

theorem lt_size_of_mem_watchers (hw : w ∈ (d.entry i).watchers) :
    i < d.entries.size := by
  rcases Nat.lt_or_ge i d.entries.size with hi | hi
  · exact hi
  · simp [entry_of_size_le d hi] at hw

theorem lt_size_of_awaits (h : Relation.TransGen d.Awaits t i) : i < d.entries.size := by
  cases h with
  | single h => exact lt_size_of_mem_watchers h.2.choose_spec.1
  | tail _ h => exact lt_size_of_mem_watchers h.2.choose_spec.1

/-- The entry `i` became `f` of what it was. -/
structure Changed (d d' : Decoder) (i : Nat) (f : Entry → Entry) : Prop where
  size : d'.entries.size = d.entries.size
  ids : d'.ids = d.ids
  closed : d'.closed = d.closed
  reader : d'.reader = d.reader
  entry : ∀ j, d'.entry j = if i = j then f (d.entry j) else d.entry j

theorem changed_modifyEntry (h : i < d.entries.size) (f : Entry → Entry) :
    Changed d (d.modifyEntry i f) i f :=
  ⟨size_modifyEntry d i f, rfl, rfl, rfl, fun j => by simp [entry_modifyEntry, h]⟩

namespace Changed

variable {d d' d'' : Decoder} {i : Nat} {f g : Entry → Entry}

theorem self (h : Changed d d' i f) : d'.entry i = f (d.entry i) := by rw [h.entry, if_pos rfl]

theorem other (h : Changed d d' i f) {j : Nat} (hj : j ≠ i) : d'.entry j = d.entry j := by
  rw [h.entry, if_neg (Ne.symm hj)]

theorem trans (h : Changed d d' i f) (h' : Changed d' d'' i g) : Changed d d'' i (g ∘ f) := by
  refine ⟨h'.size.trans h.size, h'.ids.trans h.ids, h'.closed.trans h.closed,
    h'.reader.trans h.reader, fun j => ?_⟩
  rw [h'.entry, h.entry]
  split <;> rfl

/-- A property of entries that `f` keeps. -/
theorem field {α : Type} (h : Changed d d' i f) (p : Entry → α)
    (hf : p (f (d.entry i)) = p (d.entry i)) (j : Nat) : p (d'.entry j) = p (d.entry j) := by
  by_cases hj : j = i
  · subst hj
    rw [h.self, hf]
  · rw [h.other hj]

theorem not_isPending (h : Changed d d' i f)
    (hf : (d.entry i).state.isPending = false → (f (d.entry i)).state.isPending = false) (j : Nat)
    (hj : (d.entry j).state.isPending = false) : (d'.entry j).state.isPending = false := by
  by_cases hi : j = i
  · subst hi
    rw [h.self]
    exact hf hj
  · rwa [h.other hi]

end Changed

theorem tally_congr (hsize : d'.entries.size = d.entries.size)
    (h : ∀ i, (d'.entry i).watchers = (d.entry i).watchers) (p : Watcher → Bool) :
    d'.tally p = d.tally p := by
  simp only [tally, hsize, h]

theorem outstanding_congr (hsize : d'.entries.size = d.entries.size)
    (h : ∀ i, (d'.entry i).watchers = (d.entry i).watchers) (t : Nat) :
    d'.outstanding t = d.outstanding t :=
  tally_congr hsize h _

/-- A blank entry has no watchers. -/
theorem tally_push (he : e.IsBlank) (hentries : d'.entries = d.entries.push e)
    (p : Watcher → Bool) : d'.tally p = d.tally p := by
  have watchers := fun j => (he.push hentries j).2.2
  have size : d'.entries.size = d.entries.size + 1 := by rw [hentries, Array.size_push]
  simp only [tally, size, List.range_succ, List.map_append, List.sum_append, watchers,
    List.map_cons, List.map_nil,
    List.sum_cons, List.sum_nil, entry_of_size_le d (Nat.le_refl _), List.countP_nil, Nat.add_zero]

/-- Changing one term changes a sum by as much. -/
theorem sum_range_changed {f g : Nat → Nat} {n : Nat} (hi : i < n) (h : ∀ j, j ≠ i → g j = f j) :
    ((List.range n).map g).sum + f i = ((List.range n).map f).sum + g i := by
  induction n with
  | zero => omega
  | succ n ih =>
    simp only [List.range_succ, List.map_append, List.sum_append, List.map_cons, List.map_nil,
      List.sum_cons, List.sum_nil]
    by_cases hn : i = n
    · subst hn
      have : (List.range i).map g = (List.range i).map f :=
        List.map_congr_left fun j hj => h j (Nat.ne_of_lt (List.mem_range.mp hj))
      rw [this]
      omega
    · have := ih (by omega)
      have := h n (Ne.symm hn)
      omega

theorem tally_changed {f : Entry → Entry} (h : Changed d d' i f) (hi : i < d.entries.size)
    (p : Watcher → Bool) :
    d'.tally p + (d.entry i).watchers.countP p = d.tally p + (f (d.entry i)).watchers.countP p := by
  have := sum_range_changed (f := fun j => (d.entry j).watchers.countP p)
    (g := fun j => (d'.entry j).watchers.countP p) hi fun j hj => by rw [h.other hj]
  rw [tally, tally, h.size]
  simpa only [h.self] using this

theorem outstanding_changed {f : Entry → Entry} (h : Changed d d' i f) (hi : i < d.entries.size)
    (t : Nat) : d'.outstanding t + (d.entry i).watchers.countP (Watcher.counts t) =
      d.outstanding t + (f (d.entry i)).watchers.countP (Watcher.counts t) := tally_changed h hi _

/-- One that stands is counted. -/
theorem tally_pos {p : Watcher → Bool} (hw : w ∈ (d.entry i).watchers) (hp : p w) :
    0 < d.tally p := by
  refine List.sum_pos_iff_exists_pos_nat.mpr ⟨_, List.mem_map_of_mem
    (List.mem_range.mpr (lt_size_of_mem_watchers hw)), ?_⟩
  exact List.countP_pos_iff.mpr ⟨w, hw, hp⟩

end Decoder

open Decoder

/-- The holes and the watchers of a decoder agree. -/
structure Waits (spoken : Nat → Prop) (refers : Nat → Nat → Prop) (running : List (Nat × Watcher))
    (d : Decoder) : Prop where
  wake : ∀ i ∈ d.wake, (d.entry i).state.isTerminal
  settled : ∀ i, (d.entry i).state.isTerminal → i ∉ d.wake → (d.entry i).watchers = []
  targets : ∀ i, ∀ w ∈ (d.entry i).watchers, ∀ t, w.target? = some t →
    (d.entry t).state.isPending = false
  taken : ∀ p ∈ running, (d.entry p.1).state.isTerminal ∧ ∀ t, p.2.target? = some t →
    (d.entry t).state.isPending = false
  holes : ∀ t, (d.entry t).state.isTerminal = false →
    (d.entry t).draft.holes = d.outstanding t + running.countP (Watcher.counts t ·.2)
  blocked : ∀ t, (d.entry t).state.isBlocked → 0 < (d.entry t).draft.holes
  failed : ∀ t, (d.entry t).draft.failed → (d.entry t).state.isTerminal
  edges : ∀ i t, (∃ w ∈ (d.entry i).watchers, w.counts t) → i ∈ (d.entry t).draft.waitingOn
  sought : ∀ i t, (∃ w ∈ (d.entry i).watchers, w.counts t) → ∃ id, d.ids.lookup id = some i ∧
    spoken id
  links : ∀ k t, d.ids.lookup k = some t → ∀ i ∈ (d.entry t).draft.waitingOn, ∃ n, d.ids.lookup n =
    some i ∧ refers k n
  blank : ∀ i, (d.entry i).state.isPending → (d.entry i).draft.waitingOn = []
  ranked : d.Ranked

namespace Waits

variable {spoken : Nat → Prop} {refers : Nat → Nat → Prop} {running : List (Nat × Watcher)}
  {d d' : Decoder} {i : Nat} {f : Entry → Entry}

/-- A decoder that differs in nothing the watchers look at. -/
theorem congr (W : Waits spoken refers running d) (hentries : d'.entries = d.entries)
    (hids : d'.ids = d.ids) (hwake : d'.wake = d.wake) : Waits spoken refers running d' := by
  have hentry : ∀ i, d'.entry i = d.entry i := fun i => by rw [entry, entry, hentries]
  have hout : ∀ t, d'.outstanding t = d.outstanding t := outstanding_congr (by rw [hentries])
    fun i => by rw [hentry]
  obtain ⟨h₁, h₂, h₃, h₄, h₅, h₆, h₇, h₈, h₉, h₁₀, h₁₁, h₁₂⟩ := W
  constructor
  case ranked => exact h₁₂.mono fun t i h => by simpa only [WaitsFor, hentry] using h
  all_goals simpa only [hentry, hout, hwake, hentries, hids]

theorem taken_lt (W : Waits spoken refers running d) {p : Nat × Watcher} (hp : p ∈ running)
    {t : Nat} (ht : p.2.target? = some t) : t < d.entries.size :=
  lt_size_of_not_isPending d ((W.taken p hp).2 t ht)

/-- More ids are referred to. -/
theorem regard (W : Waits spoken refers running d) {spoken' : Nat → Prop}
    (h : ∀ id, spoken id → spoken' id) : Waits spoken' refers running d :=
  { W with
    sought := fun i t hw => by
      obtain ⟨id, hid, hspoken⟩ := W.sought i t hw
      exact ⟨id, hid, h id hspoken⟩ }

/-! ### While a row is read -/

/-- An entry changes in ways the watchers do not look at: its value, or from one open state to
another. -/
theorem restate (W : Waits spoken refers running d) (h : Changed d d' i f)
    (hwake : d'.wake = d.wake) (hwatchers : (f (d.entry i)).watchers = (d.entry i).watchers)
    (hdraft : (f (d.entry i)).draft.holes = (d.entry i).draft.holes ∧
      (f (d.entry i)).draft.waitingOn = (d.entry i).draft.waitingOn)
    (hfailed : (f (d.entry i)).draft.failed → (d.entry i).draft.failed ∨
      (d.entry i).state.isTerminal)
    (hterminal : (f (d.entry i)).state.isTerminal = (d.entry i).state.isTerminal)
    (hpending : (f (d.entry i)).state.isPending → (d.entry i).state.isPending)
    (hblocked : (f (d.entry i)).state.isBlocked → 0 < (d.entry i).draft.holes) :
    Waits spoken refers running d' := by
  have watchers := h.field (·.watchers) hwatchers
  have holes := h.field (·.draft.holes) hdraft.1
  have waitingOn := h.field (·.draft.waitingOn) hdraft.2
  have terminal := h.field (·.state.isTerminal) hterminal
  have leaves := h.not_isPending fun hi => Bool.eq_false_iff.mpr fun h =>
    Bool.eq_false_iff.mp hi (hpending h)
  obtain ⟨h₁, h₂, h₃, h₄, h₅, h₆, h₇, h₈, h₉, h₁₀, h₁₁, h₁₂⟩ := W
  constructor
  case targets => exact fun j w hw t ht => leaves t (h₃ j w (watchers j ▸ hw) t ht)
  case taken =>
    exact fun p hp => ⟨terminal p.1 ▸ (h₄ p hp).1, fun t ht => leaves t ((h₄ p hp).2 t ht)⟩
  case blocked =>
    intro t ht
    rw [holes]
    by_cases hi : t = i
    · subst hi
      exact hblocked (h.self ▸ ht)
    · exact h₆ t (h.other hi ▸ ht)
  case blank =>
    intro t ht
    rw [waitingOn]
    by_cases hi : t = i
    · subst hi
      exact h₁₁ t (hpending (h.self ▸ ht))
    · exact h₁₁ t (h.other hi ▸ ht)
  case failed =>
    intro t ht
    rw [terminal]
    by_cases hi : t = i
    · subst hi
      exact (hfailed (h.self ▸ ht)).elim (h₇ t) fun h => h
    · exact h₇ t (h.other hi ▸ ht)
  case ranked => exact h₁₂.mono fun t i h => by simpa only [WaitsFor, terminal, waitingOn] using h
  all_goals simpa only [watchers, holes, waitingOn, terminal, hwake, h.size, h.ids,
    outstanding_congr h.size watchers]

/-- **An entry settles**, for better or worse, and is to be woken for. -/
theorem settle (W : Waits spoken refers running d) (h : Changed d d' i f)
    (hwake : d'.wake = d.wake ++ [i]) (hwatchers : (f (d.entry i)).watchers = (d.entry i).watchers)
    (hwaiting : (f (d.entry i)).draft.waitingOn = (d.entry i).draft.waitingOn)
    (hterminal : (f (d.entry i)).state.isTerminal) : Waits spoken refers running d' := by
  have watchers := h.field (·.watchers) hwatchers
  have waitingOn := h.field (·.draft.waitingOn) hwaiting
  have here : (d'.entry i).state.isTerminal := by rw [h.self, hterminal]
  have stays : ∀ j, (d.entry j).state.isTerminal → (d'.entry j).state.isTerminal := by
    intro j hj
    by_cases hi : j = i
    · exact hi ▸ here
    · rwa [h.other hi]
  have leaves := h.not_isPending fun _ => EntryState.not_isPending_of_isTerminal hterminal
  have away : ∀ j, (d'.entry j).state.isTerminal = false → j ≠ i := by
    rintro j hj rfl
    simp [here] at hj
  constructor
  case wake =>
    intro j hj
    rw [hwake] at hj
    rcases List.mem_append.mp hj with hj | hj
    · exact stays j (W.wake j hj)
    · exact List.mem_singleton.mp hj ▸ here
  case settled =>
    intro j hj hnot
    simp only [hwake, List.mem_append, List.mem_singleton, not_or] at hnot
    rw [watchers]
    exact W.settled j (h.other hnot.2 ▸ hj) hnot.1
  case targets => exact fun j w hw t ht => leaves t (W.targets j w (watchers j ▸ hw) t ht)
  case taken =>
    exact fun p hp => ⟨stays _ (W.taken p hp).1, fun t ht => leaves t ((W.taken p hp).2 t ht)⟩
  case holes =>
    intro t ht
    rw [outstanding_congr h.size watchers, h.other (away t ht)]
    exact W.holes t (h.other (away t ht) ▸ ht)
  case blocked =>
    intro t ht
    have : t ≠ i := by
      rintro rfl
      cases hs : (d'.entry t).state <;> simp [hs, EntryState.isBlocked,
        EntryState.isTerminal] at here ht
    rw [h.other this]
    exact W.blocked t (h.other this ▸ ht)
  case failed =>
    intro t ht
    by_cases hi : t = i
    · exact hi ▸ here
    · exact stays t (W.failed t (h.other hi ▸ ht))
  case edges => simpa only [watchers, waitingOn] using W.edges
  case sought => simpa only [watchers, h.ids] using W.sought
  case links => simpa only [waitingOn, h.ids] using W.links
  case blank =>
    intro t ht
    have : t ≠ i := by
      rintro rfl
      cases hs : (d'.entry t).state <;> simp [hs, EntryState.isPending,
        EntryState.isTerminal] at here ht
    rw [h.other this]
    exact W.blank t (h.other this ▸ ht)
  case ranked =>
    refine W.ranked.mono fun t j hedge => ?_
    obtain ⟨ht, hj, hmem⟩ := hedge
    refine ⟨?_, ?_, by rwa [waitingOn] at hmem⟩
    · rwa [h.other (away t ht)] at ht
    · rwa [h.other (away j hj)] at hj

/-- A watcher that counts for nothing is put on an open entry. -/
theorem watch (W : Waits spoken refers running d) (hi : i < d.entries.size)
    (hopen : (d.entry i).state.isTerminal = false) (hcounts : ∀ t, w.counts t = false)
    (htarget : ∀ t, w.target? = some t → (d.entry t).state.isPending = false)
    (h : Changed d d' i fun e => { e with watchers := e.watchers ++ [w] })
    (hwake : d'.wake = d.wake) : Waits spoken refers running d' := by
  have draft := h.field (·.draft) rfl
  have state := h.field (·.state) rfl
  have watchers : ∀ j, ∀ w' ∈ (d'.entry j).watchers, w' ∈ (d.entry j).watchers ∨ w' = w := by
    intro j w' hw'
    rw [h.entry] at hw'
    split at hw'
    · simpa using hw'
    · exact .inl hw'
  constructor
  case settled =>
    intro j hj hnot
    have : j ≠ i := by
      rintro rfl
      simp [state, hopen] at hj
    rw [h.other this]
    exact W.settled j (state j ▸ hj) (hwake ▸ hnot)
  case targets =>
    intro j w' hw' t ht
    rw [state]
    rcases watchers j w' hw' with hw' | rfl
    · exact W.targets j w' hw' t ht
    · exact htarget t ht
  case holes =>
    intro t ht
    rw [state] at ht
    have hsum := outstanding_changed h hi t
    have hle := W.holes t ht
    simp only [List.countP_append, List.countP_cons, List.countP_nil, hcounts, Bool.false_eq_true,
      if_false] at hsum
    rw [draft]
    omega
  case edges =>
    rintro j t ⟨w', hw', hcount⟩
    rw [draft]
    rcases watchers j w' hw' with hw' | rfl
    · exact W.edges j t ⟨w', hw', hcount⟩
    · simp [hcounts] at hcount
  case sought =>
    rintro j t ⟨w', hw', hcount⟩
    rw [h.ids]
    rcases watchers j w' hw' with hw' | rfl
    · exact W.sought j t ⟨w', hw', hcount⟩
    · simp [hcounts] at hcount
  case ranked =>
    exact W.ranked.mono fun t j hedge => by simpa only [WaitsFor, state, draft] using hedge
  case wake => simpa only [state, hwake] using W.wake
  case taken => simpa only [state] using W.taken
  case blocked => simpa only [state, draft] using W.blocked
  case failed => simpa only [state, draft] using W.failed
  case links => simpa only [draft, h.ids] using W.links
  case blank => simpa only [state, draft] using W.blank

/-- **A hole that counts is left**: the draft counts it and a watcher stands for it, across a
barrier. -/
theorem hole (W : Waits spoken refers running d) {target index : Nat} {dm : Decoder}
    {S : Nat → Prop} (hS : Barrier d target S) (hindex : S index) (hi : index < d.entries.size)
    (hspoken : ∃ id, d.ids.lookup id = some index ∧ spoken id ∧ ∀ k, d.ids.lookup k =
      some target → refers k id)
    (hopen : (d.entry index).state.isTerminal = false)
    (hdraft : (d.entry target).state.isPending = false) (hcounts : ∀ t, w.counts t = (target == t))
    (htarget : ∀ t, w.target? = some t → t = target)
    (h : Changed d dm target
      fun e =>
      { e with draft := { e.draft with
          holes := e.draft.holes + 1
          waitingOn := e.draft.waitingOn ++ [index] } })
    (h' : Changed dm d' index fun e => { e with watchers := e.watchers ++ [w] })
    (hwake : d'.wake = d.wake) : Waits spoken refers running d' := by
  have hne : index ≠ target := by
    rintro rfl
    exact hS.outside hindex
  have state : ∀ j, (d'.entry j).state = (d.entry j).state :=
    fun j => (h'.field (·.state) rfl j).trans (h.field (·.state) rfl j)
  have failed : ∀ j, (d'.entry j).draft.failed = (d.entry j).draft.failed :=
    fun j => (h'.field (·.draft.failed) rfl j).trans (h.field (·.draft.failed) rfl j)
  have watchers : ∀ j, ∀ w' ∈ (d'.entry j).watchers, w' ∈ (d.entry j).watchers ∨
      w' = w ∧ j = index := by
    intro j w' hw'
    have hm := h.field (·.watchers) rfl j
    by_cases hj : j = index
    · subst hj
      rw [h'.self] at hw'
      rcases List.mem_append.mp hw' with hw' | hw'
      · exact .inl (hm ▸ hw')
      · exact .inr ⟨List.mem_singleton.mp hw', rfl⟩
    · rw [h'.other hj] at hw'
      exact .inl (hm ▸ hw')
  have waitingOn : ∀ j t, t ∈ (d'.entry j).draft.waitingOn ↔ t ∈ (d.entry j).draft.waitingOn ∨
      j = target ∧ t = index := by
    intro j t
    rw [h'.field (·.draft.waitingOn) rfl j]
    by_cases hj : j = target
    · subst hj
      rw [h.self]
      simp
    · rw [h.other hj]
      simp [hj]
  have holes : ∀ j, (d'.entry j).draft.holes = (d.entry j).draft.holes + if target =
      j then 1 else 0 := by
    intro j
    rw [h'.field (·.draft.holes) rfl j, h.entry]
    split <;> rfl
  have outstanding : ∀ t, d'.outstanding t = d.outstanding t + if target = t then 1 else 0 := by
    intro t
    have hsum := outstanding_changed h' (h.size ▸ hi) t
    have hmid : dm.outstanding t = d.outstanding t := outstanding_congr h.size
      (h.field (·.watchers) rfl) t
    simp only [List.countP_append, List.countP_cons, List.countP_nil, hcounts, beq_iff_eq] at hsum
    omega
  constructor
  case settled =>
    intro j hj hnot
    rw [state] at hj
    have hj' : j ≠ index := by
      rintro rfl
      simp [hopen] at hj
    rw [h'.other hj', h.field (·.watchers) rfl]
    exact W.settled j hj (hwake ▸ hnot)
  case targets =>
    intro j w' hw' t hw
    rw [state]
    rcases watchers j w' hw' with hw' | ⟨rfl, -⟩
    · exact W.targets j w' hw' t hw
    · exact htarget t hw ▸ hdraft
  case holes =>
    intro t hterm
    have := W.holes t (state t ▸ hterm)
    rw [holes, outstanding]
    omega
  case blocked =>
    intro t hb
    have := W.blocked t (state t ▸ hb)
    rw [holes]
    omega
  case edges =>
    rintro j t ⟨w', hw', hcount⟩
    rw [waitingOn]
    rcases watchers j w' hw' with hw' | ⟨rfl, rfl⟩
    · exact .inl (W.edges j t ⟨w', hw', hcount⟩)
    · rw [hcounts, beq_iff_eq] at hcount
      exact .inr ⟨hcount.symm, rfl⟩
  case sought =>
    rintro j t ⟨w', hw', hcount⟩
    rw [h'.ids, h.ids]
    rcases watchers j w' hw' with hw' | ⟨-, rfl⟩
    · exact W.sought j t ⟨w', hw', hcount⟩
    · exact hspoken.imp fun _ h => ⟨h.1, h.2.1⟩
  case links =>
    intro k t hk j hj
    rw [h'.ids, h.ids] at hk ⊢
    rcases (waitingOn t j).mp hj with hj | ⟨rfl, rfl⟩
    · exact W.links k t hk j hj
    · exact hspoken.imp fun _ h => ⟨h.1, h.2.2 k hk⟩
  case blank =>
    intro j hj
    rw [state] at hj
    have hj' : j ≠ target := by
      rintro rfl
      simp [hdraft] at hj
    rw [h'.field (·.draft.waitingOn) rfl j, h.other hj']
    exact W.blank j hj
  case ranked =>
    refine W.ranked.insert hS hindex fun t j hedge => ?_
    obtain ⟨hterm, hterm', hmem⟩ := hedge
    rw [state] at hterm hterm'
    exact ((waitingOn t j).mp hmem).imp_left fun hmem => ⟨hterm, hterm', hmem⟩
  case wake => simpa only [state, hwake] using W.wake
  case taken => simpa only [state] using W.taken
  case failed => simpa only [state, failed] using W.failed

/-- A new entry that no row has come for. -/
theorem newEntry (W : Waits spoken refers running d) (he : e.IsBlank)
    (hentries : d'.entries = d.entries.push e)
    (hids : ∀ id i, d.ids.lookup id = some i → d'.ids.lookup id = some i)
    (hnames : ∀ id i, d'.ids.lookup id = some i → d.ids.lookup id = some i ∨ i = d.entries.size)
    (hwake : d'.wake = d.wake) : Waits spoken refers running d' := by
  have state := fun j => (he.push hentries j).1
  have draft := fun j => (he.push hentries j).2.1
  have watchers := fun j => (he.push hentries j).2.2
  have outstanding : ∀ t, d'.outstanding t = d.outstanding t := fun t => tally_push he hentries _
  constructor
  case targets => simpa only [state, watchers] using W.targets
  case taken => simpa only [state] using W.taken
  case ranked =>
    exact W.ranked.mono fun t j hedge => by simpa only [WaitsFor, state, draft] using hedge
  case wake => simpa only [state, hwake] using W.wake
  case settled => simpa only [state, watchers, hwake] using W.settled
  case holes => simpa only [state, draft, outstanding] using W.holes
  case blocked => simpa only [state, draft] using W.blocked
  case failed => simpa only [state, draft] using W.failed
  case edges => simpa only [watchers, draft] using W.edges
  case sought =>
    intro j t hw
    obtain ⟨id, hid, hspoken⟩ := W.sought j t (by simpa only [watchers] using hw)
    exact ⟨id, hids id j hid, hspoken⟩
  case links =>
    intro k t hk j hj
    rw [draft] at hj
    rcases hnames k t hk with hk | rfl
    · exact (W.links k t hk j hj).imp fun n h => ⟨hids n j h.1, h.2⟩
    · simp [entry_of_size_le d (Nat.le_refl _)] at hj
  case blank => simpa only [state, draft] using W.blank

/-! ### While watchers run -/

/-- The watchers of a settled entry are taken off to be run. -/
theorem wakeUp (W : Waits spoken refers [] d) {rest : List Nat} (hnext : d.wake = i :: rest)
    (h : Changed d d' i fun e => { e with watchers := [] }) (hwake : d'.wake = rest) :
    Waits spoken refers ((d.entry i).watchers.map (i, ·)) d' := by
  have hterminal : (d.entry i).state.isTerminal := W.wake i (hnext ▸ List.mem_cons_self)
  have hi := lt_size_of_isTerminal d hterminal
  have state := h.field (·.state) rfl
  have draft := h.field (·.draft) rfl
  have watchers : ∀ j, ∀ w ∈ (d'.entry j).watchers, w ∈ (d.entry j).watchers := by
    intro j w hw
    rw [h.entry] at hw
    split at hw
    · cases hw
    · exact hw
  constructor
  case wake =>
    intro j hj
    rw [state]
    exact W.wake j (hnext ▸ List.mem_cons_of_mem _ (hwake ▸ hj))
  case settled =>
    intro j hj hnot
    by_cases hji : j = i
    · subst hji
      rw [h.self]
    · rw [h.other hji]
      refine W.settled j (state j ▸ hj) ?_
      rw [hnext, List.mem_cons, not_or]
      exact ⟨hji, hwake ▸ hnot⟩
  case targets => exact fun j w hw t ht => state t ▸ W.targets j w (watchers j w hw) t ht
  case taken =>
    intro p hp
    obtain ⟨w, hw, rfl⟩ := List.mem_map.mp hp
    exact ⟨state i ▸ hterminal, fun t ht => state t ▸ W.targets i w hw t ht⟩
  case holes =>
    intro t ht
    rw [state] at ht
    have hsum := outstanding_changed h hi t
    have hle := W.holes t ht
    simp only [List.countP_nil] at hsum hle
    rw [draft, List.countP_map]
    change _ = _ + (d.entry i).watchers.countP (Watcher.counts t)
    omega
  case edges =>
    rintro j t ⟨w, hw, hcount⟩
    rw [draft]
    exact W.edges j t ⟨w, watchers j w hw, hcount⟩
  case sought =>
    rintro j t ⟨w, hw, hcount⟩
    rw [h.ids]
    exact W.sought j t ⟨w, watchers j w hw, hcount⟩
  case ranked =>
    exact W.ranked.mono fun t j hedge => by simpa only [WaitsFor, state, draft] using hedge
  case blocked => simpa only [state, draft] using W.blocked
  case failed => simpa only [state, draft] using W.failed
  case links => simpa only [draft, h.ids] using W.links
  case blank => simpa only [state, draft] using W.blank

/-- A watcher is done with when it counted for no open draft. -/
theorem consume {p : Nat × Watcher} (W : Waits spoken refers (p :: running) d)
    (hp : ∀ t, (d.entry t).state.isTerminal = false → p.2.counts t = false) :
    Waits spoken refers running d := by
  refine { W with
    taken := fun q hq => W.taken q (List.mem_cons_of_mem _ hq)
    holes := fun t ht => ?_ }
  have := W.holes t ht
  rwa [List.countP_cons, hp t ht] at this

/-- **A hole is filled**: it counts no more. -/
theorem fill {p : Nat × Watcher} {target : Nat} (W : Waits spoken refers (p :: running) d)
    (hp : ∀ t, p.2.counts t = (target == t))
    (h : Changed d d' target
      fun e => { e with draft := { e.draft with holes := e.draft.holes - 1 } })
    (hwake : d'.wake = d.wake)
    (hblocked : (d.entry target).state.isBlocked → 1 < (d.entry target).draft.holes) :
    Waits spoken refers running d' := by
  have state := h.field (·.state) rfl
  have watchers := h.field (·.watchers) rfl
  have waitingOn := h.field (·.draft.waitingOn) rfl
  have failed := h.field (·.draft.failed) rfl
  have holes : ∀ j, (d'.entry j).draft.holes = (d.entry j).draft.holes - if target =
      j then 1 else 0 := by
    intro j
    rw [h.entry]
    split <;> rfl
  constructor
  case taken => simpa only [state] using fun q hq => W.taken q (List.mem_cons_of_mem _ hq)
  case holes =>
    intro t ht
    have := W.holes t (state t ▸ ht)
    rw [List.countP_cons, hp] at this
    rw [holes, outstanding_congr h.size watchers]
    simp only [beq_iff_eq] at this
    omega
  case blocked =>
    intro t ht
    rw [state] at ht
    have := W.blocked t ht
    rw [holes]
    split
    · subst t
      have := hblocked ht
      omega
    · exact this
  case ranked =>
    exact W.ranked.mono fun t j hedge => by simpa only [WaitsFor, state, waitingOn] using hedge
  case wake => simpa only [state, hwake] using W.wake
  case settled => simpa only [state, watchers, hwake] using W.settled
  case targets => simpa only [watchers, state] using W.targets
  case failed => simpa only [state, failed] using W.failed
  case edges => simpa only [watchers, waitingOn] using W.edges
  case sought => simpa only [watchers, h.ids] using W.sought
  case links => simpa only [waitingOn, h.ids] using W.links
  case blank => simpa only [state, waitingOn] using W.blank

/-! ### Between rows -/

/-- Nothing waits where nobody is left to wake for, unless it is for an open entry. -/
theorem not_isTerminal_of_mem_watchers (W : Waits spoken refers [] d) (hwake : d.wake = [])
    (hw : w ∈ (d.entry i).watchers) : (d.entry i).state.isTerminal = false := by
  cases hterm : (d.entry i).state.isTerminal with
  | true => simp [W.settled i hterm (by simp [hwake])] at hw
  | false => rfl

theorem waitsFor_of_awaits (W : Waits spoken refers [] d) (hwake : d.wake = []) (h : d.Awaits t i) :
    d.WaitsFor t i := by
  obtain ⟨hblocked, w, hw, hcounts⟩ := h
  exact ⟨EntryState.not_isTerminal_of_isBlocked hblocked, W.not_isTerminal_of_mem_watchers hwake hw,
    W.edges i t ⟨w, hw, hcounts⟩⟩

/-- **Nobody waits in a circle.** -/
theorem not_awaits_self (W : Waits spoken refers [] d) (hwake : d.wake = []) (t : Nat) :
    ¬ Relation.TransGen d.Awaits t t := by
  obtain ⟨rank, hrank⟩ := W.ranked
  have falls : ∀ {t i}, Relation.TransGen d.Awaits t i → rank i < rank t := by
    intro t i h
    induction h with
    | single h => exact hrank _ _ (W.waitsFor_of_awaits hwake h)
    | tail _ h ih => exact Nat.lt_trans (hrank _ _ (W.waitsFor_of_awaits hwake h)) ih
  exact fun h => Nat.lt_irrefl _ (falls h)

/-- A blocked entry awaits another. -/
theorem exists_awaits (W : Waits spoken refers [] d) (hblocked : (d.entry t).state.isBlocked) :
    ∃ i, d.Awaits t i := by
  have hpos : 0 < d.outstanding t := by
    have hholes := W.holes t (EntryState.not_isTerminal_of_isBlocked hblocked)
    have := W.blocked t hblocked
    simp only [List.countP_nil, Nat.add_zero] at hholes
    omega
  obtain ⟨_, hmem, hcount⟩ := List.sum_pos_iff_exists_pos_nat.mp hpos
  obtain ⟨i, -, rfl⟩ := List.mem_map.mp hmem
  obtain ⟨w, hw, hcounts⟩ := List.countP_pos_iff.mp hcount
  exact ⟨i, hblocked, w, hw, hcounts⟩

/-- **Whoever waits, waits for a row that has not come**, be it over any number of others. -/
theorem exists_pending (W : Waits spoken refers [] d) (hwake : d.wake = [])
    (hreviving : ∀ i, (d.entry i).state ≠ .reviving) (hblocked : (d.entry t).state.isBlocked) :
    ∃ i, Relation.TransGen d.Awaits t i ∧ (d.entry i).state.isPending := by
  obtain ⟨rank, hrank⟩ := W.ranked
  -- an entry waits for one of lower rank only, so the chain comes to an end
  induction hn : rank t using Nat.strongRecOn generalizing t with
  | ind n ih =>
    obtain ⟨i, hi⟩ := W.exists_awaits hblocked
    have hwaits := W.waitsFor_of_awaits hwake hi
    cases hstate : (d.entry i).state with
    | pending => exact ⟨i, .single hi, by rw [hstate]; rfl⟩
    | reviving => exact absurd hstate (hreviving i)
    | blocked =>
      obtain ⟨p, hp, hpending⟩ := ih (rank i) (hn ▸ hrank t i hwaits) (by rw [hstate]; rfl) rfl
      exact ⟨p, .head hi hp, hpending⟩
    | _ => exact absurd hwaits.2.1 (by simp [hstate, EntryState.isTerminal])

/-- A row that is waited for is one that some row refers to. -/
theorem spoken_of_awaits (W : Waits spoken refers [] d) (h : Relation.TransGen d.Awaits t i) :
    ∃ id, d.ids.lookup id = some i ∧ spoken id := by
  cases h with
  | single h => exact W.sought i _ h.2
  | tail _ h => exact W.sought i _ h.2

/-- **Edges are references**: where edges lead from one row to another, so do references. -/
theorem refers_of_edges (W : Waits spoken refers running d) {k : Nat} (hk : d.ids.lookup k = some i)
    (h : Relation.TransGen d.Edge i t) :
    ∃ n, d.ids.lookup n = some t ∧ Relation.TransGen refers k n := by
  induction h with
  | single h =>
    obtain ⟨n, hn, hrefers⟩ := W.links k i hk _ h
    exact ⟨n, hn, .single hrefers⟩
  | tail _ h ih =>
    obtain ⟨m, hm, hpath⟩ := ih
    obtain ⟨n, hn, hrefers⟩ := W.links m _ hm _ h
    exact ⟨n, hn, .tail hpath hrefers⟩

/-- When nothing is pending or being read, and every watcher has run, all entries are settled. -/
theorem isTerminal_of_not_isPending (W : Waits spoken refers [] d) (hwake : d.wake = [])
    (hpending : ∀ i < d.entries.size, (d.entry i).state.isPending = false)
    (hreviving : ∀ i, (d.entry i).state ≠ .reviving) :
    ∀ i < d.entries.size, (d.entry i).state.isTerminal := by
  intro i hi
  cases hstate : (d.entry i).state with
  | pending => exact absurd (hpending i hi) (by rw [hstate]; simp [EntryState.isPending])
  | reviving => exact absurd hstate (hreviving i)
  | blocked =>
    obtain ⟨p, hp, hopen⟩ := W.exists_pending hwake hreviving (t := i) (by rw [hstate]; rfl)
    rw [hpending p (lt_size_of_awaits hp)] at hopen
    cases hopen
  | fulfilled v => rfl
  | rejected r => rfl

end Waits

end GraphRows
