import GraphRows.Proofs.Decoder.Waits

/-!
# A decoder in good order

Besides the holes and the watchers, three things have to be kept in mind. An entry that no row has
come for has an id, and somebody asked for that id. A stream with something in its queue waits for
the entry at the front, by a watcher that stands there or is about to run. And a stream whose last
row has come has its end in the queue.

`Affairs` is what the reader of the rows knows and the decoder does not: which ids were asked for,
which ids rows refer to, which rows have come, and which streams have had no last row. It also says
what is under way: the entry whose row is being read, the stream whose queue is being looked after,
the watchers that are running, whether the decoder is being closed.

## Main results

* `Orderly.moved`, `Orderly.newRow`, `Orderly.newEntry`: what the changes of one entry keep
* `Orderly.setStream`, `Orderly.dropStream`, `Orderly.openStream`: what the changes of the streams
  keep
-/

namespace GraphRows

variable {running : List (Nat × Watcher)} {id : Nat} {st : OpenStream}

namespace StreamEntry

/-- The entry a stream entry waits for. -/
def waitsFor? : StreamEntry → Option Nat
  | .entry i | .close (some i) => some i
  | _ => none

/-- The stream entry ends its stream. -/
def isEnding : StreamEntry → Bool
  | .close _ | .error _ => true
  | _ => false

end StreamEntry

/-- What is known of the rows, and what is under way. -/
structure Affairs where
  /-- the ids that were asked for -/
  wanted : Nat → Prop
  /-- the ids whose row has come or is being read -/
  arrived : Nat → Prop
  /-- the streams whose last row has not come -/
  unended : Nat → Prop
  /-- the ids that rows refer to by value -/
  spoken : Nat → Prop
  /-- which row refers to which -/
  refers : Nat → Nat → Prop := fun _ _ => True
  /-- the entry whose row is being read -/
  busy : Option Nat := none
  /-- the stream whose queue is being looked after -/
  loose : Option Nat := none
  /-- the watchers that are running -/
  running : List (Nat × Watcher) := []
  /-- the reader of the rows, which is none of their business -/
  reader : RowReader := .start
  /-- why nothing more will come -/
  closed : Option Rejection := none

/-- The rows of an entry have come, if anything more may come. -/
def Affairs.Heard (a : Affairs) (d : Decoder) (i : Nat) : Prop :=
  a.closed = none → ∀ id, d.ids.lookup id = some i → a.arrived id

/-- The front of a queue is waited for, by a watcher that stands on its entry or is about to run. -/
def OpenStream.Waits (a : Affairs) (d : Decoder) (id : Nat) (st : OpenStream) : Prop :=
  ∃ front rest j, st.queue = front :: rest ∧ front.waitsFor? = some j ∧
    (.stream id ∈ (d.entry j).watchers ∨ (j, .stream id) ∈ a.running ∨
      a.loose = some id ∧ (d.entry j).state.isTerminal)

/-- The names, the states and the streams of a decoder are in order. -/
structure Orderly (a : Affairs) (d : Decoder) : Prop where
  alive : d.closed = a.closed ∧ d.reader = a.reader
  named : ∀ id i, d.ids.lookup id = some i → i < d.entries.size
  distinct : ∀ id id' i, d.ids.lookup id = some i → d.ids.lookup id' = some i → id = id'
  wanted : ∀ id i, d.ids.lookup id = some i → (d.entry i).state.isPending → a.wanted id
  owned : ∀ i < d.entries.size, (d.entry i).state.isPending → a.busy = some i ∨
    ∃ id, d.ids.lookup id = some i
  arrived : ∀ id, a.arrived id → ∃ i, d.ids.lookup id = some i ∧
    ((d.entry i).state.isPending → a.busy = some i)
  reviving : ∀ i, (d.entry i).state = .reviving → a.busy = some i
  streamed : ∀ p ∈ d.streams, a.arrived p.1
  queued : ∀ p ∈ d.streams, p.2.queue ≠ [] → a.loose = some p.1 ∨ p.2.waiting = true
  waiting : ∀ p ∈ d.streams, p.2.waiting = true → p.2.Waits a d p.1
  ending : ∀ p ∈ d.streams, (∃ x ∈ p.2.queue, x.isEnding) ∨ a.unended p.1
  single : ∀ p ∈ d.streams, ∀ q ∈ d.streams, p.1 = q.1 → p = q
  known : ∀ p ∈ d.streams, ∀ x ∈ p.2.queue, ∀ j, x.waitsFor? = some j → j < d.entries.size
  heard : ∀ i, (d.entry i).state.isPending = false → a.Heard d i

/-- The decoder is in good order, its watchers included. -/
structure Tidy (a : Affairs) (d : Decoder) : Prop where
  orderly : Orderly a d
  waits : GraphRows.Waits a.spoken a.refers a.running d

namespace Orderly

open Decoder

variable {a : Affairs} {d d' : Decoder} {i : Nat} {f : Entry → Entry}

/-! ### What is under way -/

/-- More ids are asked for, and streams that have their end in the queue may be counted as ended. -/
theorem regard (O : Orderly a d) {wanted unended : Nat → Prop}
    (hwanted : ∀ id, a.wanted id → wanted id)
    (hunended : ∀ p ∈ d.streams, a.unended p.1 → (∃ x ∈ p.2.queue, x.isEnding) ∨ unended p.1) :
    Orderly { a with wanted, unended } d :=
  { O with
    wanted := fun id i hi hp => hwanted id (O.wanted id i hi hp)
    ending := fun p hp => (O.ending p hp).elim .inl (hunended p hp) }

/-- The watchers that run matter to streams only. -/
theorem rerun (O : Orderly a d)
    (h : ∀ j id, (j, .stream id) ∈ a.running → (j, .stream id) ∈ running) :
    Orderly { a with running } d := by
  refine { O with waiting := fun p hp hw => ?_ }
  obtain ⟨front, rest, j, hqueue, hfront, hwatch⟩ := O.waiting p hp hw
  exact ⟨front, rest, j, hqueue, hfront, hwatch.imp_right (Or.imp_left (h j p.1))⟩

/-- The row of an entry is going to be read. -/
theorem begin (O : Orderly a d) (ha : a.busy = none) (i : Nat) :
    Orderly { a with busy := some i } d := by
  refine { O with
    owned := fun j hj hp => ?_
    arrived := fun id hid => ?_
    reviving := fun j hj => ?_ }
  · exact .inr ((O.owned j hj hp).resolve_left (by simp [ha]))
  · obtain ⟨j, hj, hp⟩ := O.arrived id hid
    exact ⟨j, hj, fun h => absurd (hp h) (by simp [ha])⟩
  · simpa [ha] using O.reviving j hj

/-- The row of an entry has been read. -/
theorem finish (O : Orderly a d) (ha : a.busy = some i)
    (hpending : (d.entry i).state.isPending = false) (hreviving : (d.entry i).state ≠ .reviving) :
    Orderly { a with busy := none } d := by
  refine { O with
    owned := fun j hj hp => .inr ?_
    arrived := fun id hid => ?_
    reviving := fun j hj => ?_ }
  · refine (O.owned j hj hp).resolve_left fun h => ?_
    obtain rfl := Option.some.inj (ha.symm.trans h)
    simp [hpending] at hp
  · obtain ⟨j, hj, hp⟩ := O.arrived id hid
    refine ⟨j, hj, fun h => ?_⟩
    obtain rfl := Option.some.inj (ha.symm.trans (hp h))
    simp [hpending] at h
  · obtain rfl := Option.some.inj (ha.symm.trans (O.reviving j hj))
    exact absurd hj hreviving

/-- The row of an id has come. -/
theorem arrive (O : Orderly a d) (hid : d.ids.lookup id = some i)
    (hi : (d.entry i).state.isPending → a.busy = some i) :
    Orderly { a with arrived := fun k => a.arrived k ∨ k = id } d := by
  refine { O with
    arrived := fun k hk => ?_
    streamed := fun p hp => .inl (O.streamed p hp)
    heard := fun j hj hopen k hk => .inl (O.heard j hj hopen k hk) }
  rcases hk with hk | rfl
  · exact O.arrived k hk
  · exact ⟨i, hid, hi⟩

/-! ### One entry -/

/-- A decoder that differs in nothing of this. -/
theorem congr (O : Orderly a d) (hentries : d'.entries = d.entries) (hids : d'.ids = d.ids)
    (hclosed : d'.closed = d.closed) (hreader : d'.reader = d.reader)
    (hstreams : d'.streams = d.streams) : Orderly a d' := by
  have hentry : ∀ i, d'.entry i = d.entry i := fun i => by rw [entry, entry, hentries]
  obtain ⟨h₁, h₂, h₃, h₄, h₅, h₆, h₇, h₈, h₉, h₁₀, h₁₁, h₁₂, h₁₃, h₁₄⟩ := O
  refine ⟨?_, ?_, ?_, ?_, ?_, ?_, ?_, ?_, ?_, ?_, ?_, ?_, ?_, ?_⟩
  case refine_10 => simpa only [OpenStream.Waits, hstreams, hentry] using h₁₀
  all_goals simpa only [Affairs.Heard, hentry, hids, hclosed, hreader, hstreams, hentries]

/-- **An entry advances**, and a watcher of a stream that it loses is about to run. -/
theorem moved (O : Orderly a d) (h : Changed d d' i f) (hstreams : d'.streams = d.streams)
    (hpending : (f (d.entry i)).state.isPending → (d.entry i).state.isPending)
    (hreviving : (f (d.entry i)).state = .reviving → a.busy = some i)
    (hterminal : (d.entry i).state.isTerminal → (f (d.entry i)).state.isTerminal)
    (hwatchers : ∀ id, .stream id ∈ (d.entry i).watchers → .stream id ∈ (f (d.entry i)).watchers ∨
      (i, .stream id) ∈ running)
    (hrunning : ∀ j id, (j, .stream id) ∈ a.running → (j, .stream id) ∈ running)
    (hheard : (f (d.entry i)).state.isPending = false → a.Heard d i) :
    Orderly { a with running } d' := by
  have pending : ∀ j, (d'.entry j).state.isPending → (d.entry j).state.isPending := by
    intro j hj
    by_cases hi : j = i
    · subst hi
      exact hpending (h.self ▸ hj)
    · exact h.other hi ▸ hj
  refine ⟨⟨h.closed ▸ O.alive.1, h.reader ▸ O.alive.2⟩, ?_, h.ids ▸ O.distinct, ?_, ?_, ?_, ?_, ?_,
    ?_, ?_, ?_, ?_, ?_, fun j hj hopen id hid => ?_⟩
  · exact fun id j hj => h.size ▸ O.named id j (h.ids ▸ hj)
  · exact fun id j hj hp => O.wanted id j (h.ids ▸ hj) (pending j hp)
  · rw [h.size, h.ids]
    exact fun j hj hp => O.owned j hj (pending j hp)
  · rw [h.ids]
    intro id hid
    obtain ⟨j, hj, hp⟩ := O.arrived id hid
    exact ⟨j, hj, fun h => hp (pending j h)⟩
  · intro j hj
    by_cases hi : j = i
    · subst hi
      exact hreviving (h.self ▸ hj)
    · exact O.reviving j (h.other hi ▸ hj)
  · exact hstreams ▸ O.streamed
  · exact hstreams ▸ O.queued
  · rw [hstreams]
    intro p hp hw
    obtain ⟨front, rest, j, hqueue, hfront, hwatch⟩ := O.waiting p hp hw
    refine ⟨front, rest, j, hqueue, hfront, ?_⟩
    rcases hwatch with hwatch | hwatch | ⟨hloose, hterm⟩
    · by_cases hi : j = i
      · subst hi
        exact h.self ▸ (hwatchers _ hwatch).imp_right .inl
      · exact .inl (h.other hi ▸ hwatch)
    · exact .inr (.inl (hrunning _ _ hwatch))
    · refine .inr (.inr ⟨hloose, ?_⟩)
      by_cases hi : j = i
      · subst hi
        exact h.self ▸ hterminal hterm
      · exact h.other hi ▸ hterm
  · exact hstreams ▸ O.ending
  · exact hstreams ▸ O.single
  · exact hstreams ▸ h.size ▸ O.known
  · rw [h.ids] at hid
    by_cases hi : j = i
    · subst hi
      exact hheard (h.self ▸ hj) hopen id hid
    · exact O.heard j (h.other hi ▸ hj) hopen id hid

/-- An entry advances and keeps its watchers. Whatever else the change does is for the watchers to
say. -/
theorem changed (O : Orderly a d) (h : Changed d d' i f) (hstreams : d'.streams = d.streams)
    (hpending : (f (d.entry i)).state.isPending → (d.entry i).state.isPending)
    (hreviving : (f (d.entry i)).state = .reviving → a.busy = some i)
    (hterminal : (d.entry i).state.isTerminal → (f (d.entry i)).state.isTerminal)
    (hwatchers : ∀ id, .stream id ∈ (d.entry i).watchers → .stream id ∈ (f (d.entry i)).watchers)
    (hheard : (f (d.entry i)).state.isPending = false → a.Heard d i) : Orderly a d' :=
  O.moved h hstreams hpending hreviving hterminal (fun id hid => .inl (hwatchers id hid))
    (fun _ _ h => h) hheard

/-- An entry keeps its state and its watchers. -/
theorem touched (O : Orderly a d) (h : Changed d d' i f) (hstreams : d'.streams = d.streams)
    (hstate : (f (d.entry i)).state = (d.entry i).state)
    (hwatchers : ∀ id, .stream id ∈ (d.entry i).watchers → .stream id ∈ (f (d.entry i)).watchers)
    (hrunning : ∀ j id, (j, .stream id) ∈ a.running → (j, .stream id) ∈ running) :
    Orderly { a with running } d' := by
  refine O.moved h hstreams ?_ ?_ ?_ (fun id hid => .inl (hwatchers id hid)) hrunning ?_ <;>
    rw [hstate]
  · exact id
  · exact O.reviving i
  · exact id
  · exact O.heard i

/-- A new entry that nobody can ask for, because its row is there. -/
theorem newEntry (O : Orderly a d) (ha : a.busy = none) {e : Entry} (he : e.IsBlank) :
    Orderly { a with busy := some d.entries.size } { d with entries := d.entries.push e } := by
  obtain ⟨h₁, h₂, h₃, h₄, h₅, h₆, h₇, h₈, h₉, h₁₀, h₁₁, h₁₂, h₁₃, h₁₄⟩ := O.begin ha d.entries.size
  have pushed := he.push (d := d) (rfl :
    ({ d with entries := d.entries.push e } : Decoder).entries = d.entries.push e)
  have state := fun j => (pushed j).1
  have watchers := fun j => (pushed j).2.2
  refine ⟨h₁, ?_, h₃, ?_, ?_, ?_, ?_, h₈, h₉, ?_, h₁₁, h₁₂, ?_, ?_⟩
  · exact fun id j hj => Array.size_push .. ▸ Nat.lt_succ_of_lt (h₂ id j hj)
  · simpa only [state] using h₄
  · intro j hj hp
    rw [state] at hp
    rcases Nat.lt_succ_iff_lt_or_eq.mp (Array.size_push .. ▸ hj) with hj | rfl
    · exact h₅ j hj hp
    · exact .inl rfl
  · simpa only [state] using h₆
  · simpa only [state] using h₇
  · simpa only [OpenStream.Waits, state, watchers] using h₁₀
  · exact fun p hp x hx j hj => Array.size_push .. ▸ Nat.lt_succ_of_lt (h₁₃ p hp x hx j hj)
  · exact fun j hj => h₁₄ j (state j ▸ hj)

/-- **A new entry for an id that somebody asked for.** -/
theorem newRow (O : Orderly a d) {e : Entry} (he : e.IsBlank) (hnew : d.ids.lookup id = none)
    (hwanted : a.wanted id) :
    Orderly a { d with entries := d.entries.push e, ids := (id, d.entries.size) :: d.ids } := by
  obtain ⟨h₁, h₂, h₃, h₄, h₅, h₆, h₇, h₈, h₉, h₁₀, h₁₁, h₁₂, h₁₃, h₁₄⟩ := O
  generalize hd' :
    ({ d with entries := d.entries.push e, ids := (id, d.entries.size) :: d.ids } : Decoder) = d'
  have hentries : d'.entries = d.entries.push e := by rw [← hd']
  have hids : d'.ids = (id, d.entries.size) :: d.ids := by rw [← hd']
  have hstreams : d'.streams = d.streams := by rw [← hd']
  have hsize : d'.entries.size = d.entries.size + 1 := by rw [hentries, Array.size_push]
  have state := fun j => (he.push hentries j).1
  have watchers := fun j => (he.push hentries j).2.2
  have old : ∀ {k j}, d.ids.lookup k = some j → d'.ids.lookup k = some j :=
    fun hj => hids ▸ lookup_cons_of_lookup hnew hj
  have new : ∀ {k j}, d'.ids.lookup k = some j → d.ids.lookup k = some j ∨ k = id ∧
      j = d.entries.size :=
    fun hj => lookup_of_lookup_cons (hids ▸ hj)
  refine ⟨by rw [← hd']; exact h₁, ?_, ?_, ?_, ?_, ?_, ?_, ?_, ?_, ?_, ?_, ?_, ?_,
    fun j hj hopen k hk => ?_⟩
  · intro k j hj
    rw [hsize]
    rcases new hj with hj | ⟨-, rfl⟩
    · exact Nat.lt_succ_of_lt (h₂ k j hj)
    · exact Nat.lt_succ_self _
  · intro k k' j hj hj'
    rcases new hj with hj | ⟨rfl, rfl⟩ <;> rcases new hj' with hj' | ⟨rfl, hj'⟩
    · exact h₃ k k' j hj hj'
    · exact absurd (h₂ k j hj) (by omega)
    · exact absurd (h₂ k' _ hj') (Nat.lt_irrefl _)
    · rfl
  · intro k j hj hp
    rw [state] at hp
    rcases new hj with hj | ⟨rfl, -⟩
    · exact h₄ k j hj hp
    · exact hwanted
  · intro j hj hp
    rw [state] at hp
    rw [hsize] at hj
    rcases Nat.lt_succ_iff_lt_or_eq.mp hj with hj | rfl
    · exact (h₅ j hj hp).imp_right fun ⟨k, hk⟩ => ⟨k, old hk⟩
    · exact .inr ⟨id, by rw [hids, List.lookup_cons_self]⟩
  · intro k hk
    obtain ⟨j, hj, hp⟩ := h₆ k hk
    exact ⟨j, old hj, by rwa [state]⟩
  · simpa only [state] using h₇
  · exact hstreams ▸ h₈
  · exact hstreams ▸ h₉
  · simpa only [OpenStream.Waits, hstreams, state, watchers] using h₁₀
  · exact hstreams ▸ h₁₁
  · exact hstreams ▸ h₁₂
  · rw [hstreams, hsize]
    exact fun p hp x hx j hj => Nat.lt_succ_of_lt (h₁₃ p hp x hx j hj)
  · rw [state] at hj
    rcases new hk with hk | ⟨-, rfl⟩
    · exact h₁₄ j hj hopen k hk
    · exact absurd (lt_size_of_not_isPending d hj) (Nat.lt_irrefl _)

/-! ### Streams -/

theorem mem_of_stream? (h : d.stream? id = some st) : (id, st) ∈ d.streams := by
  obtain ⟨l₁, l₂, heq, -⟩ := List.lookup_eq_some_iff.mp h
  rw [heq]
  simp

theorem eq_of_stream? (O : Orderly a d) {st' : OpenStream} (h : d.stream? id = some st)
    (h' : (id, st') ∈ d.streams) : st' = st :=
  congrArg Prod.snd (O.single _ h' _ (mem_of_stream? h) rfl)

theorem mem_setStream {p : Nat × OpenStream} (h : p ∈ (d.setStream id st).streams) :
    p = (id, st) ∧ (∃ old, (id, old) ∈ d.streams) ∨ p.1 ≠ id ∧ p ∈ d.streams := by
  obtain ⟨⟨k, old⟩, hmem, rfl⟩ := List.mem_map.mp h
  by_cases hk : k = id
  · subst hk
    exact .inl ⟨by simp, old, hmem⟩
  · exact .inr ⟨hk, by simpa [hk] using hmem⟩

/-- **The queue of a stream changes.** Its own part of the order has to be shown; the other streams
are as they were. -/
theorem setStream (O : Orderly a d) {loose : Option Nat}
    (hloose : a.loose = none ∨ a.loose = some id)
    (hqueued : st.queue ≠ [] → loose = some id ∨ st.waiting = true)
    (hwaiting : st.waiting = true → st.Waits { a with loose } d id)
    (hending : ∀ old, (id, old) ∈ d.streams → (∃ x ∈ st.queue, x.isEnding) ∨ a.unended id)
    (hknown : ∀ x ∈ st.queue, ∀ j, x.waitsFor? = some j → j < d.entries.size) :
    Orderly { a with loose } (d.setStream id st) := by
  obtain ⟨h₁, h₂, h₃, h₄, h₅, h₆, h₇, h₈, h₉, h₁₀, h₁₁, h₁₂, h₁₃, h₁₄⟩ := O
  refine ⟨h₁, h₂, h₃, h₄, h₅, h₆, h₇, ?_, ?_, ?_, ?_, ?_, ?_, h₁₄⟩
  · intro p hp
    rcases mem_setStream hp with ⟨rfl, old, hold⟩ | ⟨-, hp⟩
    · exact h₈ (id, old) hold
    · exact h₈ p hp
  · intro p hp hq
    rcases mem_setStream hp with ⟨rfl, -⟩ | ⟨hne, hp⟩
    · exact hqueued hq
    · refine .inr ((h₉ p hp hq).resolve_left fun h => ?_)
      rcases hloose with hloose | hloose <;> simp [hloose] at h
      exact hne h.symm
  · intro p hp hw
    rcases mem_setStream hp with ⟨rfl, -⟩ | ⟨hne, hp⟩
    · exact hwaiting hw
    · obtain ⟨front, rest, j, hqueue, hfront, hwatch⟩ := h₁₀ p hp hw
      refine ⟨front, rest, j, hqueue, hfront, hwatch.imp_right
        (Or.imp_right fun h => absurd h.1 fun h => ?_)⟩
      rcases hloose with hloose | hloose <;> simp [hloose] at h
      exact hne h.symm
  · intro p hp
    rcases mem_setStream hp with ⟨rfl, old, hold⟩ | ⟨-, hp⟩
    · exact hending old hold
    · exact h₁₁ p hp
  · intro p hp q hq hpq
    rcases mem_setStream hp with ⟨rfl, -⟩ | ⟨hne, hp⟩ <;> rcases mem_setStream
      hq with ⟨rfl, -⟩ | ⟨hne', hq⟩
    · rfl
    · exact absurd hpq.symm hne'
    · exact absurd hpq hne
    · exact h₁₂ p hp q hq hpq
  · intro p hp
    rcases mem_setStream hp with ⟨rfl, -⟩ | ⟨-, hp⟩
    · exact hknown
    · exact h₁₃ p hp

/-- The stream that was looked after is in order again. -/
theorem tighten (O : Orderly a d) (hloose : a.loose = some id)
    (h : ∀ st, (id, st) ∈ d.streams → (st.queue ≠ [] → st.waiting = true) ∧
      (st.waiting = true → st.Waits { a with loose := none } d id)) :
    Orderly { a with loose := none } d := by
  refine { O with queued := fun p hp hq => ?_, waiting := fun p hp hw => ?_ }
  · by_cases hid : p.1 = id
    · subst hid
      exact .inr ((h p.2 hp).1 hq)
    · exact .inr ((O.queued p hp hq).resolve_left (by simpa [hloose] using Ne.symm hid))
  · by_cases hid : p.1 = id
    · subst hid
      exact (h p.2 hp).2 hw
    · obtain ⟨front, rest, j, hqueue, hfront, hwatch⟩ := O.waiting p hp hw
      refine ⟨front, rest, j, hqueue, hfront, hwatch.imp_right
        (Or.imp_right fun h => absurd h.1 ?_)⟩
      simpa [hloose] using Ne.symm hid

/-- A stream is looked after, or was and is not there any more. -/
theorem loosen (O : Orderly a d) (hloose : a.loose = none) (id : Nat) :
    Orderly { a with loose := some id } d := by
  refine { O with queued := fun p hp hq => ?_, waiting := fun p hp hw => ?_ }
  · exact .inr ((O.queued p hp hq).resolve_left (by simp [hloose]))
  · obtain ⟨front, rest, j, hqueue, hfront, hwatch⟩ := O.waiting p hp hw
    exact ⟨front, rest, j, hqueue, hfront, hwatch.imp_right
      (Or.imp_right fun h => absurd h.1 (by simp [hloose]))⟩

theorem dropStream (O : Orderly a d) (hloose : a.loose = some id) :
    Orderly { a with loose := none } (d.dropStream id) := by
  have hmem : ∀ p ∈ (d.dropStream id).streams, p ∈ d.streams ∧ p.1 ≠ id := by
    intro p hp
    simpa [Decoder.dropStream] using hp
  obtain ⟨h₁, h₂, h₃, h₄, h₅, h₆, h₇, h₈, h₉, h₁₀, h₁₁, h₁₂, h₁₃, h₁₄⟩ := O
  refine tighten ⟨h₁, h₂, h₃, h₄, h₅, h₆, h₇, fun p hp => h₈ p (hmem p hp).1, fun p hp =>
    h₉ p (hmem p hp).1, fun p hp => h₁₀ p (hmem p hp).1, fun p hp => h₁₁ p (hmem p hp).1,
    fun p hp q hq => h₁₂ p (hmem p hp).1 q (hmem q hq).1, fun p hp => h₁₃ p (hmem p hp).1, h₁₄⟩
    hloose fun st hst => ?_
  exact absurd rfl (hmem _ hst).2

theorem openStream (O : Orderly a d) (stream : CellId) (harrived : a.arrived id)
    (hunended : a.unended id) (hnew : ∀ p ∈ d.streams, p.1 ≠ id) :
    Orderly a { d with streams := d.streams ++ [(id, { stream })] } := by
  obtain ⟨h₁, h₂, h₃, h₄, h₅, h₆, h₇, h₈, h₉, h₁₀, h₁₁, h₁₂, h₁₃, h₁₄⟩ := O
  have hmem : ∀ p ∈ d.streams ++ [(id, ({ stream } : OpenStream))], p ∈ d.streams ∨
      p = (id, { stream }) := by
    intro p hp
    simpa using hp
  refine ⟨h₁, h₂, h₃, h₄, h₅, h₆, h₇, fun p hp => ?_, fun p hp hq => ?_, fun p hp hw => ?_,
    fun p hp => ?_, fun p hp q hq hpq => ?_, fun p hp => ?_, h₁₄⟩
  · rcases hmem p hp with hp | rfl
    · exact h₈ p hp
    · exact harrived
  · rcases hmem p hp with hp | rfl
    · exact h₉ p hp hq
    · exact absurd rfl hq
  · rcases hmem p hp with hp | rfl
    · exact h₁₀ p hp hw
    · cases hw
  · rcases hmem p hp with hp | rfl
    · exact h₁₁ p hp
    · exact .inr hunended
  · rcases hmem p hp with hp | rfl <;> rcases hmem q hq with hq | rfl
    · exact h₁₂ p hp q hq hpq
    · exact absurd hpq (hnew p hp)
    · exact absurd hpq.symm (hnew q hq)
    · rfl
  · rcases hmem p hp with hp | rfl
    · exact h₁₃ p hp
    · exact fun x hx => absurd hx List.not_mem_nil

end Orderly

end GraphRows
