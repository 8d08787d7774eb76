import GraphRows.Proofs.Decoder.Entries

/-!
# Who waits for whom

A draft waits for the entries in its `waitingOn`. As long as no drafts wait for each other in a
circle, there is a rank that falls along every such edge between entries that are not settled;
`Ranked` says so. A new edge from `target` to `index` keeps the edges ranked if something separates
the two: a set that holds `index` but not `target` and that no edge leaves. Everything outside it is
lifted above it.

The search in `waitsOn` finds such a set whenever it answers no. It always answers: what is on the
stack and the edges it has not followed yet bound the steps it still has to make.

## Main results

* `Decoder.waitsOnFrom_isSome`: a search comes to an end
* `Decoder.exists_barrier_of_waitsOn`: a search without success leaves a set that no edge leaves
* `Decoder.chain_of_waitsOnFrom`: a search with success has followed edges
* `waitsOn_decides_chains`: so the search decides who waits for whom
* `Decoder.Ranked.insert`: an edge across such a set keeps the edges ranked
-/

namespace GraphRows

namespace Decoder

variable {d d' : Decoder} {seen : List Nat} {fuel i index target : Nat}

/-- The edges that count run between entries that are not settled. -/
def WaitsFor (d : Decoder) (t i : Nat) : Prop :=
  (d.entry t).state.isTerminal = false ∧ (d.entry i).state.isTerminal = false ∧
    i ∈ (d.entry t).draft.waitingOn

/-- No circle: some rank falls along every edge. -/
def Ranked (d : Decoder) : Prop := ∃ rank : Nat → Nat, ∀ t i, d.WaitsFor t i → rank i < rank t

/-- A set that no edge leaves and that does not hold `target`. -/
structure Barrier (d : Decoder) (target : Nat) (S : Nat → Prop) : Prop where
  outside : ¬ S target
  closed : ∀ t i, S t → d.WaitsFor t i → S i

/-- **A new edge across a barrier** makes no circle: what is outside is lifted above what is
inside. -/
theorem Ranked.insert {S : Nat → Prop} (hd : Ranked d) (hS : Barrier d target S) (hindex : S index)
    (h : ∀ t i, d'.WaitsFor t i → d.WaitsFor t i ∨ t = target ∧ i = index) : Ranked d' := by
  classical
  obtain ⟨rank, hrank⟩ := hd
  refine ⟨fun n => if S n then rank n else rank n + (rank index + 1), fun t i hedge => ?_⟩
  rcases h t i hedge with hold | ⟨rfl, rfl⟩
  · have hlt := hrank t i hold
    by_cases ht : S t
    · simp only [ht, hS.closed t i ht hold, if_true]
      exact hlt
    · simp only [ht, if_false]
      split <;> omega
  · simp only [hS.outside, hindex, if_true, if_false]
    omega

theorem Ranked.mono (hd : Ranked d) (h : ∀ t i, d'.WaitsFor t i → d.WaitsFor t i) : Ranked d' := by
  obtain ⟨rank, hrank⟩ := hd
  exact ⟨rank, fun t i hedge => hrank t i (h t i hedge)⟩

/-! ### The search -/

/-- The entries the search has not seen. -/
def unseen (d : Decoder) (seen : List Nat) : List Nat :=
  (List.range d.entries.size).filter fun i => !seen.contains i

/-- The edges out of the entries the search has not seen. -/
def unseenEdges (d : Decoder) (seen : List Nat) : Nat :=
  ((d.unseen seen).map fun i => (d.entry i).draft.waitingOn.length).sum

theorem unseen_cons (i : Nat) (seen : List Nat) :
    d.unseen (i :: seen) = (d.unseen seen).filter (· != i) := by
  rw [unseen, unseen, List.filter_filter]
  refine List.filter_congr fun j _ => ?_
  rw [List.contains_cons, Bool.not_or]
  rfl

/-- Dropping an item from a list drops at least its share of the sum. -/
theorem sum_filter_ne_add_le {f : Nat → Nat} {l : List Nat} (h : i ∈ l) :
    ((l.filter (· != i)).map f).sum + f i ≤ (l.map f).sum := by
  have drop : ∀ l : List Nat, ((l.filter (· != i)).map f).sum ≤ (l.map f).sum := by
    intro l
    induction l with
    | nil => simp
    | cons j l ih =>
      by_cases hj : j = i
      · subst hj
        simpa using Nat.le_trans ih (Nat.le_add_left _ _)
      · simp [hj, ih]
  induction l with
  | nil => simp at h
  | cons j l ih =>
    by_cases hj : j = i
    · subst hj
      have := drop l
      simp only [bne_self_eq_false, List.filter_cons, Bool.false_eq_true, if_false, List.map_cons,
        List.sum_cons]
      omega
    · have := ih ((List.mem_cons.mp h).resolve_left (Ne.symm hj))
      have hne : (j != i) = true := by simpa using hj
      simp only [List.filter_cons, hne, if_true, List.map_cons, List.sum_cons]
      omega

theorem unseenEdges_cons_le (i : Nat) (seen : List Nat) :
    d.unseenEdges (i :: seen) ≤ d.unseenEdges seen := by
  rw [unseenEdges, unseenEdges, unseen_cons]
  by_cases hi : i ∈ d.unseen seen
  · have := sum_filter_ne_add_le (f := fun i => (d.entry i).draft.waitingOn.length) hi
    omega
  · have hsame : (d.unseen seen).filter (· != i) = d.unseen seen := by
      refine List.filter_eq_self.mpr fun j hj => bne_iff_ne.mpr ?_
      rintro rfl
      exact hi hj
    exact Nat.le_of_eq (by rw [hsame])

theorem unseenEdges_cons (hi : i < d.entries.size) (hseen : i ∉ seen) :
    d.unseenEdges (i :: seen) + (d.entry i).draft.waitingOn.length ≤ d.unseenEdges seen := by
  rw [unseenEdges, unseenEdges, unseen_cons]
  refine sum_filter_ne_add_le (f := fun i => (d.entry i).draft.waitingOn.length) ?_
  simp [unseen, hi, hseen]

theorem unseenEdges_nil : d.unseenEdges [] = d.edgeCount := by
  have hentries : (List.range d.entries.size).map d.entry = d.entries.toList := by
    refine List.ext_getElem (by simp) fun i h₁ h₂ => ?_
    simp only [List.length_map, List.length_range] at h₁
    simp [entry, h₁]
  have hall : d.unseen [] = List.range d.entries.size := List.filter_eq_self.mpr fun _ _ => rfl
  have hmap : (List.range d.entries.size).map (fun i => (d.entry i).draft.waitingOn.length) =
      d.entries.toList.map fun e => e.draft.waitingOn.length := by
    rw [← hentries, List.map_map]
    rfl
  rw [unseenEdges, hall, hmap, edgeCount, List.sum_eq_foldl, List.foldl_map]

theorem lt_size_of_isDraft (h : (d.entry i).state.isDraft) : i < d.entries.size := by
  refine lt_size_of_not_isPending d ?_
  cases hs : (d.entry i).state <;> simp [hs, EntryState.isDraft, EntryState.isPending] at h ⊢

/-- What the search has seen is done with: no draft in it waits for `target`, and where its edges
lead is seen or still on the stack. -/
def Searched (d : Decoder) (target : Nat) (stack seen : List Nat) : Prop :=
  ∀ i ∈ seen, (d.entry i).state.isDraft → target ∉ (d.entry i).draft.waitingOn ∧
    ∀ j ∈ (d.entry i).draft.waitingOn, (d.entry j).state.isTerminal = false → j ∈ seen ∨ j ∈ stack

/-- **The search comes to an end.** Each step takes an entry off the stack, and puts the edges of an
entry there that had not been seen. -/
theorem waitsOnFrom_isSome {stack : List Nat} (hfuel : stack.length + d.unseenEdges seen < fuel) :
    (d.waitsOnFrom target fuel stack seen).isSome := by
  induction fuel generalizing stack seen with
  | zero => omega
  | succ fuel ih =>
    match stack with
    | [] => rfl
    | i :: stack =>
      rw [waitsOnFrom]
      simp only [List.length_cons] at hfuel
      split
      · have hle := unseenEdges_cons_le (d := d) i seen
        exact ih (by omega)
      · rename_i hexpand
        simp only [Bool.or_eq_true, Bool.not_eq_true', not_or, List.contains_iff_mem,
          Bool.not_eq_false] at hexpand
        extract_lets next
        split
        · rfl
        · have hle := unseenEdges_cons (lt_size_of_isDraft hexpand.2) hexpand.1
          have hlength := List.length_filter_le (fun j => !(d.entry j).state.isTerminal) next
          refine ih ?_
          rw [List.length_append]
          change _ + next.length ≤ _ at hle
          omega

/-- A search without success ends with everything seen that it could have looked at. -/
theorem exists_searched_of_waitsOnFrom {stack : List Nat} (hseen : d.Searched target stack seen)
    (h : d.waitsOnFrom target fuel stack seen = some false) :
    ∃ seen', d.Searched target [] seen' ∧ (∀ i ∈ stack, i ∈ seen') ∧ (∀ i ∈ seen, i ∈ seen') ∧
      (target ∉ stack → target ∉ seen → target ∉ seen') := by
  induction fuel generalizing stack seen with
  | zero => cases stack <;> cases h
  | succ fuel ih =>
    match stack with
    | [] => exact ⟨seen, hseen, nofun, fun _ h => h, fun _ h => h⟩
    | i :: stack =>
      rw [waitsOnFrom] at h
      split at h
      · rename_i hskip
        have hseen' : d.Searched target stack (i :: seen) := by
          intro k hk hdraft
          have hk' : k ∈ seen := by
            rcases List.mem_cons.mp hk with rfl | hk
            · simpa [hdraft] using hskip
            · exact hk
          refine ⟨(hseen k hk' hdraft).1, fun j hj hterm => ?_⟩
          rcases (hseen k hk' hdraft).2 j hj hterm with h | h
          · exact .inl (List.mem_cons_of_mem _ h)
          · rcases List.mem_cons.mp h with rfl | h
            · exact .inl List.mem_cons_self
            · exact .inr h
        obtain ⟨all, hall, hstack, hold, htarget⟩ := ih hseen' h
        refine ⟨all, hall, fun j hj => ?_, fun j hj => hold j (List.mem_cons_of_mem _ hj),
          fun h₁ h₂ => ?_⟩
        · rcases List.mem_cons.mp hj with rfl | hj
          · exact hold _ List.mem_cons_self
          · exact hstack j hj
        · simp only [List.mem_cons, not_or] at h₁
          exact htarget h₁.2 (by simp [h₁.1, h₂])
      · extract_lets next at h
        split at h
        · cases h
        · rename_i hnext
          rw [List.contains_iff_mem] at hnext
          have hseen' : d.Searched target
              (next.filter (fun j => !(d.entry j).state.isTerminal) ++ stack) (i :: seen) := by
            intro k hk hkdraft
            rcases List.mem_cons.mp hk with rfl | hk
            · refine ⟨hnext, fun j hj hterm => .inr (List.mem_append_left _ ?_)⟩
              exact List.mem_filter.mpr ⟨hj, by simp [hterm]⟩
            · refine ⟨(hseen k hk hkdraft).1, fun j hj hterm => ?_⟩
              rcases (hseen k hk hkdraft).2 j hj hterm with h | h
              · exact .inl (List.mem_cons_of_mem _ h)
              · rcases List.mem_cons.mp h with rfl | h
                · exact .inl List.mem_cons_self
                · exact .inr (List.mem_append_right _ h)
          obtain ⟨all, hall, hstack, hold, htarget⟩ := ih hseen' h
          refine ⟨all, hall, fun j hj => ?_, fun j hj => hold j (List.mem_cons_of_mem _ hj),
            fun h₁ h₂ => ?_⟩
          · rcases List.mem_cons.mp hj with rfl | hj
            · exact hold _ List.mem_cons_self
            · exact hstack j (List.mem_append_right _ hj)
          · simp only [List.mem_cons, not_or] at h₁
            refine htarget ?_ (by simp [h₁.1, h₂])
            simp only [List.mem_append, List.mem_filter, not_or]
            exact ⟨fun h => hnext h.1, h₁.2⟩

/-- A search without success that began at one entry. -/
theorem exists_searched (h : d.waitsOnFrom target fuel [index] [] = some false) :
    ∃ seen, d.Searched target [] seen ∧ index ∈ seen ∧ (index ≠ target → target ∉ seen) := by
  obtain ⟨seen, hseen, hstack, -, htarget⟩ :=
    exists_searched_of_waitsOnFrom (fun _ h => absurd h List.not_mem_nil) h
  exact ⟨seen, hseen, hstack index List.mem_cons_self,
    fun hne => htarget (by simpa using hne.symm) List.not_mem_nil⟩

/-- The fuel of a search that begins at one entry is enough. -/
theorem exists_waitsOnFrom (index target : Nat) (hfuel : d.edgeCount + 2 ≤ fuel) :
    ∃ b, d.waitsOnFrom target fuel [index] [] = some b := by
  refine Option.isSome_iff_exists.mp (waitsOnFrom_isSome ?_)
  rw [unseenEdges_nil, List.length_singleton]
  omega

theorem waitsOnFrom_eq_waitsOn :
    d.waitsOnFrom target (d.edgeCount + 2) [index] [] = some (d.waitsOn index target) := by
  obtain ⟨b, hb⟩ := exists_waitsOnFrom (d := d) index target (Nat.le_refl _)
  rw [waitsOn, hb, Option.getD_some]

/-- **A search without success leaves a barrier** between where it began and what it looked for. -/
theorem exists_barrier_of_waitsOn
    (hblank : ∀ i, (d.entry i).state.isPending → (d.entry i).draft.waitingOn = [])
    (hne : index ≠ target) (h : d.waitsOn index target = false) :
    ∃ S, d.Barrier target S ∧ S index := by
  obtain ⟨seen, hseen, hindex, htarget⟩ :=
    exists_searched (waitsOnFrom_eq_waitsOn.trans (congrArg some h))
  refine ⟨(· ∈ seen), ⟨htarget hne, fun t i ht hedge => ?_⟩, hindex⟩
  obtain ⟨ht', hi', hmem⟩ := hedge
  by_cases hdraft : (d.entry t).state.isDraft
  · exact ((hseen t ht hdraft).2 i hmem hi').resolve_right List.not_mem_nil
  · have hpending : (d.entry t).state.isPending := by
      cases hs : (d.entry t).state <;>
        simp_all [EntryState.isDraft, EntryState.isTerminal, EntryState.isPending]
    simp [hblank t hpending] at hmem

/-- An edge between drafts, whether it counts any more or not. -/
def Edge (d : Decoder) (t i : Nat) : Prop := i ∈ (d.entry t).draft.waitingOn

/-- An edge out of an entry that is under construction. -/
def Hangs (d : Decoder) (t i : Nat) : Prop := (d.entry t).state.isDraft ∧ d.Edge t i

theorem exists_chain_of_waitsOnFrom {stack : List Nat}
    (h : d.waitsOnFrom target fuel stack seen = some true) :
    ∃ i ∈ stack, Relation.TransGen d.Hangs i target := by
  induction fuel generalizing stack seen with
  | zero => cases stack <;> cases h
  | succ fuel ih =>
    match stack with
    | [] => cases h
    | i :: stack =>
      rw [waitsOnFrom] at h
      split at h
      · obtain ⟨k, hk, hpath⟩ := ih h
        exact ⟨k, List.mem_cons_of_mem _ hk, hpath⟩
      · rename_i hexpand
        have hdraft : (d.entry i).state.isDraft := by simp_all
        extract_lets next at h
        split at h
        · rename_i hnext
          exact ⟨i, List.mem_cons_self, .single ⟨hdraft, List.contains_iff_mem.mp hnext⟩⟩
        · obtain ⟨k, hk, hpath⟩ := ih h
          rcases List.mem_append.mp hk with hk | hk
          · exact ⟨i, List.mem_cons_self, .head ⟨hdraft, (List.mem_filter.mp hk).1⟩ hpath⟩
          · exact ⟨k, List.mem_cons_of_mem _ hk, hpath⟩

/-- **A search with success has followed edges** from where it began to what it looked for. -/
theorem chain_of_waitsOnFrom (h : d.waitsOnFrom target fuel [index] [] = some true) :
    Relation.TransGen d.Hangs index target := by
  obtain ⟨i, hi, hpath⟩ := exists_chain_of_waitsOnFrom h
  exact List.mem_singleton.mp hi ▸ hpath

theorem edges_of_waitsOn (h : d.waitsOn index target) : Relation.TransGen d.Edge index target :=
  Relation.TransGen.mono (show d.Hangs ≤ d.Edge from fun _ _ h => h.2) _ _
    (chain_of_waitsOnFrom (waitsOnFrom_eq_waitsOn.trans (congrArg some h)))

/-- No chain leads out of what a search has seen to what it looked for. -/
theorem Searched.not_chain (h : d.Searched target [] seen) (hi : i ∈ seen) :
    ¬ Relation.TransGen d.Hangs i target := by
  intro hchain
  induction hchain using Relation.TransGen.head_induction_on with
  | single hlast => exact (h _ hi hlast.1).1 hlast.2
  | @head i j hfirst hrest ih =>
    obtain ⟨_, ⟨hdraft, -⟩, -⟩ := Relation.TransGen.head'_iff.mp hrest
    have hopen : (d.entry j).state.isTerminal = false := by
      cases hs : (d.entry j).state <;> simp_all [EntryState.isDraft, EntryState.isTerminal]
    exact ih (((h _ hi hfirst.1).2 j hfirst.2 hopen).resolve_right List.not_mem_nil)

/-- A search that has come to an end says whether there is a chain. -/
theorem chain_iff_of_waitsOnFrom {b : Bool} (h : d.waitsOnFrom target fuel [index] [] = some b) :
    b = true ↔ Relation.TransGen d.Hangs index target := by
  cases b with
  | true => exact ⟨fun _ => chain_of_waitsOnFrom h, fun _ => rfl⟩
  | false =>
    obtain ⟨seen, hseen, hindex, -⟩ := exists_searched h
    exact ⟨nofun, fun hchain => absurd hchain (hseen.not_chain hindex)⟩

/-- Searches that have come to an end agree. -/
theorem eq_waitsOn_of_waitsOnFrom {b : Bool}
    (h : d.waitsOnFrom target fuel [index] [] = some b) : b = d.waitsOn index target := by
  rw [Bool.eq_iff_iff, chain_iff_of_waitsOnFrom h, chain_iff_of_waitsOnFrom waitsOnFrom_eq_waitsOn]

end Decoder

/-- **The search decides who waits for whom.** In any state, in the middle of a row too, it finds
`target` exactly if a chain of one or more edges leads there, each out of an entry that is under
construction to one its draft waits for. Entries that have settled have no edges in such a chain,
though they may be named in drafts. The search comes to an end, with that answer, whatever the edges
are: a fuel of two more than their number is enough, and no search with another fuel ends with
another answer. -/
theorem waitsOn_decides_chains (d : Decoder) (index target : Nat) :
    (d.waitsOn index target = true ↔ Relation.TransGen
      (fun t i => (d.entry t).state.isDraft = true ∧ i ∈ (d.entry t).draft.waitingOn)
      index target) ∧
    (∀ fuel, d.edgeCount + 2 ≤ fuel →
      d.waitsOnFrom target fuel [index] [] = some (d.waitsOn index target)) ∧
    ∀ fuel b, d.waitsOnFrom target fuel [index] [] = some b → b = d.waitsOn index target := by
  refine ⟨Decoder.chain_iff_of_waitsOnFrom Decoder.waitsOnFrom_eq_waitsOn, fun fuel hfuel => ?_,
    fun _ _ => Decoder.eq_waitsOn_of_waitsOnFrom⟩
  obtain ⟨b, hb⟩ := Decoder.exists_waitsOnFrom index target hfuel
  rw [hb, Decoder.eq_waitsOn_of_waitsOnFrom hb]

end GraphRows
