import Mathlib
import GraphRows.Decoder.Feed

/-!
# Entries of a decoder, and statements about its work

What an entry is after a change is said once, for every change: later arguments look at entries only
through `entry` and never at the array behind it. An index without an entry looks like a pending
entry that nothing waits for, which is why most statements need no bound on the index.

`Ensures P m Q` says that `m` takes every state with `P` to a state with `Q`. A decoder never gives
up, so this is all there is to say about a piece of its work.
-/

namespace GraphRows

variable {i j : Nat}

/-- A new name hides no other. -/
theorem lookup_cons_of_lookup {ids : List (Nat × Nat)} {id n k : Nat} (hnew : ids.lookup id = none)
    (h : ids.lookup k = some j) : ((id, n) :: ids).lookup k = some j := by
  have : (k == id) = false := beq_false_of_ne fun hk => by simp [hk, hnew] at h
  rw [List.lookup_cons, this, h]

theorem lookup_of_lookup_cons {ids : List (Nat × Nat)} {id n k : Nat}
    (h : ((id, n) :: ids).lookup k = some j) : ids.lookup k = some j ∨ k = id ∧ j = n := by
  rw [List.lookup_cons] at h
  split at h
  · rename_i hk
    exact .inr ⟨eq_of_beq hk, (Option.some.inj h).symm⟩
  · exact .inl h

namespace Decoder

variable (d : Decoder)

theorem entry_eq_getElem (h : i < d.entries.size) : d.entry i = d.entries[i] := by
  simp [entry, h]

theorem entry_of_size_le (h : d.entries.size ≤ i) : d.entry i = { handle := 0 } := by
  simp [entry, h]

@[simp] theorem size_modifyEntry (i : Nat) (f : Entry → Entry) :
    (d.modifyEntry i f).entries.size = d.entries.size := by
  simp [modifyEntry]

theorem entry_modifyEntry (i : Nat) (f : Entry → Entry) (j : Nat) :
    (d.modifyEntry i f).entry j = if i = j ∧ i <
      d.entries.size then f (d.entry j) else d.entry j := by
  unfold modifyEntry entry
  rw [Array.getElem?_modify]
  by_cases hij : i = j
  · subst hij
    by_cases hi : i < d.entries.size <;> simp [hi]
  · simp [hij]

theorem entry_modifyEntry_self (f : Entry → Entry) (h : i < d.entries.size) :
    (d.modifyEntry i f).entry i = f (d.entry i) := by
  simp [entry_modifyEntry, h]

theorem entry_modifyEntry_ne (f : Entry → Entry) (h : i ≠ j) :
    (d.modifyEntry i f).entry j = d.entry j := by
  simp [entry_modifyEntry, h]

theorem entry_push (e : Entry) (j : Nat) :
    ({ d with entries := d.entries.push e } : Decoder).entry j = if j =
      d.entries.size then e else d.entry j := by
  unfold entry
  dsimp only
  rw [Array.getElem?_push]
  split
  · rfl
  · rfl

/-- An entry in any state but the first is there. -/
theorem lt_size_of_not_isPending (h : (d.entry i).state.isPending = false) :
    i < d.entries.size := by
  rcases Nat.lt_or_ge i d.entries.size with hi | hi
  · exact hi
  · rw [entry_of_size_le d hi] at h
    cases h

theorem lt_size_of_isTerminal (h : (d.entry i).state.isTerminal) : i < d.entries.size := by
  refine lt_size_of_not_isPending d ?_
  cases hs : (d.entry i).state <;> simp [hs, EntryState.isTerminal, EntryState.isPending] at h ⊢

end Decoder

namespace DecodeM

variable {α β : Type}

theorem decoder_bind (f : Decoder → DecodeM α) (x : Decoding) : (decoder >>= f) x = f x.decoder x :=
  rfl

/-- `m` takes every state with `P` to an answer and a state with `Q`. -/
def Ensures (P : Decoding → Prop) (m : DecodeM α) (Q : α → Decoding → Prop) : Prop :=
  ∀ x, P x → Q (m x).1 (m x).2

namespace Ensures

variable {P P' : Decoding → Prop} {Q Q' : α → Decoding → Prop} {m : DecodeM α}

theorem bind {f : α → DecodeM β} {R : β → Decoding → Prop} (hm : Ensures P m Q)
    (hf : ∀ a, Ensures (Q a) (f a) R) : Ensures P (m >>= f) R := fun x hx => hf _ _ (hm x hx)

theorem pure {a : α} (h : ∀ x, P x → Q a x) : Ensures P (Pure.pure a) Q := h

theorem pre (h : Ensures P m Q) (hP : ∀ x, P' x → P x) : Ensures P' m Q := fun x hx => h x (hP x hx)

theorem post (h : Ensures P m Q) (hQ : ∀ a y, Q a y → Q' a y) : Ensures P m Q' :=
  fun x hx => hQ _ _ (h x hx)

theorem and {S : Decoding → Prop} {R : α → Decoding → Prop} (h : Ensures P m Q)
    (h' : Ensures S m R) : Ensures (fun x => P x ∧ S x) m fun a y => Q a y ∧ R a y :=
  fun x hx => ⟨h x hx.1, h' x hx.2⟩

/-- To prove a statement, assume that its precondition can be met. -/
theorem of_exists (h : (∃ x, P x) → Ensures P m Q) : Ensures P m Q := fun x hx => h ⟨x, hx⟩ x hx

theorem decoder : Ensures P DecodeM.decoder fun d x => P x ∧ x.decoder = d := fun _ hx => ⟨hx, rfl⟩

theorem read {f : Decoder → DecodeM β} {R : β → Decoding → Prop} (h : ∀ d, Ensures P (f d) R) :
    Ensures P (DecodeM.decoder >>= f) R := fun x hx => h x.decoder x hx

theorem store : Ensures P DecodeM.store fun s x => P x ∧ x.store = s := fun _ hx => ⟨hx, rfl⟩

theorem modifyDecoder {f : Decoder → Decoder} {Q : Unit → Decoding → Prop}
    (h : ∀ x, P x → Q () { x with decoder := f x.decoder }) :
    Ensures P (DecodeM.modifyDecoder f) Q :=
  h

theorem modifyStore {f : Store → Store} {Q : Unit → Decoding → Prop}
    (h : ∀ x, P x → Q () { x with store := f x.store }) : Ensures P (DecodeM.modifyStore f) Q := h

theorem onStore {f : Store → α × Store}
    (h : ∀ x, P x → Q (f x.store).1 { x with store := (f x.store).2 }) :
    Ensures P (DecodeM.onStore f) Q :=
  h

/-- A loop over a list, with an invariant that knows what is left. -/
theorem forM {f : β → DecodeM Unit} {I : List β → Decoding → Prop}
    (h : ∀ b rest, Ensures (I (b :: rest)) (f b) fun _ => I rest) (l : List β) :
    Ensures (I l) (l.forM f) fun _ => I [] := by
  induction l with
  | nil => exact fun _ hx => hx
  | cons b l ih => exact .bind (h b l) fun _ => ih

end Ensures

end DecodeM

end GraphRows
