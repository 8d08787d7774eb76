import GraphRows.Proofs.Encoder.Accounts
import GraphRows.Proofs.Json.Mentions
import GraphRows.Proofs.Row.Framing

/-!
# What an encoder owes

Every id an encoder speaks of, in a row or in its tables, must get a row with a value, and every
stream it has opened must end. While it works, an id may be covered in three ways: its row is there,
a task is kept for it, or the work in progress is about to write it. `Covered` says so: `owed` are
the ids the work in progress answers for, `ends` the streams it has taken out and must end or give
back. Nothing in it depends on ids being distinct, on what is in the mailbox, or on what the store
holds.

`said` is a set of ids that are spoken of somewhere else, typically in a payload that is still being
put together. Carrying it along is what lets one statement per operation do for all callers.

The ledger is the accounts of all ids together with this. It is what rendering keeps.

## Main results

* `Ledger.push`, `Ledger.keepTask`, `Ledger.finish`, `Ledger.keepStream`: a debt is paid, or put
  where it is counted
* `Ledger.allocateRow`, `Ledger.takeTask`, `Ledger.takeStream`: the work in progress takes a debt
  over
* `Ledger.selfContained`: when nothing is pending, what went out speaks of nothing that has not gone
  out
-/

namespace GraphRows

variable {j : Json} {said' : Nat → Prop} {q : Queue} {r : Row} {body : RowBody} {t : Task}

namespace RowBody

/-- The payload of the row speaks of the row `id`. -/
def Mentions (id : Nat) : RowBody → Prop
  | .model j => j.Mentions id
  | .closing (some j) => j.Mentions id
  | _ => False

end RowBody

namespace Encoder

/-- The ids an encoder remembers. -/
def remembered (e : Encoder) : List Nat :=
  e.refs.values.filterMap (·.2.row?) ++ e.refs.servers.filterMap (·.2.row?) ++
    e.refs.symbols.map (·.2) ++ e.refs.clients.map (·.2) ++ e.fatal.toList

/-- An id the encoder has spoken of, or may still speak of from memory. -/
inductive Speaks (out : List Row) (e : Encoder) : Nat → Prop
  | root : Speaks out e 0
  | row {r : Row} {id : Nat} (hr : r ∈ e.allRows out) (h : r.body.Mentions id) : Speaks out e id
  | memory {id : Nat} (h : id ∈ e.remembered) : Speaks out e id

/-- The row `id` is written, kept as a task, or owed by the work in progress. -/
def Provides (out : List Row) (own : List Nat) (e : Encoder) (id : Nat) : Prop :=
  (∃ r ∈ e.allRows out, r.id = id ∧ r.body.isValue) ∨ (∃ t ∈ e.tasks, t.id = id) ∨ id ∈ own

/-- The stream `id`, opened before the rows `later`, has its end among them or behind them, is kept,
or is owed one. -/
def Ends (ends : List Nat) (e : Encoder) (id : Nat) (later : List Row) : Prop :=
  (∃ r ∈ later ++ e.errors, r.id = id ∧ r.body.isFinal) ∨ (∃ t ∈ e.streams, t.id = id) ∨ id ∈ ends

end Encoder

/-- Nothing is spoken of that is not provided for, and every stream is ended or will be. -/
structure Covered (said : Nat → Prop) (out : List Row) (owed ends : List Nat)
    (e : Encoder) : Prop where
  provides : ∀ id, e.Speaks out id ∨ said id → e.Provides out owed id
  opened : ∀ a r b, out ++ e.regular = a ++ r :: b → r.body.isOpening → e.Ends ends r.id b
  placed : ∀ r ∈ e.imports ++ e.hints ++ e.errors, r.body.isOpening = false
  sources : ∀ t ∈ e.streams, ∃ c, t.model = .cell c
  ready : ∀ t ∈ e.tasks, t.status = .pending
  safe : ∀ r ∈ e.allRows out, r.HintSafe

/-- The books are in order. -/
structure Ledger (said : Nat → Prop) (out : List Row) (own due ends : List Nat) (e : Encoder) : Prop
    extends Accounts out own due ends e, Covered said out (due ++ own) ends e

/-- Two encoders that differ in nothing that is covered or covers. -/
structure SameCover (e e' : Encoder) : Prop where
  remembered : e'.remembered = e.remembered := by rfl
  tasks : e'.tasks = e.tasks := by rfl
  streams : e'.streams = e.streams := by rfl
  imports : e'.imports = e.imports := by rfl
  hints : e'.hints = e.hints := by rfl
  regular : e'.regular = e.regular := by rfl
  errors : e'.errors = e.errors := by rfl

/-- Two encoders that differ in nothing the ledger looks at. -/
structure SameBooks (e e' : Encoder) : Prop extends SameCover e e' where
  pending : e'.pending = e.pending := by rfl
  abortable : e'.abortable = e.abortable := by rfl
  nextId : e'.refs.nextId = e.refs.nextId := by rfl

namespace Encoder

variable {out : List Row} {owed ends : List Nat} {e e' : Encoder} {id : Nat}

theorem mem_allRows_push {r' : Row} :
    r' ∈ (e.push q r).allRows out ↔ r' ∈ e.allRows out ∨ r' = r := by
  cases q <;> simp only [push, allRows, List.mem_append, List.mem_singleton] <;> grind

theorem Provides.push (h : e.Provides out owed id) (q : Queue) (r : Row) :
    (e.push q r).Provides out owed id := by
  rcases h with ⟨s, hs, h⟩ | ⟨t, ht, h⟩ | h
  · exact .inl ⟨s, mem_allRows_push.mpr (.inl hs), h⟩
  · exact .inr (.inl ⟨t, by cases q <;> exact ht, h⟩)
  · exact .inr (.inr h)

/-- What an encoder speaks of hangs on its rows and its tables only. -/
theorem Speaks.of_same (h : e'.Speaks out id) (hmemory : e'.remembered = e.remembered)
    (hrows : ∀ r ∈ e'.allRows out, r.body.Mentions id → r ∈ e.allRows out) : e.Speaks out id := by
  cases h with
  | root => exact .root
  | row hr h => exact .row (hrows _ hr h) h
  | memory h => exact .memory (hmemory ▸ h)

/-- What an encoder speaks of after a row was queued. -/
theorem Speaks.of_push (h : (e.push q r).Speaks out id) :
    e.Speaks out id ∨ r.body.Mentions id := by
  by_cases hr : r.body.Mentions id
  · exact .inr hr
  · refine .inl (h.of_same (by cases q <;> rfl) fun r' hr' hm => ?_)
    rcases mem_allRows_push.mp hr' with hr' | rfl
    · exact hr'
    · exact absurd hm hr

end Encoder

theorem mem_of_lookup {κ ν : Type} [BEq κ] [LawfulBEq κ] {l : List (κ × ν)} {k : κ} {v : ν}
    (h : l.lookup k = some v) : (k, v) ∈ l := by
  obtain ⟨front, back, rfl, -⟩ := List.lookup_eq_some_iff.mp h
  exact List.mem_append_right _ List.mem_cons_self

namespace RefTable

variable (refs : RefTable Token) (v : Value) (t : Token)

theorem nextId_record : (refs.record v t).nextId = refs.nextId := by
  unfold RefTable.record
  split <;> rfl

theorem nextId_recordServer : (refs.recordServer v t).nextId = refs.nextId := by
  unfold RefTable.recordServer
  split <;> rfl

end RefTable

namespace Encoder

variable {e : Encoder} {v : Value} {t : Token} {name : String} {id n : Nat}

/-! ### What is remembered -/

theorem mem_remembered_record (h : n ∈ (e.record v t).remembered) :
    n ∈ e.remembered ∨ t.row? = some n := by
  unfold Encoder.record RefTable.record at h
  split at h <;>
    simp only [remembered, List.mem_append, List.mem_filterMap, List.mem_cons] at h ⊢ <;> grind

theorem mem_remembered_recordServer
    (h : n ∈ { e with refs := e.refs.recordServer v t }.remembered) :
    n ∈ e.remembered ∨ t.row? = some n := by
  unfold RefTable.recordServer at h
  split at h <;>
    simp only [remembered, List.mem_append, List.mem_filterMap, List.mem_cons] at h ⊢ <;> grind

theorem mem_remembered_recordSymbol
    (h : n ∈ { e with refs := e.refs.recordSymbol name id }.remembered) :
    n ∈ e.remembered ∨ n = id := by
  simp only [RefTable.recordSymbol, remembered, List.map_cons, List.mem_append,
    List.mem_cons] at h ⊢
  grind

theorem mem_remembered_recordClient
    (h : n ∈ { e with refs := e.refs.recordClient name id }.remembered) :
    n ∈ e.remembered ∨ n = id := by
  simp only [RefTable.recordClient, remembered, List.map_cons, List.mem_append,
    List.mem_cons] at h ⊢
  grind

theorem mem_remembered_symbol (h : e.refs.symbol? name = some id) : id ∈ e.remembered := by
  have hmem := mem_of_lookup h
  simp only [remembered, List.mem_append, List.mem_map]
  exact .inl (.inl (.inr ⟨_, hmem, rfl⟩))

theorem mem_remembered_client (h : e.refs.client? name = some id) : id ∈ e.remembered := by
  have hmem := mem_of_lookup h
  simp only [remembered, List.mem_append, List.mem_map]
  exact .inl (.inr ⟨_, hmem, rfl⟩)

theorem mem_remembered_of_get? (h : e.refs.get? v = some t) (hn : t.row? = some n) :
    n ∈ e.remembered := by
  obtain ⟨c, -, hlookup⟩ := Option.bind_eq_some_iff.mp h
  simp only [remembered, List.mem_append, List.mem_filterMap]
  exact .inl (.inl (.inl (.inl ⟨_, mem_of_lookup hlookup, hn⟩)))

theorem mem_remembered_of_server? (h : e.refs.server? v = some t) (hn : t.row? = some n) :
    n ∈ e.remembered := by
  obtain ⟨c, -, hlookup⟩ := Option.bind_eq_some_iff.mp h
  simp only [remembered, List.mem_append, List.mem_filterMap]
  exact .inl (.inl (.inl (.inr ⟨_, mem_of_lookup hlookup, hn⟩)))

end Encoder

namespace Covered

open Encoder

variable {said : Nat → Prop} {out : List Row} {owed ends : List Nat} {e e' : Encoder} {id : Nat}

/-! ### Changes that are not seen -/

theorem congr (C : Covered said out owed ends e) (h : SameCover e e') :
    Covered said out owed ends e' := by
  have hrows : e'.allRows out = e.allRows out := by
    simp only [allRows, h.imports, h.hints, h.regular, h.errors]
  have hspeaks : ∀ id, e'.Speaks out id → e.Speaks out id :=
    fun id hid => hid.of_same h.remembered fun r hr _ => hrows ▸ hr
  refine ⟨fun id hid => ?_, ?_, ?_, ?_, ?_, ?_⟩
  · have := C.provides id (hid.imp_left (hspeaks id))
    rwa [Provides, hrows, h.tasks]
  · simpa only [Ends, h.regular, h.errors, h.streams] using C.opened
  · simpa only [h.imports, h.hints, h.errors] using C.placed
  · simpa only [h.streams] using C.sources
  · simpa only [h.tasks] using C.ready
  · simpa only [hrows] using C.safe

/-- What is spoken of elsewhere may change, as long as it is provided for. -/
theorem imp (C : Covered said out owed ends e)
    (h : ∀ id, said' id → said id ∨ e.Provides out owed id) : Covered said' out owed ends e := by
  refine { C with provides := fun id hid => ?_ }
  rcases hid with hid | hid
  · exact C.provides id (.inl hid)
  · exact (h id hid).elim (fun h => C.provides id (.inr h)) fun h => h

/-! ### Rows -/

/-- A place in a list with one more at the end is the end, or a place before it. -/
theorem append_singleton_eq_split {α : Type} {l a b : List α} {x y : α}
    (h : l ++ [x] = a ++ y :: b) : (b = [] ∧ x = y) ∨ ∃ b', b = b' ++ [x] ∧ l = a ++ y :: b' := by
  rcases List.eq_nil_or_concat b with rfl | ⟨b', last, rfl⟩
  · have := (List.append_inj' h rfl).2
    exact .inl ⟨rfl, by simpa using this⟩
  · rw [List.concat_eq_append, ← List.cons_append, ← List.append_assoc] at h
    obtain ⟨hinit, hlast⟩ := List.append_inj' h rfl
    obtain rfl : x = last := by simpa using hlast
    exact .inr ⟨b', List.concat_eq_append, hinit⟩

/-- Streams that are open stay open or ended when a row is queued that opens none. -/
theorem opened_push (C : Covered said out owed ends e) (q : Queue) (r : Row)
    (hr : r.body.isOpening = false) :
    ∀ a r' b, out ++ (e.push q r).regular = a ++ r' :: b → r'.body.isOpening →
      (e.push q r).Ends ends r'.id b := by
  intro a r' b hsplit hopen
  have wider : ∀ later, (∀ x, x ∈ later → x ∈ b ∨ x ∈ (e.push q r).errors) →
      (∀ x ∈ e.errors, x ∈ (e.push q r).errors) →
      e.Ends ends r'.id later → (e.push q r).Ends ends r'.id b := by
    intro later hlater herrors hends
    rcases hends with ⟨x, hx, h⟩ | h | h
    · refine .inl ⟨x, List.mem_append.mpr ?_, h⟩
      rcases List.mem_append.mp hx with hx | hx
      · exact hlater x hx
      · exact .inr (herrors x hx)
    · exact .inr (.inl (by cases q <;> exact h))
    · exact .inr (.inr h)
  have same : (e.push q r).regular = e.regular → (e.push q r).Ends ends r'.id b := by
    intro hreg
    rw [hreg] at hsplit
    refine wider b (fun x hx => .inl hx) (fun x hx => ?_) (C.opened a r' b hsplit hopen)
    cases q <;> simp only [push, List.mem_append] <;> first | exact hx | exact .inl hx
  cases q with
  | imports => exact same rfl
  | hints => exact same rfl
  | errors => exact same rfl
  | regular =>
    -- the new row is the last one, so the stream was opened before it
    rw [Encoder.push, ← List.append_assoc] at hsplit
    rcases append_singleton_eq_split hsplit with ⟨-, rfl⟩ | ⟨b', rfl, hinit⟩
    · simp [hr] at hopen
    · exact wider b' (fun x hx => .inl (by simp [hx])) (fun x hx => hx)
        (C.opened a r' b' hinit hopen)

/-- Queueing a row that opens nothing, with the debts it pays left open. -/
theorem push_of (C : Covered said out owed ends e) (q : Queue) (r : Row) {owed' ends' : List Nat}
    (hr : r.body.isOpening = false) (hsafe : r.HintSafe)
    (hm : ∀ n, r.body.Mentions n → e.Provides out owed n)
    (hprovides : ∀ n, (e.push q r).Provides out owed n → (e.push q r).Provides out owed' n)
    (hends : ∀ a r' b, out ++ (e.push q r).regular = a ++ r' :: b → r'.body.isOpening →
      (e.push q r).Ends ends r'.id b → (e.push q r).Ends ends' r'.id b) :
    Covered said out owed' ends' (e.push q r) := by
  have hkeep : (e.push q r).streams = e.streams ∧ (e.push q r).tasks = e.tasks := by
    cases q <;> exact ⟨rfl, rfl⟩
  refine ⟨fun id hid => hprovides id ?_, ?_, ?_, ?_, ?_, ?_⟩
  · rcases hid with hid | hid
    · rcases hid.of_push with hid | hid
      · exact (C.provides id (.inl hid)).push q r
      · exact (hm id hid).push q r
    · exact (C.provides id (.inr hid)).push q r
  · exact fun a r' b hsplit hopen => hends a r' b hsplit hopen
      (C.opened_push q r hr a r' b hsplit hopen)
  · intro r' hr'
    have : r' ∈ e.imports ++ e.hints ++ e.errors ∨ r' = r := by
      cases q <;> simp only [push, List.mem_append, List.mem_singleton] at hr' ⊢ <;> grind
    rcases this with h | rfl
    · exact C.placed r' h
    · exact hr
  · rw [hkeep.1]
    exact C.sources
  · rw [hkeep.2]
    exact C.ready
  · intro r' hr'
    rcases mem_allRows_push.mp hr' with h | rfl
    · exact C.safe r' h
    · exact hsafe

/-- A row that is owed is queued. -/
theorem push (C : Covered said out (id :: owed) ends e) (q : Queue) (body : RowBody)
    (hvalue : body.isValue) (hopen : body.isOpening = false) (hsafe : Row.HintSafe ⟨id, body⟩)
    (hm : ∀ n, body.Mentions n → e.Provides out (id :: owed) n) :
    Covered said out owed ends (e.push q ⟨id, body⟩) := by
  refine C.push_of q _ hopen hsafe hm (fun n hn => ?_) (fun _ _ _ _ _ h => h)
  rcases hn with h | h | h
  · exact .inl h
  · exact .inr (.inl h)
  · rcases List.mem_cons.mp h with rfl | h
    · exact .inl ⟨_, mem_allRows_push.mpr (.inr rfl), rfl, hvalue⟩
    · exact .inr (.inr h)

/-- A row behind the last regular one, or among the errors, goes out later than any stream that is
open. -/
theorem mem_later {r' : Row} {a b : List Row} (hq : q = .regular ∨ q = .errors)
    (hr : r.body.isOpening = false) (hsplit : out ++ (e.push q r).regular = a ++ r' :: b)
    (hr' : r'.body.isOpening) : r ∈ b ++ (e.push q r).errors := by
  rcases hq with rfl | rfl
  · rw [Encoder.push, ← List.append_assoc] at hsplit
    rcases append_singleton_eq_split hsplit with ⟨-, rfl⟩ | ⟨b', rfl, -⟩
    · simp [hr] at hr'
    · exact List.mem_append_left _ (by simp)
  · exact List.mem_append_right _ (by simp [Encoder.push])

/-- The end of a stream is queued. It may be a row of any queue but the first two: those go out
before the row that opened the stream. -/
theorem finish (C : Covered said out owed (id :: ends) e) (hq : q = .regular ∨ q = .errors)
    (hfinal : body.isFinal) (hm : ∀ n, body.Mentions n → e.Provides out owed n) :
    Covered said out owed ends (e.push q ⟨id, body⟩) := by
  have hopen : body.isOpening = false := by cases body <;> first | rfl | cases hfinal
  have hsafe : Row.HintSafe ⟨id, body⟩ := by
    rintro c j rfl
    cases hfinal
  refine C.push_of q _ hopen hsafe hm (fun _ h => h) (fun a r' b hsplit hr' h => ?_)
  rcases h with h | h | h
  · exact .inl h
  · exact .inr (.inl h)
  · rcases List.mem_cons.mp h with h | h
    · exact .inl ⟨⟨id, body⟩, mem_later hq hopen hsplit hr', h.symm, hfinal⟩
    · exact .inr (.inr h)

/-- An item of a stream is queued. -/
theorem pushItem (C : Covered said out owed ends e) (hitem : body.isItem)
    (hm : ∀ n, body.Mentions n → e.Provides out owed n) :
    Covered said out owed ends (e.push .regular ⟨id, body⟩) := by
  have hopen : body.isOpening = false := by cases body <;> first | rfl | cases hitem
  have hsafe : Row.HintSafe ⟨id, body⟩ := by
    rintro c j rfl
    cases hitem
  exact C.push_of .regular _ hopen hsafe hm (fun _ h => h) (fun _ _ _ _ _ h => h)

/-- A hint is queued. -/
theorem pushHint (C : Covered said out owed ends e) {c : Char} (hc : c ≠ '\n') :
    Covered said out owed ends (e.push .hints ⟨id, .hint c j⟩) := by
  have hsafe : Row.HintSafe ⟨id, .hint c j⟩ := by
    rintro c' j' h
    cases h
    exact hc
  exact C.push_of .hints _ rfl hsafe (fun _ h => h.elim) (fun _ h => h) (fun _ _ _ _ _ h => h)

/-- A stream is opened: its first row is queued, and from now on its end is owed. -/
theorem pushOpening (C : Covered said out (id :: owed) ends e) (kind : StreamKind) :
    Covered said out owed (id :: ends) (e.push .regular ⟨id, .opening kind⟩) := by
  have hrows : ∀ r, r ∈ (e.push .regular ⟨id, .opening kind⟩).allRows out ↔
      r ∈ e.allRows out ∨ r = ⟨id, .opening kind⟩ := fun r => mem_allRows_push
  refine ⟨fun n hn => ?_, ?_, C.placed, C.sources, C.ready, ?_⟩
  · have hold : e.Provides out (id :: owed) n := by
      refine C.provides n (hn.imp_left fun hn => hn.of_same rfl fun r hr hm => ?_)
      rcases (hrows r).mp hr with hr | rfl
      · exact hr
      · exact hm.elim
    rcases hold with ⟨r, hr, h⟩ | h | h
    · exact .inl ⟨r, (hrows r).mpr (.inl hr), h⟩
    · exact .inr (.inl h)
    · rcases List.mem_cons.mp h with rfl | h
      · exact .inl ⟨_, (hrows _).mpr (.inr rfl), rfl, rfl⟩
      · exact .inr (.inr h)
  · intro a r b hsplit hopen
    rw [Encoder.push, ← List.append_assoc] at hsplit
    rcases append_singleton_eq_split hsplit with ⟨-, rfl⟩ | ⟨b', rfl, hinit⟩
    · exact .inr (.inr List.mem_cons_self)
    · rcases C.opened a r b' hinit hopen with ⟨x, hx, h⟩ | h | h
      · refine .inl ⟨x, ?_, h⟩
        rcases List.mem_append.mp hx with hx | hx
        · exact List.mem_append_left _ (by simp [hx])
        · exact List.mem_append_right _ hx
      · exact .inr (.inl h)
      · exact .inr (.inr (List.mem_cons_of_mem _ h))
  · intro r hr
    rcases (hrows r).mp hr with hr | rfl
    · exact C.safe r hr
    · rintro c j ⟨⟩

/-! ### Tasks and streams -/

/-- The work in progress answers for one more row. -/
theorem owe (C : Covered said out owed ends e) (id : Nat) :
    Covered said out (id :: owed) ends e := by
  refine ⟨fun n hn => ?_, C.opened, C.placed, C.sources, C.ready, C.safe⟩
  exact (C.provides n hn).imp_right (Or.imp_right (List.mem_cons_of_mem id))

/-- A task is kept for a row that is owed. -/
theorem keepTask (C : Covered said out (t.id :: owed) ends e) (ht : t.status = .pending) :
    Covered said out owed ends (e.keepTask t) := by
  refine ⟨fun n hn => ?_, C.opened, C.placed, C.sources,
    List.forall_mem_cons.mpr ⟨ht, C.ready⟩, C.safe⟩
  rcases C.provides n
    (hn.imp_left fun hn => hn.of_same rfl fun r hr _ => hr) with h | ⟨u, hu, h⟩ | h
  · exact .inl h
  · exact .inr (.inl ⟨u, List.mem_cons_of_mem t hu, h⟩)
  · rcases List.mem_cons.mp h with rfl | h
    · exact .inr (.inl ⟨t, List.mem_cons_self, rfl⟩)
    · exact .inr (.inr h)

/-- The work in progress takes the tasks of an id over. -/
theorem takeTask (C : Covered said out owed ends e) (id : Nat) :
    Covered said out (id :: owed) ends { e with tasks := e.tasks.filter (·.id != id) } := by
  refine ⟨fun n hn => ?_, C.opened, C.placed, C.sources,
    fun t ht => C.ready t (List.mem_filter.mp ht).1, C.safe⟩
  rcases C.provides n
    (hn.imp_left fun hn => hn.of_same rfl fun r hr _ => hr) with h | ⟨t, ht, h⟩ | h
  · exact .inl h
  · by_cases hid : t.id = id
    · exact .inr (.inr (by simp [← h, hid]))
    · exact .inr (.inl ⟨t, List.mem_filter.mpr ⟨ht, by simpa using hid⟩, h⟩)
  · exact .inr (.inr (List.mem_cons_of_mem _ h))

theorem mem_insertTask {u : Task} {ts : List Task} (h : u ∈ insertTask t ts) : u = t ∨ u ∈ ts := by
  induction ts with
  | nil => simpa [insertTask] using h
  | cons v ts ih =>
    rw [insertTask] at h
    split at h
    · simpa using h
    · split at h
      · rcases List.mem_cons.mp h with rfl | h
        · exact .inl rfl
        · exact .inr (List.mem_cons_of_mem _ h)
      · rcases List.mem_cons.mp h with rfl | h
        · exact .inr List.mem_cons_self
        · exact (ih h).imp_right (List.mem_cons_of_mem _)

/-- An inserted stream is there, and no id is lost by inserting it. -/
theorem exists_mem_insertTask (t : Task) {ts : List Task} {n : Nat}
    (h : n = t.id ∨ ∃ u ∈ ts, u.id = n) : ∃ u ∈ insertTask t ts, u.id = n := by
  induction ts with
  | nil =>
    obtain rfl : n = t.id := by simpa using h
    exact ⟨t, by simp [insertTask], rfl⟩
  | cons v ts ih =>
    rw [insertTask]
    split
    · rcases h with rfl | ⟨u, hu, rfl⟩
      · exact ⟨t, List.mem_cons_self, rfl⟩
      · exact ⟨u, List.mem_cons_of_mem _ hu, rfl⟩
    · split
      · rename_i heq
        rw [beq_iff_eq] at heq
        rcases h with rfl | ⟨u, hu, rfl⟩
        · exact ⟨t, List.mem_cons_self, rfl⟩
        · rcases List.mem_cons.mp hu with rfl | hu
          · exact ⟨t, List.mem_cons_self, heq⟩
          · exact ⟨u, List.mem_cons_of_mem _ hu, rfl⟩
      · rcases h with rfl | ⟨u, hu, rfl⟩
        · obtain ⟨w, hw, hid⟩ := ih (.inl rfl)
          exact ⟨w, List.mem_cons_of_mem _ hw, hid⟩
        · rcases List.mem_cons.mp hu with rfl | hu
          · exact ⟨u, List.mem_cons_self, rfl⟩
          · obtain ⟨w, hw, hid⟩ := ih (.inr ⟨u, hu, rfl⟩)
            exact ⟨w, List.mem_cons_of_mem _ hw, hid⟩

/-- A stream that is owed its end is kept. -/
theorem keepStream (C : Covered said out owed (t.id :: ends) e) (ht : ∃ c, t.model = .cell c) :
    Covered said out owed ends (e.keepStream t) := by
  refine ⟨fun n hn => C.provides n (hn.imp_left fun hn => hn.of_same rfl fun r hr _ => hr), ?_,
    C.placed, ?_, C.ready, C.safe⟩
  · intro a r b hsplit hopen
    rcases C.opened a r b hsplit hopen with h | h | h
    · exact .inl h
    · exact .inr (.inl (exists_mem_insertTask t (.inr h)))
    · rcases List.mem_cons.mp h with h | h
      · exact .inr (.inl (exists_mem_insertTask t (.inl h)))
      · exact .inr (.inr h)
  · intro u hu
    rcases mem_insertTask hu with rfl | hu
    · exact ht
    · exact C.sources u hu

/-- The work in progress takes the streams of an id over. -/
theorem takeStream (C : Covered said out owed ends e) (id : Nat) :
    Covered said out owed (id :: ends) { e with streams := e.streams.filter (·.id != id) } := by
  refine ⟨fun n hn => C.provides n (hn.imp_left fun hn => hn.of_same rfl fun r hr _ => hr), ?_,
    C.placed, ?_, C.ready, C.safe⟩
  · intro a r b hsplit hopen
    rcases C.opened a r b hsplit hopen with h | ⟨t, ht, h⟩ | h
    · exact .inl h
    · by_cases hid : t.id = id
      · exact .inr (.inr (by simp [← h, hid]))
      · exact .inr (.inl ⟨t, List.mem_filter.mpr ⟨ht, by simpa using hid⟩, h⟩)
    · exact .inr (.inr (List.mem_cons_of_mem _ h))
  · exact fun t ht => C.sources t (List.mem_filter.mp ht).1

/-- The work in progress takes all streams over. -/
theorem takeStreams (C : Covered said out owed [] e) :
    Covered said out owed e.streamIds { e with streams := [] } := by
  refine ⟨fun n hn => C.provides n (hn.imp_left fun hn => hn.of_same rfl fun r hr _ => hr), ?_,
    C.placed, fun t ht => absurd ht List.not_mem_nil, C.ready, C.safe⟩
  intro a r b hsplit hopen
  rcases C.opened a r b hsplit hopen with h | ⟨t, ht, h⟩ | h
  · exact .inl h
  · exact .inr (.inr (List.mem_map.mpr ⟨t, ht, h⟩))
  · exact absurd h List.not_mem_nil

/-! ### Memory -/

/-- Ids that are provided for may be remembered. -/
theorem remember (C : Covered said out owed ends e) {refs : RefTable Token} {fatal : Option Nat}
    (h : ∀ n ∈ { e with refs, fatal }.remembered, n ∈ e.remembered ∨ e.Provides out owed n) :
    Covered said out owed ends { e with refs, fatal } := by
  refine ⟨fun n hn => ?_, C.opened, C.placed, C.sources, C.ready, C.safe⟩
  rcases hn with hn | hn
  · cases hn with
    | root => exact C.provides 0 (.inl .root)
    | row hr hm => exact C.provides n (.inl (.row hr hm))
    | memory hn => exact (h n hn).elim (fun h => C.provides n (.inl (.memory h))) fun h => h
  · exact C.provides n (.inr hn)

end Covered

namespace Ledger

open Encoder

variable {said : Nat → Prop} {out : List Row} {own due ends : List Nat} {e e' : Encoder} {id : Nat}

/-! ### Changes the ledger does not see -/

theorem congr (L : Ledger said out own due ends e) (h : SameBooks e e') :
    Ledger said out own due ends e' := by
  refine ⟨⟨?_, ?_, fun id => ?_⟩, L.toCovered.congr h.toSameCover⟩
  · simpa only [debt, h.tasks, h.streams, h.imports, h.regular, h.errors, h.pending] using L.pending
  · simpa only [h.abortable, taskIds, h.tasks] using L.abortable
  · have hsame : e'.standing out own due ends id = e.standing out own due ends id := by
      simp only [standing, allRows, taskIds, streamIds, h.imports, h.hints, h.regular, h.errors,
        h.tasks, h.streams]
    rw [hsame, h.nextId]
    exact L.account id

/-- What is spoken of elsewhere may change, as long as it is provided for. -/
theorem imp (L : Ledger said out own due ends e)
    (h : ∀ id, said' id → said id ∨ e.Provides out (due ++ own) id) :
    Ledger said' out own due ends e :=
  ⟨L.toAccounts, L.toCovered.imp h⟩

theorem weaken (L : Ledger said out own due ends e) (h : ∀ id, said' id → said id) :
    Ledger said' out own due ends e := L.imp fun id hid => .inl (h id hid)

/-! ### Rows -/

/-- **A row that is owed is queued.** -/
theorem push (L : Ledger said out own (id :: due) ends e) (q : Queue) (body : RowBody)
    (hq : q ≠ .hints) (hvalue : body.isValue) (hopen : body.isOpening = false)
    (hsafe : Row.HintSafe ⟨id, body⟩)
    (hm : ∀ n, body.Mentions n → e.Provides out (id :: due ++ own) n) :
    Ledger said out own due ends (e.push q ⟨id, body⟩) :=
  ⟨L.toAccounts.push hq (RowBody.isWhole_of_isValue hvalue hopen), L.toCovered.push q body hvalue
    hopen hsafe hm⟩

/-- **The end of a stream is queued.** -/
theorem finish (L : Ledger said out own due (id :: ends) e) (hq : q = .regular ∨ q = .errors)
    (hfinal : body.isFinal) (hm : ∀ n, body.Mentions n → e.Provides out (due ++ own) n) :
    Ledger said out own due ends (e.push q ⟨id, body⟩) :=
  ⟨L.toAccounts.finish hq hfinal, L.toCovered.finish hq hfinal hm⟩

/-- **An item of a stream is queued.** -/
theorem pushItem (L : Ledger said out own due (id :: ends) e) (hitem : body.isItem)
    (hm : ∀ n, body.Mentions n → e.Provides out (due ++ own) n) :
    Ledger said out own due (id :: ends) ({ e with pending := e.pending + 1 }.push
      .regular ⟨id, body⟩) :=
  ⟨L.toAccounts.pushItem hitem, (L.toCovered.pushItem hitem hm).congr {}⟩

/-- **A stream is opened**: its first row is queued, and from now on its end is owed. -/
theorem pushOpening (L : Ledger said out own (id :: due) ends e) (kind : StreamKind) :
    Ledger said out own due (id :: ends) ({ e with pending := e.pending + 1 }.push .regular ⟨id,
      .opening kind⟩) :=
  ⟨L.toAccounts.pushOpening kind, (L.toCovered.pushOpening kind).congr {}⟩

/-- A hint is queued under an id of its own. It is owed to nobody. -/
theorem pushHint (L : Ledger said out own due ends e) {c : Char} (hc : c ≠ '\n') :
    Ledger said out own due ends ({ e with refs := e.refs.fresh.2 }.push .hints ⟨e.refs.nextId,
      .hint c j⟩) :=
  ⟨L.toAccounts.pushFresh rfl, (L.toCovered.pushHint hc).congr {}⟩

/-! ### Tasks and streams -/

/-- A row that is owed becomes a task under way, which an abort has to answer for. -/
theorem undertake (L : Ledger said out own [id] ends e) :
    Ledger said out (id :: own) [] ends (e.makeAbortable id) :=
  ⟨L.toAccounts.undertake, L.toCovered.congr {}⟩

/-- **A task under way is done with but for its row**, and an abort need not answer for it. -/
theorem release (L : Ledger said out (id :: own) [] ends e) :
    Ledger said out own [id] ends (e.dropAbortable id) :=
  ⟨L.toAccounts.release, L.toCovered.congr {}⟩

/-- **A task under way is kept.** -/
theorem keepTask (L : Ledger said out (t.id :: own) [] ends e) (ht : t.status = .pending) :
    Ledger said out own [] ends (e.keepTask t) :=
  ⟨L.toAccounts.keepTask, L.toCovered.keepTask ht⟩

/-- **The work in progress takes a task over.** -/
theorem takeTask (L : Ledger said out own [] ends e) (h : e.takeTask id = (some t, e')) :
    t.id = id ∧ t.status = .pending ∧ Ledger said out (id :: own) [] ends e' := by
  unfold Encoder.takeTask at h
  split at h
  case h_2 => simp at h
  rename_i u hu
  obtain ⟨rfl, rfl⟩ : u = t ∧ { e with tasks := e.tasks.filter (·.id != id) } =
    e' := by simpa using h
  obtain rfl : u.id = id := by simpa using List.find?_some hu
  have hmem := List.mem_of_find?_eq_some hu
  exact ⟨rfl, L.ready u hmem, L.toAccounts.takeTask hmem, L.toCovered.takeTask u.id⟩

/-- No task is taken only if none has the id. -/
theorem takeTask_none (h : e.takeTask id = (none, e')) : e' = e ∧ id ∉ e.taskIds := by
  unfold Encoder.takeTask at h
  split at h
  · simp at h
  · rename_i hnone
    refine ⟨(Prod.mk.inj h).2.symm, fun hid => ?_⟩
    obtain ⟨t, ht, rfl⟩ := List.mem_map.mp hid
    exact absurd (List.find?_eq_none.mp hnone t ht) (by simp)

/-- **A stream that is owed its end is kept.** -/
theorem keepStream (L : Ledger said out own due (t.id :: ends) e) (ht : ∃ c, t.model = .cell c) :
    Ledger said out own due ends (e.keepStream t) :=
  ⟨L.toAccounts.keepStream, L.toCovered.keepStream ht⟩

/-- **The work in progress takes a stream over.** -/
theorem takeStream (L : Ledger said out own due ends e) (h : e.takeStream id = (some t, e')) :
    t.id = id ∧ (∃ c, t.model = .cell c) ∧ Ledger said out own due (id :: ends) e' := by
  unfold Encoder.takeStream at h
  split at h
  case h_2 => simp at h
  rename_i u hu
  obtain ⟨rfl, rfl⟩ : u = t ∧ { e with streams := e.streams.filter (·.id != id) } =
    e' := by simpa using h
  obtain rfl : u.id = id := by simpa using List.find?_some hu
  have hmem := List.mem_of_find?_eq_some hu
  exact ⟨rfl, L.sources u hmem, L.toAccounts.takeStream hmem, L.toCovered.takeStream u.id⟩

theorem takeStream_none (h : e.takeStream id = (none, e')) : e' = e := by
  unfold Encoder.takeStream at h
  split at h
  · simp at h
  · exact (Prod.mk.inj h).2.symm

/-- The work in progress takes all streams over. -/
theorem takeStreams (L : Ledger said out own due [] e) :
    Ledger said out own due e.streamIds { e with streams := [] } :=
  ⟨L.toAccounts.takeStreams, L.toCovered.takeStreams⟩

/-! ### Memory -/

/-- Ids that are provided for may be remembered. -/
theorem remember (L : Ledger said out own due ends e) {refs : RefTable Token} {fatal : Option Nat}
    (hnext : refs.nextId = e.refs.nextId)
    (h : ∀ n ∈ { e with refs, fatal }.remembered,
      n ∈ e.remembered ∨ e.Provides out (due ++ own) n) :
    Ledger said out own due ends { e with refs, fatal } :=
  ⟨⟨L.pending, L.abortable, fun id => hnext ▸ L.account id⟩, L.toCovered.remember h⟩

theorem record (L : Ledger said out own due ends e) (v : Value) {t : Token}
    (ht : ∀ n, t.row? = some n → e.Provides out (due ++ own) n) :
    Ledger said out own due ends (e.record v t) :=
  L.remember (RefTable.nextId_record _ v t) fun n hn => (mem_remembered_record hn).imp_right (ht n)

theorem setFatal (L : Ledger said out own due ends e) (id : Nat)
    (h : e.Provides out (due ++ own) id) :
    Ledger said out own due ends { e with fatal := some id } := by
  refine @remember _ _ _ _ _ _ L e.refs (some id) rfl fun n hn => ?_
  have : n ∈ e.remembered ∨ n = id := by
    simp only [remembered, List.mem_append, Option.mem_toList] at hn ⊢
    grind
  exact this.imp_right (by rintro rfl; exact h)

/-! ### Compound operations -/

/-- **The work in progress answers for a new id.** -/
theorem allocateRow (L : Ledger said out own due ends e) :
    Ledger said out own (e.allocateRow.1 :: due) ends e.allocateRow.2 :=
  ⟨L.toAccounts.allocateRow, (L.toCovered.owe e.allocateRow.1).congr {}⟩

/-- **A new task is under way.** -/
theorem createTask (L : Ledger said out own [] ends e) (model : Value) (recalled : List CellId) :
    Ledger said out ((e.createTask model recalled).1.id :: own) [] ends
      (e.createTask model recalled).2 := by
  refine (L.allocateRow.record model (t := .row { row := e.allocateRow.1 })
    fun n hn => ?_).undertake
  obtain rfl := Option.some.inj hn
  exact .inr (.inr List.mem_cons_self)

/-- The row of a rejection: it has a value, ends a stream, and speaks of nothing. -/
theorem exists_emitRejection (e : Encoder) (s : Store) (id : Nat) (reason : Rejection) :
    ∃ e₁ body, SameBooks e e₁ ∧ (e.emitRejection s id reason).1 = e₁.push .errors ⟨id, body⟩ ∧
      body.isValue ∧ body.isFinal ∧ ∀ n, ¬ body.Mentions n := by
  cases reason with
  | postpone r => exact ⟨e, _, {}, rfl, rfl, rfl, fun n hn => hn⟩
  | error cause =>
    unfold Encoder.emitRejection Encoder.reportError
    cases e.digest <;> exact ⟨_, _, {}, rfl, rfl, rfl, fun n hn => hn⟩

theorem emitRejection (L : Ledger said out own (id :: due) ends e) (s : Store)
    (reason : Rejection) : Ledger said out own due ends (e.emitRejection s id reason).1 := by
  obtain ⟨e₁, body, hsame, heq, hvalue, hfinal, hm⟩ := exists_emitRejection e s id reason
  rw [heq]
  refine (L.congr hsame).push .errors body (by decide) hvalue ?_ ?_ fun n hn => absurd hn (hm n)
  · cases body <;> first | rfl | cases hfinal
  · rintro c j rfl
    cases hfinal

/-- A stream ends with a rejection. -/
theorem emitEnd (L : Ledger said out own due (id :: ends) e) (s : Store) (reason : Rejection) :
    Ledger said out own due ends (e.emitRejection s id reason).1 := by
  obtain ⟨e₁, body, hsame, heq, -, hfinal, hm⟩ := exists_emitRejection e s id reason
  rw [heq]
  exact (L.congr hsame).finish (.inr rfl) hfinal fun n hn => absurd hn (hm n)

theorem fatalRow (L : Ledger said out own due ends e) (s : Store) :
    Ledger (fun n => said n ∨ n = (e.fatalRow s).1) out own due ends (e.fatalRow s).2.1 := by
  unfold Encoder.fatalRow
  split
  · rename_i id hid
    refine L.imp fun n hn => hn.imp_right ?_
    rintro rfl
    refine L.provides _ (.inl (.memory ?_))
    simp [remembered, hid]
  · have L₁ : Ledger (fun n => said n ∨ n = e.allocateRow.1) out own
        (e.allocateRow.1 :: due) ends e.allocateRow.2 :=
      L.allocateRow.imp fun n hn => hn.imp_right fun (hn : n = e.allocateRow.1) =>
        .inr (.inr (hn ▸ List.mem_cons_self))
    have L₂ := L₁.setFatal e.allocateRow.1 (.inr (.inr List.mem_cons_self))
    exact L₂.emitRejection s .aborted

theorem queueHint (L : Ledger said out own due ends e) (h : Hint) :
    Ledger said out own due ends (e.queueHint h).2 := by
  have hcode : h.code ≠ '\n' := by cases h <;> simp [Hint.code]
  unfold Encoder.queueHint
  split
  · exact L
  · exact Ledger.pushHint (e := { e with hintKeys := h.key :: e.hintKeys }) (L.congr {}) hcode

theorem queueHints (L : Ledger said out own due ends e) (hints : List Hint) :
    Ledger said out own due ends (hints.foldl (fun e h => (e.queueHint h).2) e) := by
  induction hints generalizing e with
  | nil => exact L
  | cons h hints ih => exact ih (L.queueHint h)

/-- A model row that is owed is queued. -/
theorem pushModel (L : Ledger said out own (id :: due) ends e) (q : Queue) (hq : q ≠ .hints)
    (hj : ∀ n, j.Mentions n → e.Provides out (id :: due ++ own) n) :
    Ledger said out own due ends (e.pushModel q id j) :=
  L.push q (.model j) hq rfl rfl (by rintro c j ⟨⟩) hj

/-- A plain reference speaks of its row. -/
theorem eq_of_mentions_rowJson {id n : Nat} (h : (rowJson id).Mentions n) : n = id :=
  (Option.some.inj (Json.mentions_tokenJson h)).symm

end Ledger

/-! ### The end -/

/-- Rows that stand on their own: each speaks of rows that are among them, and each stream that
opens is ended by a later row. -/
structure SelfContained (rows : List Row) : Prop where
  root : ∃ r ∈ rows, r.id = 0 ∧ r.body.isValue
  mentions : ∀ r ∈ rows, ∀ id, r.body.Mentions id → ∃ r' ∈ rows, r'.id = id ∧ r'.body.isValue
  ends : ∀ a r b, rows = a ++ r :: b → r.body.isOpening → ∃ r' ∈ b, r'.id = r.id ∧ r'.body.isFinal
  safe : ∀ r ∈ rows, r.HintSafe

/-- **When nothing is pending, what went out stands on its own.** -/
theorem Ledger.selfContained {said : Nat → Prop} {out : List Row} {e : Encoder}
    (L : Ledger said out [] [] [] e) (hpending : e.pending = 0) (hhints : e.hints = []) :
    SelfContained out := by
  obtain ⟨⟨htasks, hstreams⟩, himports, hregular, herrors⟩ := L.idle hpending
  have hrows : e.allRows out = out := by simp [Encoder.allRows, himports, hhints, hregular, herrors]
  have provided : ∀ id, e.Speaks out id → ∃ r ∈ out, r.id = id ∧ r.body.isValue := by
    intro id hid
    rcases L.provides id (.inl hid) with h | ⟨t, ht, -⟩ | h
    · rwa [hrows] at h
    · simp [htasks] at ht
    · simp at h
  refine ⟨provided 0 .root, fun r hr id hm => provided id (.row (by rwa [hrows]) hm),
    ?_, by rw [← hrows]; exact L.safe⟩
  intro a r b hsplit hopen
  rcases L.opened a r b (by rw [hregular, List.append_nil, hsplit]) hopen with h | ⟨t, ht, -⟩ | h
  · simpa [herrors] using h
  · simp [hstreams] at ht
  · simp at h

end GraphRows
