import Mathlib
import GraphRows.Encoder.Work

/-!
# The accounts of an encoder

Every id has an account, and at any time it is in one of five states: not handed out, owed a row,
told by one row, the id of a stream that is open, the id of a stream that has ended. Each operation
of an encoder moves one account by one step and leaves the others alone, so the accounts of all ids
together are kept by one lemma for each operation.

Ids whose row is owed are kept as tasks or answered for by the work in progress. The latter come in
two lists: `own` are tasks under way, which an abort would have to answer for, and `due` are rows
that will be queued before anything else can happen. `ends` are streams that were taken out to be
worked on.

`pending` counts what is owed and not more, and the tasks an abort has to answer for are those that
are kept or under way.

## Main results

* `Accounts.push`, `Accounts.pushOpening`, `Accounts.pushItem`, `Accounts.finish`: one step of an
  account
* `Accounts.idle`, `Accounts.told_iff`: when nothing is pending nothing is kept, and every id was
  told in full
-/

namespace GraphRows

variable {rows : List Row} {id : Nat} {q : Queue} {r : Row} {body : RowBody} {t : Task}

namespace RowBody

/-- A row that settles the entry of its id. -/
def isValue : RowBody → Bool
  | .hint .. | .closing _ => false
  | _ => true

/-- A row that ends the stream of its id. -/
def isFinal : RowBody → Bool
  | .error _ | .postpone _ | .closing _ => true
  | _ => false

/-- A row that opens a stream. -/
def isOpening : RowBody → Bool
  | .opening _ => true
  | _ => false

/-- A row that can be an item of a stream. -/
def isItem : RowBody → Bool
  | .model _ | .text _ | .binary _ => true
  | _ => false

/-- A row that is a hint. -/
def isHint : RowBody → Bool
  | .hint .. => true
  | _ => false

/-- A row that says all there is to say about its id. -/
def isWhole : RowBody → Bool
  | .opening _ | .closing _ => false
  | _ => true

theorem isWhole_of_isValue (h : body.isValue) (hopen : body.isOpening = false) : body.isWhole := by
  cases body with
  | opening => cases hopen
  | closing => cases h
  | _ => rfl

end RowBody

/-- The rows of one id. -/
def rowsOf (id : Nat) (rows : List Row) : List Row := rows.filter (·.id == id)

@[simp] theorem rowsOf_nil (id : Nat) : rowsOf id [] = [] := rfl

@[simp] theorem rowsOf_append (id : Nat) (rows rows' : List Row) :
    rowsOf id (rows ++ rows') = rowsOf id rows ++ rowsOf id rows' := List.filter_append ..

@[simp] theorem rowsOf_self (r : Row) : rowsOf r.id [r] = [r] := by simp [rowsOf]

theorem rowsOf_ne (h : id ≠ r.id) : rowsOf id [r] = [] := by simp [rowsOf, h.symm]

theorem mem_rowsOf : r ∈ rowsOf id rows ↔ r ∈ rows ∧ r.id = id := by
  simp [rowsOf]

/-- Rows that open a stream and go on with its items. -/
def Begun (rows : List Row) : Prop :=
  ∃ first items, rows = first :: items ∧ first.body.isOpening ∧ ∀ r ∈ items, r.body.isItem

/-- Rows that open a stream, go on with its items and end it. -/
def Ended (rows : List Row) : Prop :=
  ∃ begun last, rows = begun ++ [last] ∧ Begun begun ∧ last.body.isFinal

theorem Begun.append (h : Begun rows) (hr : r.body.isItem) : Begun (rows ++ [r]) := by
  obtain ⟨first, items, rfl, hfirst, hitems⟩ := h
  refine ⟨first, items ++ [r], rfl, hfirst, fun r' hr' => ?_⟩
  rcases List.mem_append.mp hr' with h | h
  · exact hitems r' h
  · rwa [List.mem_singleton.mp h]

/-- All that there is to say about one id: a hint, one row with a value, or a stream from its
opening to its end. -/
inductive Told : List Row → Prop
  | hint {r : Row} (hr : r.body.isHint) : Told [r]
  | row {r : Row} (hr : r.body.isValue) (hopen : r.body.isOpening = false) : Told [r]
  | stream {first last : Row} {items : List Row} (hfirst : first.body.isOpening)
      (hitems : ∀ r ∈ items, r.body.isItem)
      (hlast : last.body.isFinal) : Told (first :: items ++ [last])

theorem Told.of_isWhole (h : r.body.isWhole) : Told [r] := by
  rcases hr : r.body with j | t | b | j | ⟨c, j⟩ | j | j | k | v
  case hint => exact .hint (by rw [hr]; rfl)
  case opening => simp [hr, RowBody.isWhole] at h
  case closing => simp [hr, RowBody.isWhole] at h
  all_goals exact .row (by rw [hr]; rfl) (by rw [hr]; rfl)

theorem Told.of_ended (h : Ended rows) : Told rows := by
  obtain ⟨_, last, rfl, ⟨first, items, rfl, hfirst, hitems⟩, hlast⟩ := h
  exact .stream hfirst hitems hlast

/-- Where one row has a value, none is a hint. -/
theorem Told.not_isHint (h : Told rows) (hr : r ∈ rows) (hvalue : r.body.isValue) :
    ∀ r' ∈ rows, r'.body.isHint = false := by
  have hvalue_not : ∀ b : RowBody, b.isValue → b.isHint = false :=
    fun b hb => by cases b <;> first | rfl | cases hb
  have hopening_not : ∀ b : RowBody, b.isOpening → b.isHint = false :=
    fun b hb => by cases b <;> first | rfl | cases hb
  have hitem_not : ∀ b : RowBody, b.isItem → b.isHint = false :=
    fun b hb => by cases b <;> first | rfl | cases hb
  have hfinal_not : ∀ b : RowBody, b.isFinal → b.isHint = false :=
    fun b hb => by cases b <;> first | rfl | cases hb
  cases h with
  | hint =>
    intro r' hr'
    rw [List.mem_singleton.mp hr', ← List.mem_singleton.mp hr]
    exact hvalue_not _ hvalue
  | row h =>
    intro r' hr'
    rw [List.mem_singleton.mp hr']
    exact hvalue_not _ h
  | stream hfirst hitems hlast =>
    intro r' hr'
    rcases List.mem_append.mp hr' with hr' | hr'
    · rcases List.mem_cons.mp hr' with rfl | hr'
      · exact hopening_not _ hfirst
      · exact hitem_not _ (hitems r' hr')
    · rw [List.mem_singleton.mp hr']
      exact hfinal_not _ hlast

theorem Told.ne_nil (h : Told rows) : rows ≠ [] := by cases h <;> simp

namespace Encoder

/-- All rows, those that went out and those that wait. -/
def allRows (out : List Row) (e : Encoder) : List Row :=
  out ++ e.imports ++ e.hints ++ e.regular ++ e.errors

/-- How many rows and ends are owed, the work in progress apart. -/
def debt (e : Encoder) : Nat :=
  e.tasks.length + e.streams.length + e.imports.length + e.regular.length + e.errors.length

/-- The ids of the tasks that are kept. -/
def taskIds (e : Encoder) : List Nat := e.tasks.map (·.id)

/-- The ids of the streams that are kept. -/
def streamIds (e : Encoder) : List Nat := e.streams.map (·.id)

end Encoder

/-- What the books show about one id. -/
structure Standing where
  /-- its rows among the imports and hints, which go out before any other -/
  early : List Row
  /-- its rows among the errors, which go out after any other -/
  late : List Row
  /-- all its rows, in the order in which they go out -/
  rows : List Row
  /-- how often its row is owed -/
  owed : Nat
  /-- how often its end is owed -/
  live : Nat

/-- What the books show about an id. -/
def Encoder.standing (out : List Row) (own due ends : List Nat) (e : Encoder) (id : Nat) :
    Standing where
  early := rowsOf id e.imports ++ rowsOf id e.hints
  late := rowsOf id e.errors
  rows := rowsOf id (e.allRows out)
  owed := (due ++ own ++ e.taskIds).count id
  live := (ends ++ e.streamIds).count id

/-- The five states of an account, when the ids below `next` are handed out. -/
inductive Account (next id : Nat) (s : Standing) : Prop
  | unused (hid : next ≤ id) (hrows : s.rows = []) (howed : s.owed = 0) (hlive : s.live = 0)
  | owed (hid : id < next) (hrows : s.rows = []) (howed : s.owed = 1) (hlive : s.live = 0)
  | told (hid : id < next) (r : Row) (hrows : s.rows = [r]) (hr : r.body.isWhole)
    (howed : s.owed = 0) (hlive : s.live = 0)
  | begun (hid : id < next) (hearly : s.early = []) (hlate : s.late = []) (hrows : Begun s.rows)
      (howed : s.owed = 0) (hlive : s.live = 1)
  | ended (hid : id < next) (hearly : s.early = []) (hrows : Ended s.rows) (howed : s.owed = 0)
    (hlive : s.live = 0)

namespace Account

variable {next id : Nat} {s : Standing}

theorem owed_le (h : Account next id s) : s.owed ≤ 1 := by cases h <;> omega

theorem live_le (h : Account next id s) : s.live ≤ 1 := by cases h <;> omega

/-- Handing out another id. -/
theorem succ (h : Account next id s) (hid : id ≠ next) : Account (next + 1) id s := by
  cases h with
  | unused h => exact .unused (by omega) ‹_› ‹_› ‹_›
  | owed h => exact .owed (by omega) ‹_› ‹_› ‹_›
  | told h r => exact .told (by omega) r ‹_› ‹_› ‹_› ‹_›
  | begun h => exact .begun (by omega) ‹_› ‹_› ‹_› ‹_› ‹_›
  | ended h => exact .ended (by omega) ‹_› ‹_› ‹_› ‹_›

/-- An id whose row is owed has none. -/
theorem eq_owed (h : Account next id s) (howed : s.owed ≠ 0) :
    id < next ∧ s.rows = [] ∧ s.owed = 1 ∧ s.live = 0 := by
  cases h with
  | owed hid hrows howed hlive => exact ⟨hid, hrows, howed, hlive⟩
  | _ => omega

/-- An id whose end is owed is that of a stream that goes on. -/
theorem eq_begun (h : Account next id s) (hlive : s.live ≠ 0) :
    id < next ∧ s.early = [] ∧ s.late = [] ∧ Begun s.rows ∧ s.owed = 0 ∧ s.live = 1 := by
  cases h with
  | begun hid hearly hlate hrows howed hlive => exact ⟨hid, hearly, hlate, hrows, howed, hlive⟩
  | _ => omega

end Account

/-- The accounts are exact. -/
structure Accounts (out : List Row) (own due ends : List Nat) (e : Encoder) : Prop where
  pending : e.pending = e.debt + (due ++ own).length + ends.length
  abortable : e.abortable.Perm (own ++ e.taskIds)
  account : ∀ id, Account e.refs.nextId id (e.standing out own due ends id)

/-! ### Lists of ids -/

/-- A new id is inserted, and nothing else happens. -/
theorem perm_insertId {ids : List Nat} (h : id ∉ ids) :
    (Encoder.insertId id ids).Perm (id :: ids) := by
  induction ids with
  | nil => exact .refl _
  | cons i ids ih =>
    obtain ⟨hne, hid⟩ := not_or.mp (List.mem_cons.not.mp h)
    rw [Encoder.insertId]
    split
    · exact .refl _
    · rw [if_neg (by simpa using hne)]
      exact ((ih hid).cons i).trans (.swap id i ids)

/-- A stream with a new id is inserted, and nothing else happens. -/
theorem perm_insertTask {ts : List Task} (h : t.id ∉ ts.map (·.id)) :
    (Encoder.insertTask t ts).Perm (t :: ts) := by
  induction ts with
  | nil => exact .refl _
  | cons u ts ih =>
    obtain ⟨hne, hid⟩ := not_or.mp (List.mem_cons.not.mp h)
    rw [Encoder.insertTask]
    split
    · exact .refl _
    · rw [if_neg (by simpa using hne)]
      exact ((ih hid).cons u).trans (.swap t u ts)

/-- What is taken out under an id that only it has is all that is missing. -/
theorem perm_filter_ne {ts : List Task} (hmem : t ∈ ts) (hnodup : (ts.map (·.id)).Nodup) :
    (t.id :: (ts.filter (·.id != t.id)).map (·.id)).Perm (ts.map (·.id)) := by
  have hfilter : (ts.filter (·.id != t.id)).map (·.id) = (ts.map (·.id)).filter (· != t.id) := by
    rw [List.filter_map]
    rfl
  rw [hfilter, ← hnodup.erase_eq_filter]
  exact (List.perm_cons_erase (List.mem_map_of_mem hmem)).symm

namespace Encoder

variable {out : List Row} {e : Encoder} {id : Nat}

/-- Queueing a row, as seen by the id of another. -/
theorem standing_push_of_ne {own due ends : List Nat} (h : id ≠ r.id) :
    (e.push q r).standing out own due ends id = e.standing out own due ends id := by
  have hnone := rowsOf_ne h
  cases q <;> simp only [standing, push, allRows, taskIds, streamIds, rowsOf_append, hnone,
    List.append_nil]

/-- All rows of an id, queue by queue. -/
theorem rowsOf_allRows :
    rowsOf id (e.allRows out) =
    rowsOf id out ++ rowsOf id e.imports ++ rowsOf id e.hints ++ rowsOf id e.regular ++
      rowsOf id e.errors := by
  simp [allRows]

/-- Queueing the first row of an id. -/
theorem rowsOf_allRows_push_of_nil (q : Queue) (r : Row) (h : rowsOf r.id (e.allRows out) = []) :
    rowsOf r.id ((e.push q r).allRows out) = [r] := by
  simp only [rowsOf_allRows, List.append_eq_nil_iff] at h
  obtain ⟨⟨⟨⟨hout, himports⟩, hhints⟩, hregular⟩, herrors⟩ := h
  cases q <;> simp [push, rowsOf_allRows, hout, himports, hhints, hregular, herrors]

/-- Queueing another row of an id that has none among the errors. -/
theorem rowsOf_allRows_push_of_late (r : Row) (hq : q = .regular ∨ q = .errors)
    (h : rowsOf r.id e.errors = []) :
    rowsOf r.id ((e.push q r).allRows out) = rowsOf r.id (e.allRows out) ++ [r] := by
  rcases hq with rfl | rfl <;> simp [push, rowsOf_allRows, h]

end Encoder

namespace Accounts

open Encoder

variable {out : List Row} {own due ends : List Nat} {e e' : Encoder} {id : Nat}

/-! ### Distinct ids -/

theorem nodup_owed (A : Accounts out own due ends e) : (due ++ own ++ e.taskIds).Nodup :=
  List.nodup_iff_count_le_one.mpr fun id => (A.account id).owed_le

theorem nodup_live (A : Accounts out own due ends e) : (ends ++ e.streamIds).Nodup :=
  List.nodup_iff_count_le_one.mpr fun id => (A.account id).live_le

theorem nodup_taskIds (A : Accounts out own due ends e) : e.taskIds.Nodup :=
  A.nodup_owed.of_append_right

theorem nodup_streamIds (A : Accounts out own due ends e) : e.streamIds.Nodup :=
  A.nodup_live.of_append_right

/-- A row that will be queued at once is none an abort has to answer for. -/
theorem notMem_abortable (A : Accounts out own (id :: due) ends e) : id ∉ e.abortable := by
  have h := A.nodup_owed
  rw [List.append_assoc, List.cons_append, List.nodup_cons, List.mem_append, not_or] at h
  exact fun hid => h.1.2 (A.abortable.mem_iff.mp hid)

/-- An id whose row is owed has none. -/
theorem owed_head (A : Accounts out own (id :: due) ends e) :
    id < e.refs.nextId ∧ rowsOf id (e.allRows out) = [] ∧ (due ++ own ++ e.taskIds).count id = 0 ∧
      (ends ++ e.streamIds).count id = 0 := by
  obtain ⟨hid, hrows, howed, hlive⟩ := (A.account id).eq_owed (by simp [standing])
  refine ⟨hid, hrows, ?_, hlive⟩
  simpa [standing, List.append_assoc] using howed

/-- An id whose end is owed is that of a stream that goes on. -/
theorem live_head (A : Accounts out own due (id :: ends) e) :
    id < e.refs.nextId ∧ (rowsOf id e.imports = [] ∧ rowsOf id e.hints = []) ∧
      rowsOf id e.errors = [] ∧
      Begun (rowsOf id (e.allRows out)) ∧ (due ++ own ++ e.taskIds).count id = 0 ∧
        (ends ++ e.streamIds).count id = 0 := by
  obtain ⟨hid, hearly, hlate, hrows, howed, hlive⟩ := (A.account id).eq_begun (by simp [standing])
  exact ⟨hid, List.append_eq_nil_iff.mp hearly, hlate, hrows,
    howed, by simpa [standing] using hlive⟩

/-! ### Rows -/

theorem debt_push (e : Encoder) (q : Queue) (r : Row) (h : q ≠ .hints) :
    (e.push q r).debt = e.debt + 1 := by
  cases q <;> simp [Encoder.push, debt] at h ⊢ <;> omega

/-- Queueing a row changes the account of its id only. -/
theorem account_push (A : Accounts out own due ends e) {own' due' ends' : List Nat} (q : Queue)
    (r : Row)
    (howed : ∀ id ≠ r.id, (due' ++ own' ++ e.taskIds).count id = (due ++ own ++ e.taskIds).count id)
    (hlive : ∀ id ≠ r.id, (ends' ++ e.streamIds).count id = (ends ++ e.streamIds).count id)
    (hr : Account e.refs.nextId r.id ((e.push q r).standing out own' due' ends' r.id)) :
    ∀ id, Account (e.push q r).refs.nextId id ((e.push q r).standing out own' due' ends' id) := by
  have hnext : (e.push q r).refs.nextId = e.refs.nextId := by cases q <;> rfl
  intro id
  rw [hnext]
  by_cases hid : id = r.id
  · exact hid ▸ hr
  · have hsame : e.standing out own' due' ends' id = e.standing out own due ends id := by
      simp only [standing, howed id hid, hlive id hid]
    rw [standing_push_of_ne hid, hsame]
    exact A.account id

/-- A row that says all is queued for an id that is owed one. -/
theorem push (A : Accounts out own (id :: due) ends e) (hq : q ≠ .hints)
    (hbody : body.isWhole) : Accounts out own due ends (e.push q ⟨id, body⟩) := by
  obtain ⟨hid, hrows, howed, hlive⟩ := A.owed_head
  have hpending := A.pending
  refine ⟨?_, by cases q <;> exact A.abortable, A.account_push q ⟨id, body⟩
    (fun n hn => ?_) (fun _ _ => rfl) ?_⟩
  · have hkeep : (e.push q ⟨id, body⟩).pending = e.pending := by cases q <;> rfl
    rw [debt_push _ _ _ hq, hkeep]
    simp only [List.cons_append, List.length_cons] at hpending
    omega
  · simp [List.count_cons_of_ne (Ne.symm hn)]
  · refine .told hid ⟨id, body⟩ (rowsOf_allRows_push_of_nil q _ hrows) hbody ?_ ?_
    · cases q <;> exact howed
    · cases q <;> exact hlive

/-- A stream is opened for an id that is owed a row. Its end is owed from now on. -/
theorem pushOpening (A : Accounts out own (id :: due) ends e) (kind : StreamKind) :
    Accounts out own due (id :: ends) ({ e with pending := e.pending + 1 }.push .regular ⟨id,
      .opening kind⟩) := by
  obtain ⟨hid, hrows, howed, hlive⟩ := A.owed_head
  have hpending := A.pending
  have hnone := hrows
  simp only [rowsOf_allRows, List.append_eq_nil_iff] at hnone
  refine ⟨?_, A.abortable, A.account_push .regular ⟨id, .opening kind⟩ (fun n hn => ?_)
    (fun n hn => ?_) ?_⟩
  · simp only [Encoder.push, debt, List.cons_append, List.length_append, List.length_cons,
      List.length_nil] at hpending ⊢
    omega
  · simp [List.count_cons_of_ne (Ne.symm hn)]
  · simp [List.count_cons_of_ne (Ne.symm hn)]
  · refine .begun hid (List.append_eq_nil_iff.mpr ⟨hnone.1.1.1.2, hnone.1.1.2⟩) hnone.2 ?_ howed ?_
    · exact ⟨_, [], rowsOf_allRows_push_of_nil .regular _ hrows, rfl, fun _ h =>
        absurd h List.not_mem_nil⟩
    · show (id :: (ends ++ e.streamIds)).count id = 1
      rw [List.count_cons_self, hlive]

/-- An item of a stream is queued. -/
theorem pushItem (A : Accounts out own due (id :: ends) e) (hbody : body.isItem) :
    Accounts out own due (id :: ends) ({ e with pending := e.pending + 1 }.push
      .regular ⟨id, body⟩) := by
  obtain ⟨hid, hearly, hlate, hrows, howed, hlive⟩ := A.live_head
  have hpending := A.pending
  refine ⟨?_, A.abortable, A.account_push .regular ⟨id, body⟩ (fun _ _ => rfl) (fun _ _ => rfl) ?_⟩
  · simp only [Encoder.push, debt, List.length_append, List.length_cons,
      List.length_nil] at hpending ⊢
    omega
  · refine .begun hid (List.append_eq_nil_iff.mpr hearly) hlate ?_ howed ?_
    · show Begun (rowsOf id ((e.push .regular ⟨id, body⟩).allRows out))
      rw [rowsOf_allRows_push_of_late ⟨id, body⟩ (.inl rfl) hlate]
      exact hrows.append hbody
    · show (id :: (ends ++ e.streamIds)).count id = 1
      rw [List.count_cons_self, hlive]

/-- The end of a stream is queued. -/
theorem finish (A : Accounts out own due (id :: ends) e) (hq : q = .regular ∨ q = .errors)
    (hbody : body.isFinal) : Accounts out own due ends (e.push q ⟨id, body⟩) := by
  obtain ⟨hid, hearly, hlate, hrows, howed, hlive⟩ := A.live_head
  have hpending := A.pending
  have hne : q ≠ .hints := by rcases hq with rfl | rfl <;> decide
  refine ⟨?_, by cases q <;> exact A.abortable, A.account_push q ⟨id, body⟩
    (fun _ _ => rfl) (fun n hn => ?_) ?_⟩
  · have hkeep : (e.push q ⟨id, body⟩).pending = e.pending := by cases q <;> rfl
    rw [debt_push _ _ _ hne, hkeep]
    simp only [List.length_cons] at hpending
    omega
  · simp [List.count_cons_of_ne (Ne.symm hn)]
  · refine .ended hid ?_ ⟨_, _, rowsOf_allRows_push_of_late ⟨id, body⟩ hq hlate, hrows, hbody⟩ ?_ ?_
    · rcases hq with rfl | rfl <;> exact List.append_eq_nil_iff.mpr hearly
    · cases q <;> exact howed
    · cases q <;> exact hlive

/-! ### Ids -/

/-- An id that was never handed out. -/
theorem fresh (A : Accounts out own due ends e) :
    rowsOf e.refs.nextId (e.allRows out) = [] ∧
    (due ++ own ++ e.taskIds).count e.refs.nextId = 0 ∧
      (ends ++ e.streamIds).count e.refs.nextId = 0 := by
  cases A.account e.refs.nextId with
  | unused _ hrows howed hlive => exact ⟨hrows, howed, hlive⟩
  | owed hid => exact absurd hid (Nat.lt_irrefl _)
  | told hid => exact absurd hid (Nat.lt_irrefl _)
  | begun hid => exact absurd hid (Nat.lt_irrefl _)
  | ended hid => exact absurd hid (Nat.lt_irrefl _)

/-- A hint takes an id but is owed to nobody. -/
theorem pushFresh (A : Accounts out own due ends e) (hbody : body.isWhole) :
    Accounts out own due ends ({ e with refs := e.refs.fresh.2 }.push .hints
      ⟨e.refs.nextId, body⟩) := by
  obtain ⟨hrows, howed, hlive⟩ := A.fresh
  refine ⟨A.pending, A.abortable, fun id => ?_⟩
  by_cases hid : id = e.refs.nextId
  · subst hid
    exact .told (Nat.lt_succ_self _) ⟨_, body⟩
      (rowsOf_allRows_push_of_nil (e := e) .hints ⟨e.refs.nextId, body⟩ hrows)
      hbody howed hlive
  · rw [standing_push_of_ne hid]
    exact (A.account id).succ hid

/-- A new id is handed out for a row that is owed. -/
theorem allocateRow (A : Accounts out own due ends e) :
    Accounts out own (e.allocateRow.1 :: due) ends e.allocateRow.2 := by
  obtain ⟨hrows, howed, hlive⟩ := A.fresh
  have hpending := A.pending
  refine ⟨?_, A.abortable, fun id => ?_⟩
  · show e.pending + 1 = _
    simp only [debt, List.cons_append, List.length_cons, Encoder.allocateRow, freshId] at hpending ⊢
    omega
  · by_cases hid : id = e.refs.nextId
    · subst hid
      refine .owed (Nat.lt_succ_self _) hrows ?_ hlive
      show (e.refs.nextId :: (due ++ own ++ e.taskIds)).count e.refs.nextId = 1
      rw [List.count_cons_self, howed]
    · have hsame : e.allocateRow.2.standing out own (e.allocateRow.1 :: due) ends id =
          e.standing out own due ends id := by
        have : (e.refs.nextId :: (due ++ own ++ e.taskIds)).count id =
            (due ++ own ++ e.taskIds).count id :=
          List.count_cons_of_ne (Ne.symm hid)
        exact congrArg (fun n => { e.standing out own due ends id with owed := n }) this
      rw [hsame]
      exact (A.account id).succ hid

/-! ### Tasks and streams -/

/-- The row that is owed next becomes a task under way. -/
theorem undertake (A : Accounts out own [id] ends e) :
    Accounts out (id :: own) [] ends (e.makeAbortable id) :=
  ⟨A.pending, (perm_insertId A.notMem_abortable).trans (A.abortable.cons id), A.account⟩

/-- The task under way is done with but for its row. -/
theorem release (A : Accounts out (id :: own) [] ends e) :
    Accounts out own [id] ends (e.dropAbortable id) := by
  have hnodup : e.abortable.Nodup := A.abortable.nodup_iff.mpr A.nodup_owed
  refine ⟨A.pending, ?_, A.account⟩
  rw [dropAbortable, ← hnodup.erase_eq_filter]
  have := A.abortable.erase id
  rwa [List.cons_append, List.erase_cons_head] at this

/-- A task under way is kept. -/
theorem keepTask (A : Accounts out (t.id :: own) [] ends e) :
    Accounts out own [] ends (e.keepTask t) := by
  have hpending := A.pending
  have hperm : (own ++ t.id :: e.taskIds).Perm (t.id :: own ++ e.taskIds) := List.perm_middle
  refine ⟨?_, A.abortable.trans hperm.symm, fun id => ?_⟩
  · simp only [debt, Encoder.keepTask, List.nil_append, List.length_cons] at hpending ⊢
    omega
  · have hsame : (e.keepTask t).standing out own [] ends id =
        e.standing out (t.id :: own) [] ends id :=
      congrArg (fun n => { e.standing out own [] ends id with owed := n }) (hperm.count_eq id)
    rw [hsame]
    exact A.account id

/-- A kept task is under way again. -/
theorem takeTask (A : Accounts out own [] ends e) (ht : t ∈ e.tasks) :
    Accounts out (t.id :: own) [] ends { e with tasks := e.tasks.filter (·.id != t.id) } := by
  have hpending := A.pending
  have htaken := perm_filter_ne ht A.nodup_taskIds
  have hperm : (t.id :: own ++ (e.tasks.filter (·.id != t.id)).map (·.id)).Perm
      (own ++ e.taskIds) :=
    List.perm_middle.symm.trans (htaken.append_left own)
  refine ⟨?_, A.abortable.trans hperm.symm, fun id => ?_⟩
  · have hlength := htaken.length_eq
    simp only [debt, List.nil_append, List.length_cons, List.length_map] at hpending hlength ⊢
    omega
  · have hsame : { e with tasks := e.tasks.filter (·.id != t.id) }.standing out
        (t.id :: own) [] ends id = e.standing out own [] ends id :=
      congrArg (fun n => { e.standing out own [] ends id with owed := n }) (hperm.count_eq id)
    rw [hsame]
    exact A.account id

/-- A stream that was taken out is kept again. -/
theorem keepStream (A : Accounts out own due (t.id :: ends) e) :
    Accounts out own due ends (e.keepStream t) := by
  have hpending := A.pending
  have hnew : t.id ∉ e.streamIds := by
    have := A.nodup_live
    rw [List.cons_append, List.nodup_cons, List.mem_append, not_or] at this
    exact this.1.2
  have hkept := perm_insertTask hnew
  have hperm : (ends ++ (insertTask t e.streams).map (·.id)).Perm (t.id :: ends ++ e.streamIds) :=
    ((hkept.map (·.id)).append_left ends).trans List.perm_middle
  refine ⟨?_, A.abortable, fun id => ?_⟩
  · have hlength := hkept.length_eq
    simp only [debt, Encoder.keepStream, List.length_cons] at hpending hlength ⊢
    omega
  · have hsame : (e.keepStream t).standing out own due ends id =
        e.standing out own due (t.id :: ends) id :=
      congrArg (fun n => { e.standing out own due ends id with live := n }) (hperm.count_eq id)
    rw [hsame]
    exact A.account id

/-- A stream is taken out. -/
theorem takeStream (A : Accounts out own due ends e) (ht : t ∈ e.streams) :
    Accounts out own due (t.id :: ends) { e with streams := e.streams.filter (·.id != t.id) } := by
  have hpending := A.pending
  have htaken := perm_filter_ne ht A.nodup_streamIds
  have hperm : (t.id :: ends ++ (e.streams.filter (·.id != t.id)).map (·.id)).Perm
      (ends ++ e.streamIds) :=
    List.perm_middle.symm.trans (htaken.append_left ends)
  refine ⟨?_, A.abortable, fun id => ?_⟩
  · have hlength := htaken.length_eq
    simp only [debt, List.length_cons, List.length_map] at hpending hlength ⊢
    omega
  · have hsame : { e with streams := e.streams.filter (·.id != t.id) }.standing out own due
        (t.id :: ends) id = e.standing out own due ends id :=
      congrArg (fun n => { e.standing out own due ends id with live := n }) (hperm.count_eq id)
    rw [hsame]
    exact A.account id

/-- All streams are taken out. -/
theorem takeStreams (A : Accounts out own due [] e) :
    Accounts out own due e.streamIds { e with streams := [] } := by
  have hpending := A.pending
  refine ⟨?_, A.abortable, fun id => ?_⟩
  · simp only [debt, streamIds, List.length_nil, List.length_map] at hpending ⊢
    omega
  · have hsame : { e with streams := [] }.standing out own due e.streamIds id =
        e.standing out own due [] id :=
      congrArg (fun ids => { e.standing out own due [] id with live := ids.count id })
        (List.append_nil e.streamIds)
    rw [hsame]
    exact A.account id

/-! ### The end -/

/-- **When nothing is pending, nothing is kept and no row that is owed waits.** -/
theorem idle (A : Accounts out own due ends e) (hpending : e.pending = 0) :
    (e.tasks = [] ∧ e.streams = []) ∧ e.imports = [] ∧ e.regular = [] ∧ e.errors = [] := by
  have h := A.pending
  rw [hpending, debt] at h
  refine ⟨⟨?_, ?_⟩, ?_, ?_, ?_⟩ <;> exact List.eq_nil_of_length_eq_zero (by omega)

/-- **When nothing is pending, what was said about an id that was handed out is all there is to
say.** -/
theorem told_iff (A : Accounts out [] [] [] e) (hpending : e.pending = 0) (hhints : e.hints = []) :
    (id < e.refs.nextId → Told (rowsOf id out)) ∧ (e.refs.nextId ≤ id → rowsOf id out = []) := by
  obtain ⟨⟨htasks, hstreams⟩, himports, hregular, herrors⟩ := A.idle hpending
  have hrows : (e.standing out [] [] [] id).rows = rowsOf id out := by
    simp [standing, allRows, himports, hhints, hregular, herrors]
  have howed : (e.standing out [] [] [] id).owed = 0 := by simp [standing, taskIds, htasks]
  have hlive : (e.standing out [] [] [] id).live = 0 := by simp [standing, streamIds, hstreams]
  rw [← hrows]
  cases A.account id with
  | unused hid hrows => exact ⟨fun h => absurd h (Nat.not_lt.mpr hid), fun _ => hrows⟩
  | owed hid _ h => exact absurd (howed ▸ h) (by decide)
  | told hid r hrows hr =>
    exact ⟨fun _ => hrows ▸ .of_isWhole hr, fun h => absurd hid (Nat.not_lt.mpr h)⟩
  | begun hid _ _ _ _ h => exact absurd (hlive ▸ h) (by decide)
  | ended hid _ hrows => exact ⟨fun _ => .of_ended hrows, fun h => absurd hid (Nat.not_lt.mpr h)⟩

end Accounts

end GraphRows
