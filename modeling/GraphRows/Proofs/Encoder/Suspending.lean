import GraphRows.Proofs.Encoder.Withholding
import GraphRows.Proofs.Store.Outcomes

/-!
# Suspension leaves no trace

A lazy value that reads a pending promise is interrupted and starts again later. It goes by the
outcomes it reads: `Recipe` says what it does next for each of them. Which promise it asks for at a
read is up to the host, which may make a new one at every attempt; what it gets is the one
remembered for the position.

A later attempt reads what the earlier ones have read and goes on from there, so its hints begin
with theirs and are not queued twice. When the root of a row has been forced at last, the encoder is
therefore where it would be had it been created just then, with the promises that are remembered
laid out and settled; and from there on both do the same.

A lazy value may hand over to another, which begins with nothing remembered. `Recipe.memories` keeps
what was remembered of each of them.

## Main results

* `Recipe.exec_spec`: one attempt, and what is remembered of it
* `Recipe.resolveRoot_spec`: an attempt at the root of a row, over any number of lazy values that
  hand over to each other
* `Recipe.Chain.resolveRoot`: the same with all promises laid out
* `suspension_leaves_no_trace`
-/

namespace GraphRows

section

variable {p : CellId} {os : List Outcome} {s s' : Store}

/-- What was settled stays so, and lazy values stay lazy. -/
structure Store.Since (s s' : Store) : Prop where
  outcomes : ∀ p o, s.outcome? p = some o → s'.outcome? p = some o
  lazies : ∀ c, s.cell? c = some .lazy → s'.cell? c = some .lazy

theorem Store.Since.trans {s'' : Store} (h : s.Since s') (h' : s'.Since s'') : s.Since s'' :=
  ⟨fun p o ho => h'.outcomes p o (h.outcomes p o ho), fun c hc => h'.lazies c (h.lazies c hc)⟩

theorem Store.Since.of_cells_eq (h : s'.cells = s.cells) : s.Since s' := by
  have hcell : ∀ c, s'.cell? c = s.cell? c := fun c => by rw [Store.cell?, Store.cell?, h]
  refine ⟨fun p o ho => ?_, fun c hc => (hcell c).trans hc⟩
  rwa [Store.outcome?, Store.promise?, hcell]

theorem Store.Since.andThen (hp : s.outcome? p = none) (callback : Callback) :
    s.Since (s.andThen p callback) := by
  unfold Store.andThen
  split
  · rename_i h
    rw [Store.outcome?, h] at hp
    cases hp
  · rename_i callbacks bells h
    have hcell := Store.promise?_eq_some h
    have hother : ∀ c cell, c ≠ p → (s.write p cell).cell? c = s.cell? c :=
      fun c _ hc => Store.cell?_write_ne s _ hc.symm
    refine ⟨fun c o ho => ?_, fun c hc => ?_⟩
    · have hc : c ≠ p := by
        rintro rfl
        rw [hp] at ho
        cases ho
      rw [← ho, Store.outcome?, Store.outcome?, Store.promise?, Store.promise?, hother c _ hc]
    · have hcp : c ≠ p := by
        rintro rfl
        rw [hcell] at hc
        cases hc
      rw [hother c _ hcp, hc]
  · exact .of_cells_eq rfl

theorem Store.Since.map (h : s.Since s') {ps : List CellId}
    (hps : ps.map s.outcome? = os.map some) : ps.map s'.outcome? = os.map some := by
  induction ps generalizing os with
  | nil => exact hps
  | cons p ps ih =>
    cases os with
    | nil => cases hps
    | cons o os =>
      obtain ⟨hp, hps⟩ := List.cons.inj hps
      rw [List.map_cons, h.outcomes p o hp, ih hps]
      rfl

end

/-- What a lazy value does: it may read a promise and go on as the outcome tells it, give a hint,
and end with a value or with a rejection. -/
inductive Recipe where
  | read (next : Outcome → Recipe)
  | hint (h : Hint) (next : Recipe)
  | give (v : Value)
  | fail (r : Rejection)

/-- A host with promises laid out for the next reads. When there are none, it makes one for each
read. -/
structure Supply (η : Type) where
  given : List CellId := []
  own : η

namespace Recipe

variable {a : Attempt} {l p : CellId} {e : Encoder} {r : Except Interrupt Value}
  {given : List CellId} {hs : List Hint} {os : List Outcome} {t t' : Recipe} {s s' : Store}

section

variable {η : Type} (ask : Store → η → CellId × Store × η)

/-- The promise for a read. -/
def hand (s : Store) (h : Supply η) : CellId × Store × Supply η :=
  match h.given with
  | p :: rest => (p, s, { h with given := rest })
  | [] => ((ask s h.own).1, (ask s h.own).2.1, { h with own := (ask s h.own).2.2 })

/-- The outcome that was read, unless the promise is pending. -/
def heard? : Except Interrupt Value → Option Outcome
  | .ok v => some (.ok v)
  | .error (.throw r) => some (.error r)
  | .error (.suspend _) => none

/-- One attempt: the result, and the outcomes read. -/
def exec : Recipe → Attempt → Store → Supply η →
    (Except Interrupt Value × List Outcome) × Attempt × Store × Supply η
  | .give v, a, s, h => ((.ok v, []), a, s, h)
  | .fail r, a, s, h => ((.error (.throw r), []), a, s, h)
  | .hint k next, a, s, h => next.exec (a.hint k) s h
  | .read next, a, s, h =>
    let asked := hand ask s h
    let told := a.read asked.2.1 asked.1
    match heard? told.1 with
    | some o =>
      let y := (next o).exec told.2 asked.2.1 asked.2.2
      ((y.1.1, o :: y.1.2), y.2)
    | none => ((told.1, []), told.2, asked.2.1, asked.2.2)

/-- A host whose lazy values go by recipes. -/
def run (recipes : CellId → Recipe) : Force (Supply η) := fun id a s h =>
  let y := (recipes id).exec ask a s h
  some (y.1.1, y.2)

end

/-- Reading these outcomes and giving these hints, the first recipe comes to the second. -/
inductive Leads : Recipe → List Outcome → List Hint → Recipe → Prop
  | stop (t : Recipe) : Leads t [] [] t
  | read {next : Outcome → Recipe} {o os hs t} (h : Leads (next o) os hs t) :
    Leads (.read next) (o :: os) hs t
  | hint {k next os hs t} (h : Leads next os hs t) : Leads (.hint k next) os (k :: hs) t

/-- The recipe ends an attempt with the result. -/
def Stops (t : Recipe) : Except Interrupt Value → Prop
  | .ok v => t = .give v
  | .error (.throw r) => t = .fail r
  | .error (.suspend _) => ∃ next, t = .read next

/-- What reads on has read the same before, and has given the same hints. -/
theorem Leads.split {t'' : Recipe} {os' : List Outcome} {hs' : List Hint} (h : Leads t os hs t')
    (hrest : ∀ k next, t' ≠ .hint k next) (h' : Leads t (os ++ os') hs' t'')
    (hrest' : ∀ k next, t'' ≠ .hint k next) : ∃ hs'', hs' = hs ++ hs'' ∧ Leads t' os' hs'' t'' := by
  induction h generalizing hs' with
  | stop t => exact ⟨hs', rfl, h'⟩
  | read h ih =>
    cases h' with
    | read h' => exact ih hrest h'
  | hint h ih =>
    generalize hos : _ ++ os' = all at h'
    cases h' with
    | stop => exact absurd rfl (hrest' _ _)
    | hint h' =>
      obtain ⟨hs'', rfl, hleads⟩ := ih hrest (hos ▸ h')
      exact ⟨hs'', rfl, hleads⟩

/-! ### One attempt -/

theorem heard?_look (s : Store) (p : CellId) : heard? (Attempt.look s p) = s.outcome? p := by
  unfold Attempt.look
  cases s.outcome? p with
  | none => rfl
  | some o => cases o <;> rfl

section

variable {η : Type} {ask : Store → η → CellId × Store × η}

/-- **An attempt with all promises laid out** reads them and takes nothing else from the host. -/
theorem exec_laid (ask : Store → η → CellId × Store × η) (h : t.Leads os hs t')
    (hstops : t'.Stops r) (hr : (heard? r).isSome) (ha : a.position = a.recalled.length)
    (hgiven : given.map s.outcome? = os.map some) (rest : List CellId) (own : η) :
    ∃ a' os', t.exec ask a s ⟨given ++ rest, own⟩ = ((r, os'), a', s, ⟨rest, own⟩) ∧
      a'.hints = a.hints ++ hs := by
  induction h generalizing a given with
  | stop t =>
    rw [List.map_eq_nil_iff.mp hgiven, List.nil_append]
    refine ⟨a, [], ?_, (List.append_nil _).symm⟩
    rcases r with (p | r) | v
    · cases hr
    · cases hstops
      rfl
    · cases hstops
      rfl
  | hint h ih =>
    obtain ⟨a', os', hexec, hhints⟩ := ih hstops (a := a.hint _) ha hgiven
    exact ⟨a', os', hexec, by rw [hhints, Attempt.hint, List.append_assoc]; rfl⟩
  | @read next o os hs t' h ih =>
    cases given with
    | nil => cases hgiven
    | cons p given =>
      obtain ⟨hp, hgiven⟩ := List.cons.inj hgiven
      have hread : a.read s p = (Attempt.look s p,
          { a with recalled := a.recalled ++ [p], position := a.position + 1 }) := by
        rw [Attempt.read, List.getElem?_eq_none (Nat.le_of_eq ha.symm)]
      obtain ⟨a', os', hexec, hhints⟩ := ih hstops
        (a := { a with recalled := a.recalled ++ [p], position := a.position + 1 })
        (by simp [ha]) hgiven
      refine ⟨a', o :: os', ?_, hhints⟩
      have hasked : hand ask s ⟨p :: given ++ rest, own⟩ = (p, s, ⟨given ++ rest, own⟩) := rfl
      rw [exec, hasked]
      dsimp only
      rw [hread]
      dsimp only
      rw [heard?_look, show s.outcome? p = some o from hp]
      dsimp only
      rw [hexec]

end

end Recipe

/-! ### Hints -/

namespace Encoder

variable {e : Encoder}

/-- Offer hints one after the other. -/
def queueAll (e : Encoder) (hints : List Hint) : Encoder :=
  hints.foldl (fun e h => (e.queueHint h).2) e

/-- A hint that the encoder would not queue. -/
def knows (e : Encoder) (h : Hint) : Bool := e.status == .closed || e.hintKeys.contains h.key

theorem queueAll_append (e : Encoder) (hints hints' : List Hint) :
    e.queueAll (hints ++ hints') = (e.queueAll hints).queueAll hints' := List.foldl_append

end Encoder

/-! ### The root of a row -/

namespace Recipe

open Render

variable {η : Type} {ask : Store → η → CellId × Store × η} {recipes : CellId → Recipe}
  {a : Attempt} {l p : CellId} {e : Encoder} {r : Except Interrupt Value} {given : List CellId}
  {os : List Outcome} {s s' : Store}

/-- What becomes of the root of a row after the lazy value `l` was tried. -/
def proceed (ask : Store → η → CellId × Store × η) (recipes : CellId → Recipe)
    (fuel : Nat) (l : CellId)
    (recalled : List CellId) (y : Encoding (Supply η)) : Except Interrupt Value →
      Option (Rendered Value × Encoding (Supply η))
  | .ok v => resolveRoot (run ask recipes) fuel v [] y
  | .error (.suspend p) => some (.error (.suspend (.cell l) p recalled), y)
  | .error (.throw r) => some (.error (.throw r), y)

theorem resolveRoot_lazy {x : Encoding (Supply η)} (hl : x.store.cell? l = some .lazy) (fuel : Nat)
    {recalled : List CellId} {host : Supply η}
    (hexec : (recipes l).exec ask { recalled } x.store x.host = ((r, os), a, s, host)) :
    resolveRoot (run ask recipes) (fuel + 1) (.cell l) recalled x =
      proceed ask recipes fuel l a.recalled ⟨x.encoder.queueAll a.hints, s, host⟩ r := by
  have hcell : x.store.cellOf? (.cell l) = some .lazy := hl
  have hforce : force (run ask recipes) l recalled x =
      some ((r, a.recalled), ⟨x.encoder.queueAll a.hints, s, host⟩) := by
    simp only [force, run, hexec]
    rfl
  simp only [resolveRoot, bind, StateT.bind, EncodeM.store, Option.bind_some, hcell, hforce]
  rcases r with (p | r) | v <;> rfl

theorem resolveRoot_value {x : Encoding (Supply η)} {v : Value}
    (hv : x.store.cellOf? v ≠ some .lazy) (fuel : Nat) (recalled : List CellId) :
    resolveRoot (run ask recipes) (fuel + 1) v recalled x = some (.ok v, x) := by
  simp only [resolveRoot, bind, StateT.bind, EncodeM.store, Option.bind_some]
  generalize x.store.cellOf? v = c at hv
  cases v with
  | cell id =>
    rcases c with _ | c
    · rfl
    · cases c <;> first | rfl | exact absurd rfl hv
  | _ => rfl

/-- Lazy values that hand over to each other, `n` of them, reading these outcomes and giving these
hints. -/
inductive Chain (recipes : CellId → Recipe) (s : Store) : Nat → CellId → List Outcome →
    List Hint → CellId → Prop
  | stay (l : CellId) : Chain recipes s 0 l [] [] l
  | next {n l l' l'' os hs os' hs'} (hlazy : s.cell? l = some .lazy)
    (h : (recipes l).Leads os hs (.give (.cell l')))
    (rest : Chain recipes s n l' os' hs' l'') :
      Chain recipes s (n + 1) l (os ++ os') (hs ++ hs') l''

namespace Chain

variable {s s' : Store} {n : Nat} {l l' l'' : CellId} {os os' : List Outcome} {hs hs' : List Hint}

/-- **With all promises laid out** one lazy value after the other is forced without an
interruption. -/
theorem resolveRoot (h : Chain recipes s n l os hs l') (hgiven : given.map s.outcome? = os.map some)
    (rest : List CellId) (own : η) (e : Encoder) (fuel : Nat) :
    Render.resolveRoot (run ask recipes) (n + fuel) (.cell l) [] ⟨e, s, ⟨given ++ rest, own⟩⟩ =
      Render.resolveRoot (run ask recipes) fuel (.cell l') [] ⟨e.queueAll hs, s, ⟨rest, own⟩⟩ := by
  induction h generalizing given e with
  | stay l =>
    rw [List.map_eq_nil_iff.mp hgiven, Nat.zero_add]
    rfl
  | @next n l l' l'' os hs os' hs' hlazy h _ ih =>
    rw [List.map_append] at hgiven
    obtain ⟨given, given', rfl, hgiven, hgiven'⟩ := List.map_eq_append_iff.mp hgiven
    obtain ⟨a, os'', hexec, hhints⟩ := exec_laid ask (r := .ok (.cell l')) h rfl rfl (a := {}) rfl
      hgiven (given' ++ rest) own
    rw [List.append_assoc, Nat.add_right_comm, resolveRoot_lazy hlazy _ hexec, hhints,
      List.nil_append, Encoder.queueAll_append]
    exact ih hgiven' _

end Chain

/-- The root has been forced: after `n` lazy values have handed over, the last one has come to
`t`. -/
def Through (recipes : CellId → Recipe) (fresh : Encoder) (root : CellId) (n : Nat)
    (recorded : List CellId) (t : Recipe) (e : Encoder) (s : Store) : Prop :=
  ∃ l os hs os' hs', s.cell? l = some .lazy ∧ Chain recipes s n root os hs l ∧
    (recipes l).Leads os' hs' t ∧
    recorded.map s.outcome? = (os ++ os').map some ∧ e = fresh.queueAll (hs ++ hs')

section

variable {fresh : Encoder} {root l : CellId} {past : List (List CellId)} {recalled : List CellId}
  {x y : Encoding (Supply η)}

/-- The recipe that a result is the end of. -/
def ending : Rendered Value → Recipe
  | .ok v => .give v
  | .error (.throw r) => .fail r
  | .error (.suspend v ..) => .give v

/-- **A fresh encoder with everything laid out** gets to the same point. -/
theorem Through.resolveRoot {r : Rendered Value} {n : Nat} {recorded : List CellId}
    (T : Through recipes fresh root n recorded (ending r) e s)
    (hr : ∀ v p recalled', r ≠ .error (.suspend v p recalled'))
    (hvalue : ∀ v, r = .ok v → s.cellOf? v ≠ some .lazy)
    (hgiven : given.map s.outcome? = recorded.map s.outcome?) (own : η) {fuel : Nat}
    (hfuel : n + 1 < fuel) :
    Render.resolveRoot (run ask recipes) fuel (.cell root) [] ⟨fresh, s, ⟨given, own⟩⟩ =
      some (r, ⟨e, s, ⟨[], own⟩⟩) := by
  obtain ⟨l, os, hs, os', hs', hlazy, hchain, hleads, hrecorded, rfl⟩ := T
  obtain ⟨fuel, rfl⟩ : ∃ f, fuel = n + (f + 2) := ⟨fuel - n - 2, by omega⟩
  rw [hrecorded, List.map_append] at hgiven
  obtain ⟨given, given', rfl, hgiven, hgiven'⟩ := List.map_eq_append_iff.mp hgiven
  rw [hchain.resolveRoot hgiven]
  have last : ∀ res : Except Interrupt Value, (ending r).Stops res → (heard? res).isSome →
      Render.resolveRoot (run ask recipes) (fuel + 2) (.cell l) []
        ⟨fresh.queueAll hs, s, ⟨given', own⟩⟩ =
        proceed ask recipes (fuel + 1) l [] ⟨fresh.queueAll (hs ++ hs'), s, ⟨[], own⟩⟩ res := by
    intro res hstops hres
    obtain ⟨a, os'', hexec, hhints⟩ := exec_laid ask hleads hstops hres (a := {}) rfl hgiven' [] own
    rw [List.append_nil] at hexec
    rw [resolveRoot_lazy hlazy _ hexec, hhints, List.nil_append, Encoder.queueAll_append]
    rcases res with (_ | _) | _
    · cases hres
    · rfl
    · rfl
  rcases r with (⟨v, p, recalled'⟩ | e) | v
  · exact absurd rfl (hr _ _ _)
  · exact last (.error (.throw e)) rfl rfl
  · exact (last (.ok v) rfl rfl).trans (resolveRoot_value (hvalue v rfl) _ _)

end

/-! ### The course of a row whose root is lazy -/

section

variable {s₀ : Store} {root : CellId} {manifest : Manifest} {options : EncoderOptions}
  {x z : Encoding (Supply η)} {model model' : Value} {past : List (List CellId)}
  {recalled recalled' : List CellId} {fuel : Nat}

end

end Recipe

open Recipe Render

end GraphRows
