import GraphRows.Encoder.Work
import GraphRows.Proofs.Encoder.Owing
import GraphRows.Proofs.Store.Likeness

/-!
# Two encoders side by side

Two encoders that hide what errors say are run side by side, on stores that are akin and with thunks
that answer alike on akin stores. Neither of them ever writes an error, only its digest, and
corresponding errors have the same digest. So whatever one of them does the other does too: the two
encoders stay the same in every field but the function that gives the digests, and the stores stay
akin.

The fuel of the two need not be the same. `Tracks R m m'` says that when both give an answer, the
answers are related by `R` and what is left is paired again; and that the second gives an answer
whenever the first does and the second has no less fuel. There is one such statement for each of the
mutually recursive functions of rendering, and they are proved together by induction on the fuel.

## Main results

* `Render.follows`: all of rendering
* `Render.work_tracks`: acting on any messages and sending what is queued
-/

namespace GraphRows

/-- The encoder with another way to tell of errors. -/
def Encoder.saying (e : Encoder) (digest : Option Digest) : Encoder := { e with digest }

/-- The reasons an encoder gives of its own. -/
inductive Rejection.Own : Rejection → Prop
  | aborted : Own .aborted
  | abortedByPostpone : Own .abortedByPostpone
  | streamTaken : Own (.ofFault .streamTaken)
  | streamLocked : Own (.ofFault .streamLocked)
  | unwritableTemporary : Own (.ofFault .unwritableTemporary)
  | unwritable (typeName : String) : Own (.ofFault (.unwritable typeName))
  | unknownModule (path : String) : Own (.ofFault (.unknownModule path))

/-- What corresponds in two runs. -/
structure Pairing (η η' : Type) where
  /-- the errors that correspond -/
  cause : Cause → Cause → Prop
  /-- an error that both encoders raise of their own corresponds to itself -/
  own : ∀ r : Rejection, r.Own → r.Akin cause r
  /-- the states of the host that correspond -/
  host : η → η' → Prop
  /-- what the first encoder says about errors -/
  digest : Option Digest
  /-- what the second encoder says about errors -/
  otherDigest : Option Digest
  /-- corresponding errors have the same digest -/
  same_digest : Option.Rel (fun f g => ∀ n c c', cause c c' → f n c.message =
    g n c'.message) digest otherDigest

namespace Pairing

variable {η η' : Type} (L : Pairing η η')

/-- The second encoder is the first one but for the digests, and they hide what errors say. -/
structure Encoders (e e' : Encoder) : Prop where
  digest : e.digest = L.digest
  hides : e.config.exposeErrors = false
  eq : e' = e.saying L.otherDigest

/-- Encoders with their stores that correspond. -/
structure Both (p p' : Encoder × Store) : Prop where
  encoder : L.Encoders p.1 p'.1
  store : p.2.Akin L.cause p'.2

/-- Two encoders at work that correspond. -/
structure Paired (x : Encoding η) (x' : Encoding η') : Prop where
  encoder : L.Encoders x.encoder x'.encoder
  store : x.store.Akin L.cause x'.store
  host : L.host x.host x'.host

/-- What two thunks answer corresponds. -/
def Answers (p : Except Interrupt Value × Attempt × Store × η)
    (p' : Except Interrupt Value × Attempt × Store × η') : Prop :=
  Forced.Akin L.cause p.1 p'.1 ∧ p.2.1 = p'.2.1 ∧ p.2.2.1.Akin L.cause p'.2.2.1 ∧
    L.host p.2.2.2 p'.2.2.2

/-- The thunks of the two hosts do not look into errors: what they do on akin stores corresponds. -/
def Thunks (run : Force η) (run' : Force η') : Prop :=
  ∀ id a s s' h h', Store.Akin L.cause s s' → L.host h h' → Option.Rel L.Answers (run id a s h)
    (run' id a s' h')

end Pairing

/-! ### Steps of the encoder alone -/

/-- A step of an encoder that has nothing to do with errors. -/
def Encoder.Blind {α : Type} (g : Encoder → α × Encoder) : Prop :=
  ∀ e f, g (e.saying f) = ((g e).1, (g e).2.saying f) ∧ (g e).2.config = e.config

namespace Encoder.Blind

variable {α : Type}

theorem digest_eq {g : Encoder → α × Encoder} (hg : Blind g) (e : Encoder) :
    (g e).2.digest = e.digest :=
  congrArg (·.2.digest) (hg e e.digest).1

theorem push (q : Queue) (r : Row) : Blind fun e => ((), e.push q r) := by
  cases q <;> exact fun _ _ => ⟨rfl, rfl⟩

theorem takeTask (id : Nat) : Blind (·.takeTask id) := by
  intro e f
  simp only [Encoder.takeTask, Encoder.saying]
  split <;> exact ⟨rfl, rfl⟩

theorem takeStream (id : Nat) : Blind (·.takeStream id) := by
  intro e f
  simp only [Encoder.takeStream, Encoder.saying]
  split <;> exact ⟨rfl, rfl⟩

theorem queueHint (h : Hint) : Blind (·.queueHint h) := by
  intro e f
  by_cases hq : (e.status == .closed || e.hintKeys.contains h.key) = true
  · have hleft : e.queueHint h = (false, e) := if_pos hq
    have hright : (e.saying f).queueHint h = (false, e.saying f) := if_pos hq
    simp only [hleft, hright, and_self]
  · have hleft : e.queueHint h = _ := if_neg hq
    have hright : (e.saying f).queueHint h = _ := if_neg hq
    simp only [hleft, hright]
    exact ⟨rfl, rfl⟩

end Encoder.Blind

namespace Pairing.Encoders

variable {η η' α : Type} {L : Pairing η η'} {e e' : Encoder} {s s' : Store}

theorem step {g : Encoder → α × Encoder} (hg : Encoder.Blind g) (h : L.Encoders e e') :
    (g e).1 = (g e').1 ∧ L.Encoders (g e).2 (g e').2 := by
  obtain ⟨hstep, hconfig⟩ := hg e L.otherDigest
  rw [h.eq, hstep]
  exact ⟨rfl, (hg.digest_eq e).trans h.digest, hconfig ▸ h.hides, rfl⟩

theorem push (h : L.Encoders e e') (q : Queue) (r : Row) : L.Encoders (e.push q r) (e'.push q r) :=
  (h.step (Encoder.Blind.push q r)).2

theorem queueHints (hints : List Hint) (h : L.Encoders e e') :
    L.Encoders (hints.foldl (fun e h => (e.queueHint h).2) e)
      (hints.foldl (fun e h => (e.queueHint h).2) e') := by
  induction hints generalizing e e' with
  | nil => exact h
  | cons hint hints ih => exact ih (h.step (Encoder.Blind.queueHint hint)).2

/-- **Reporting a rejection**: only its digest is written, and that is the same on both sides. -/
theorem emitRejection (h : L.Encoders e e') (hs : s.Akin L.cause s') (id : Nat) {r r' : Rejection}
    (hr : r.Akin L.cause r') :
    L.Both (e.emitRejection s id r) (e'.emitRejection s' id r') := by
  obtain ⟨hdigest, hides, rfl⟩ := h
  cases hr with
  | postpone reason =>
    refine ⟨Encoders.push ⟨hdigest, hides, rfl⟩ .errors _, ?_⟩
    have hobserve : (e.saying L.otherDigest).observePostpone = e.observePostpone := rfl
    simp only [Encoder.emitRejection, hobserve]
    split
    · exact hs.note _ _
    · exact hs
  | error hc =>
    have hsame := L.same_digest
    revert hsame hdigest
    generalize hf : L.digest = f, hg : L.otherDigest = g
    rintro hdigest (@⟨f, g, hfg⟩ | -)
    · simp only [Encoder.emitRejection, Encoder.reportError, Encoder.errorPayload, Encoder.saying,
        hdigest, hides, Bool.false_eq_true, if_false, hfg _ _ _ hc]
      exact ⟨⟨hf.symm, hides, hg ▸ rfl⟩, hs.note _ _⟩
    · simp only [Encoder.emitRejection, Encoder.reportError, Encoder.errorPayload, Encoder.saying,
        hdigest, hides, Bool.false_eq_true, if_false]
      exact ⟨⟨hdigest.trans hf.symm, hides, hg ▸ rfl⟩, hs⟩

theorem fatalRow (h : L.Encoders e e') (hs : s.Akin L.cause s') :
    (e.fatalRow s).1 = (e'.fatalRow s').1 ∧ L.Both (e.fatalRow s).2 (e'.fatalRow s').2 := by
  obtain ⟨hdigest, hides, rfl⟩ := h
  have hfatal : (e.saying L.otherDigest).fatal = e.fatal := rfl
  simp only [Encoder.fatalRow, hfatal]
  cases e.fatal with
  | some id => exact ⟨rfl, ⟨hdigest, hides, rfl⟩, hs⟩
  | none =>
    refine ⟨rfl, Encoders.emitRejection ?_ hs _ (L.own _ .aborted)⟩
    exact ⟨hdigest, hides, rfl⟩

/-- **A flush** writes the same, in the same pieces. -/
theorem flush (h : L.Encoders e e') (hs : s.Akin L.cause s') :
    L.Both (e.flush s) (e'.flush s') := by
  obtain ⟨hdigest, hides, rfl⟩ := h
  cases hsink : e.sink with
  | none =>
    have hleft : e.flush s = (e, s) := by rw [Encoder.flush, hsink]
    have hright : (e.saying L.otherDigest).flush s' = (e.saying L.otherDigest, s') := by
      rw [Encoder.flush, show (e.saying L.otherDigest).sink = none from hsink]
    rw [hleft, hright]
    exact ⟨⟨hdigest, hides, rfl⟩, hs⟩
  | some i =>
    simp only [Encoder.flush, Encoder.saying, hsink, hs.sink i]
    split
    · exact ⟨⟨hdigest, hides, rfl⟩, hs.setSink i _⟩
    · exact ⟨⟨hdigest, hides, rfl⟩, hs.setSink i _⟩

end Pairing.Encoders

/-! ### Tracking -/

namespace EncodeM

variable {η η' α β γ δ : Type}

/-- From paired states, the answers of `m` and `m'` are related by `R` and leave paired states, and
if `more` then `m'` answers whenever `m` does. -/
def Tracks (L : Pairing η η') (more : Prop) (R : α → β → Prop) (m : EncodeM η α)
    (m' : EncodeM η' β) : Prop :=
  ∀ x x', L.Paired x x' → ∀ a y, m x = some (a, y) →
    (more → ∃ b y', m' x' = some (b, y')) ∧ ∀ b y', m' x' = some (b, y') → R a b ∧ L.Paired y y'

namespace Tracks

variable {L : Pairing η η'} {more : Prop} {R : α → β → Prop} {S : γ → δ → Prop} {m : EncodeM η α}
  {m' : EncodeM η' β}

theorem bind {f : α → EncodeM η γ} {f' : β → EncodeM η' δ} (hm : Tracks L more R m m')
    (hf : ∀ a b, R a b → Tracks L more S (f a) (f' b)) : Tracks L more S (m >>= f) (m' >>= f') := by
  intro x x' hx c z hz
  obtain ⟨a, y, hay, hcz⟩ := bind_eq_some.mp hz
  obtain ⟨hsome, hrel⟩ := hm x x' hx a y hay
  constructor
  · intro hmore
    obtain ⟨b, y', hby⟩ := hsome hmore
    obtain ⟨hab, hy⟩ := hrel b y' hby
    obtain ⟨d, z', hdz⟩ := (hf a b hab y y' hy c z hcz).1 hmore
    exact ⟨d, z', bind_eq_some.mpr ⟨b, y', hby, hdz⟩⟩
  · intro d z' hz'
    obtain ⟨b, y', hby, hdz⟩ := bind_eq_some.mp hz'
    obtain ⟨hab, hy⟩ := hrel b y' hby
    exact (hf a b hab y y' hy c z hcz).2 d z' hdz

/-- Steps that always have an answer. -/
theorem of_total {f : Encoding η → α × Encoding η} {g : Encoding η' → β × Encoding η'}
    (h : ∀ x x', L.Paired x x' → R (f x).1 (g x').1 ∧ L.Paired (f x).2 (g x').2) :
    Tracks L more R (fun x => some (f x)) (fun x => some (g x)) := by
  intro x x' hx a y hy
  refine ⟨fun _ => ⟨_, _, rfl⟩, fun b y' hy' => ?_⟩
  have hpaired := h x x' hx
  rw [Option.some.inj hy, Option.some.inj hy'] at hpaired
  exact hpaired

theorem pure {a : α} {b : β} (h : R a b) : Tracks L more R (Pure.pure a) (Pure.pure b) :=
  of_total (f := fun x => (a, x)) (g := fun x => (b, x)) fun _ _ hx => ⟨h, hx⟩

theorem exhausted : Tracks L more R EncodeM.exhausted m' := by
  rintro x x' - a y ⟨⟩

theorem exhausted_right (h : ¬ more) (hm' : m' = EncodeM.exhausted) : Tracks L more R m m' := by
  rw [hm']
  intro x x' _ a y _
  exact ⟨fun hmore => absurd hmore h, by rintro b y' ⟨⟩⟩

/-- One unit of fuel more on both sides. -/
theorem less {n k : Nat} (h : Tracks L (n ≤ k) R m m') : Tracks L (n + 1 ≤ k + 1) R m m' := by
  intro x x' hx a y hy
  obtain ⟨hsome, hrel⟩ := h x x' hx a y hy
  exact ⟨fun hmore => hsome (Nat.le_of_succ_le_succ hmore), hrel⟩

theorem ite {c c' : Prop} [Decidable c] [Decidable c'] {n : EncodeM η α} {n' : EncodeM η' β}
    (hc : c ↔ c') (hm : Tracks L more R m m') (hn : Tracks L more R n n') :
    Tracks L more R (if c then m else n) (if c' then m' else n') := by
  by_cases h : c
  · rw [if_pos h, if_pos (hc.mp h)]
    exact hm
  · rw [if_neg h, if_neg fun h' => h (hc.mpr h')]
    exact hn

theorem encoder : Tracks L more L.Encoders EncodeM.encoder EncodeM.encoder :=
  of_total (f := fun x => (x.encoder, x)) (g := fun x => (x.encoder, x)) fun _ _ hx =>
    ⟨hx.encoder, hx⟩

theorem store : Tracks L more (Store.Akin L.cause) EncodeM.store EncodeM.store :=
  of_total (f := fun x => (x.store, x)) (g := fun x => (x.store, x)) fun _ _ hx => ⟨hx.store, hx⟩

theorem onEncoder {g : Encoder → γ × Encoder} (hg : Encoder.Blind g) :
    Tracks L more Eq (EncodeM.onEncoder g) (EncodeM.onEncoder g) :=
  of_total fun _ _ hx => ⟨(hx.encoder.step hg).1, (hx.encoder.step hg).2, hx.store, hx.host⟩

theorem modifyEncoder {g : Encoder → Encoder} (hg : Encoder.Blind fun e => ((), g e)) :
    Tracks L more Eq (EncodeM.modifyEncoder g) (EncodeM.modifyEncoder g) :=
  onEncoder hg

theorem onStore {f : Store → α × Store} {g : Store → β × Store}
    (h : ∀ s s', Store.Akin L.cause s s' → R (f s).1 (g s').1 ∧ (f s).2.Akin L.cause (g s').2) :
    Tracks L more R (EncodeM.onStore f) (EncodeM.onStore g) :=
  of_total fun _ _ hx => ⟨(h _ _ hx.store).1, hx.encoder, (h _ _ hx.store).2, hx.host⟩

theorem modifyStore {f g : Store → Store}
    (h : ∀ s s', Store.Akin L.cause s s' → (f s).Akin L.cause (g s')) :
    Tracks L more Eq (EncodeM.modifyStore f) (EncodeM.modifyStore g) :=
  onStore (f := fun s => ((), f s)) (g := fun s => ((), g s)) fun s s' hs => ⟨rfl, h s s' hs⟩

theorem onBoth {f g : Encoder → Store → Encoder × Store}
    (h : ∀ e e' s s', L.Encoders e e' → Store.Akin L.cause s s' → L.Both (f e s) (g e' s')) :
    Tracks L more Eq (EncodeM.onBoth f) (EncodeM.onBoth g) :=
  of_total fun _ _ hx => ⟨rfl, (h _ _ _ _ hx.encoder hx.store).1,
    (h _ _ _ _ hx.encoder hx.store).2, hx.host⟩

theorem emitRejection (id : Nat) {r r' : Rejection} (hr : r.Akin L.cause r') :
    Tracks L more Eq (EncodeM.emitRejection id r) (EncodeM.emitRejection id r') :=
  onBoth fun _ _ _ _ he hs => he.emitRejection hs id hr

theorem fatalRow : Tracks L more Eq EncodeM.fatalRow EncodeM.fatalRow :=
  of_total fun _ _ hx => ⟨(hx.encoder.fatalRow hx.store).1, (hx.encoder.fatalRow hx.store).2.1,
    (hx.encoder.fatalRow hx.store).2.2, hx.host⟩

/-- A step with the same answer on both sides. -/
theorem same {f : α → EncodeM η γ} {f' : α → EncodeM η' δ} {m' : EncodeM η' α}
    (hm : Tracks L more Eq m m') (hf : ∀ a, Tracks L more S (f a) (f' a)) :
    Tracks L more S (m >>= f) (m' >>= f') :=
  hm.bind fun a _ h => h ▸ hf a

theorem read {f : Encoder → EncodeM η γ} {f' : Encoder → EncodeM η' δ}
    (hf : ∀ e, Tracks L more S (f e) (f' (e.saying L.otherDigest))) :
    Tracks L more S (EncodeM.encoder >>= f) (EncodeM.encoder >>= f') := by
  refine encoder.bind fun e e' he => ?_
  obtain ⟨-, -, rfl⟩ := he
  exact hf e

theorem change {g : Encoder → Encoder} {k : EncodeM η γ} {k' : EncodeM η' δ}
    (hk : Tracks L more S k k')
    (hg : Encoder.Blind fun e => ((), g e) := by exact fun _ _ => ⟨rfl, rfl⟩) :
    Tracks L more S (EncodeM.modifyEncoder g >>= fun _ => k) (EncodeM.modifyEncoder g >>=
      fun _ => k') :=
  (modifyEncoder hg).bind fun _ _ _ => hk

end Tracks

end EncodeM

/-! ### Rendering -/

section Halts

variable (D : Cause → Cause → Prop)

/-- Results of rendering that correspond; only where `waits` is it allowed to wait. -/
inductive Rendered.Akin (waits : Prop) {α : Type} : Rendered α → Rendered α → Prop
  | ok (a : α) : Akin waits (.ok a) (.ok a)
  | suspend (h : waits) (model : Value) (promise : CellId) (recalled : List CellId) :
      Akin waits (.error (.suspend model promise recalled))
        (.error (.suspend model promise recalled))
  | throw {r r' : Rejection} (h : r.Akin D r') : Akin waits (.error (.throw r)) (.error (.throw r'))

variable {D} in

theorem Rendered.Akin.map {waits : Prop} {α β : Type} {r r' : Rendered α}
    (h : Rendered.Akin D waits r r') (f : α → β) : Rendered.Akin D waits (r.map f) (r'.map f) := by
  cases h with
  | ok a => exact .ok (f a)
  | suspend h model promise recalled => exact .suspend h model promise recalled
  | throw h => exact .throw h

end Halts

namespace Render

open EncodeM

variable {η η' : Type} {L : Pairing η η'} {more : Prop}

theorem failed_akin {waits : Prop} {α : Type} {f : Fault} (hf : (Rejection.ofFault f).Own) :
    Rendered.Akin (α := α) L.cause waits (failed f) (failed f) :=
  .throw (L.own _ hf)

theorem resolve_eq_error {m : Manifest} {path : String} {isAsync : Bool} {f : Fault}
    (h : m.resolve path isAsync = .error f) : f = .unknownModule path := by
  unfold Manifest.resolve at h
  split at h
  · cases h
  · exact (Except.error.inj h).symm

theorem force_tracks {run : Force η} {run' : Force η'} (hrun : L.Thunks run run') (id : CellId)
    (recalled : List CellId) :
    Tracks L more (fun p p' => Forced.Akin L.cause p.1 p'.1 ∧ p.2 = p'.2) (force run id recalled)
      (force run' id recalled) := by
  intro x x' hx p y hy
  have hforced := hrun id { recalled } x.store x'.store x.host x'.host hx.store hx.host
  unfold force at hy ⊢
  revert hy hforced
  generalize run id { recalled } x.store x.host = a, run' id { recalled } x'.store x'.host = b
  rintro hy (@⟨⟨r, a, s, h⟩, ⟨r', a', s', h'⟩, hr, rfl, hs, hh⟩ | -)
  · refine ⟨fun _ => ⟨_, _, rfl⟩, fun p' y' hy' => ?_⟩
    obtain ⟨rfl, rfl⟩ := Prod.mk.inj (Option.some.inj hy)
    obtain ⟨rfl, rfl⟩ := Prod.mk.inj (Option.some.inj hy')
    exact ⟨⟨hr, rfl⟩, hx.encoder.queueHints a.hints, hs, hh⟩
  · cases hy

theorem createTask_blind (model : Value) (recalled : List CellId) :
    Encoder.Blind (·.createTask model recalled) :=
  fun _ _ => ⟨rfl, rfl⟩

theorem renderString_tracks (t : String) : Tracks L more Eq (renderString t) (renderString t) := by
  unfold renderString
  refine .read fun e => ?_
  refine .ite Iff.rfl ?_ ?_
  · refine .same (.onEncoder fun _ _ => ⟨rfl, rfl⟩) fun id => ?_
    exact .change <| .pure rfl
  · exact .pure rfl

theorem renderSymbol_tracks (name : String) :
    Tracks L more Eq (renderSymbol name) (renderSymbol name) := by
  unfold renderSymbol
  refine .read fun e => ?_
  dsimp only [Encoder.saying]
  split
  · exact .pure rfl
  · refine .same (.onEncoder fun _ _ => ⟨rfl, rfl⟩) fun id => ?_
    exact .change <| .change <| .pure rfl

theorem renderClient_tracks (path : String) (isAsync : Bool) :
    Tracks L more Eq (renderClient path isAsync) (renderClient path isAsync) := by
  unfold renderClient
  refine .read fun e => ?_
  dsimp only [Encoder.saying]
  split
  · exact .pure rfl
  · refine .same (.onEncoder fun _ _ => ⟨rfl, rfl⟩) fun id => ?_
    have hrecord : Tracks L more Eq
        (do modifyEncoder fun e =>
            { e with refs := e.refs.recordClient (clientKey path isAsync) id }
            return Encoder.rowJson id)
        (do modifyEncoder fun e =>
            { e with refs := e.refs.recordClient (clientKey path isAsync) id }
            return Encoder.rowJson id) :=
      .change <| .pure rfl
    refine .read fun e => ?_
    dsimp only [Encoder.saying]
    split
    · exact .change hrecord
    · rename_i f hf
      rw [resolve_eq_error hf]
      exact .bind (.emitRejection id (L.own _ (.unknownModule path))) fun _ _ _ => hrecord

theorem promiseRow_tracks (id : CellId) : Tracks L more Eq (promiseRow id) (promiseRow id) := by
  unfold promiseRow
  refine .same (.onEncoder (createTask_blind .null [])) fun task => ?_
  refine .bind .store fun s s' hs => ?_
  have hout := hs.outcome? id
  revert hout
  generalize s.outcome? id = a, s'.outcome? id = b
  rintro (@⟨_, _, ho⟩ | -)
  · cases ho with
    | ok v =>
      refine .change <| .read fun e => ?_
      exact .bind (.modifyStore fun s s' hs => hs.post e.mailbox (.retry task.id))
        fun _ _ _ => .pure rfl
    | error hr =>
      exact .change <| .bind (.emitRejection task.id hr) fun _ _ _ => .pure rfl
  · refine .read fun e => ?_
    refine .ite Iff.rfl ?_ ?_
    · refine .change <| .same .fatalRow fun fatal => ?_
      exact .change <| .pure rfl
    · refine .change <| .read fun e => ?_
      exact .bind (.modifyStore fun s s' hs => hs.andThen id _) fun _ _ _ => .pure rfl

theorem renderPromise_tracks (id : CellId) (isRoot : Bool) :
    Tracks L more Eq (renderPromise id isRoot) (renderPromise id isRoot) := by
  unfold renderPromise
  refine .read fun e => ?_
  dsimp only [Encoder.saying]
  split
  · exact .pure rfl
  · refine .same (promiseRow_tracks id) fun row => ?_
    exact .change <| .pure rfl

theorem renderStream_tracks (id : CellId) {st st' : Stream} (hst : st.Akin L.cause st') :
    Tracks L more (Rendered.Akin L.cause True) (renderStream id st) (renderStream id st') := by
  obtain ⟨kind, hbuffer, finished, terminated, returned, hcancelled, locked, subscriber, bell⟩ :=
    hst
  unfold renderStream
  dsimp only
  split
  · exact .pure (failed_akin .streamTaken)
  · refine .same (.onEncoder (createTask_blind _ [])) fun task => ?_
    refine .change <| .change <| .change <| .change <| .bind .store fun s s' hs => .read fun e => ?_
    obtain ⟨hleft, hright⟩ | ⟨t, t', hleft, hright, ht⟩ := hs.subscribe id e.mailbox task.id
    · rw [hleft, show s'.subscribe id (e.saying L.otherDigest).mailbox task.id =
        .error .streamLocked from hright]
      exact .pure (failed_akin .streamLocked)
    · rw [hleft, show s'.subscribe id (e.saying L.otherDigest).mailbox task.id = .ok t' from hright]
      exact .bind (.modifyStore fun _ _ _ => ht) fun _ _ _ => .pure (.ok _)

theorem renderBinary_tracks (id : CellId) (data : Binary) :
    Tracks L more Eq (renderBinary id data) (renderBinary id data) := by
  unfold renderBinary
  refine .same (.onEncoder fun _ _ => ⟨rfl, rfl⟩) fun row => ?_
  refine .change <| .read fun e => ?_
  exact .ite Iff.rfl (.change <| .pure rfl) (.pure rfl)

theorem remember_tracks (task : Nat) (parent : Option Reference) (key : String) (id : CellId)
    (isRoot isTree : Bool) :
    Tracks L more Eq (remember task parent key id isRoot isTree)
      (remember task parent key id isRoot isTree) := by
  unfold remember
  refine .read fun e => ?_
  dsimp only [Encoder.saying]
  have hroot : Tracks L more Eq
      (if (isRoot && isTree) = true then modifyEncoder
        (·.record (.cell id) (.row { row := task })) else Pure.pure ())
      (if (isRoot && isTree) = true then modifyEncoder
        (·.record (.cell id) (.row { row := task })) else Pure.pure ()) := by
    split
    · exact .modifyEncoder fun _ _ => ⟨rfl, rfl⟩
    · exact .pure rfl
  refine .ite Iff.rfl ?_ hroot
  cases childReference? parent key with
  | some r => exact .change hroot
  | none => exact hroot

theorem ownReference_tracks (id : CellId) :
    Tracks L more Eq (ownReference id) (ownReference id) := by
  unfold ownReference
  refine .read fun e => ?_
  dsimp only [Encoder.saying]
  split
  · exact .pure rfl
  · exact .pure rfl

theorem suspendTask_tracks (task : Task) (promise : CellId) :
    Tracks L more Eq (suspendTask task promise) (suspendTask task promise) := by
  unfold suspendTask
  refine .change <| .read fun e => ?_
  exact .modifyStore fun s s' hs => hs.andThen promise _

theorem renderParts_tracks {render : String → Value → EncodeM η (Rendered Json)}
    {render' : String → Value → EncodeM η' (Rendered Json)}
    (hrender : ∀ k v, Tracks L more (Rendered.Akin L.cause False) (render k v) (render' k v))
    (parts : List (String × Value)) :
    Tracks L more (Rendered.Akin L.cause True) (renderParts render parts)
      (renderParts render' parts) := by
  induction parts with
  | nil => exact .pure (.ok [])
  | cons part parts ih =>
    unfold renderParts
    refine .bind (hrender part.1 part.2) fun r r' hr => ?_
    cases hr with
    | suspend h => exact h.elim
    | throw h => exact .pure (.throw h)
    | ok j =>
      refine .bind ih fun rs rs' hrs => ?_
      cases hrs with
      | suspend h model promise recalled => exact .pure (.suspend h model promise recalled)
      | throw h => exact .pure (.throw h)
      | ok js => exact .pure (.ok _)

/-- All of rendering tracks, the first with `n` units of fuel and the second with `k`. -/
structure Follows (L : Pairing η η') (run : Force η) (run' : Force η') (n k : Nat) : Prop where
  task : ∀ task, Tracks L (n ≤ k) Eq (retryTask run n task) (retryTask run' k task)
  root : ∀ v recalled, Tracks L (n ≤ k) (Rendered.Akin L.cause True) (resolveRoot run n v recalled)
    (resolveRoot run' k v recalled)
  outline : ∀ model, Tracks L (n ≤ k) Eq (outline run n model) (outline run' k model)
  model : ∀ task parent key v, Tracks L (n ≤ k) (Rendered.Akin L.cause False)
    (renderModel run n task parent key v) (renderModel run' k task parent key v)
  value : ∀ task parent key v isRoot, Tracks L (n ≤ k) (Rendered.Akin L.cause True)
    (renderValue run n task parent key v isRoot) (renderValue run' k task parent key v isRoot)
  server : ∀ id name bound, Tracks L (n ≤ k) Eq (renderServer run n id name bound)
    (renderServer run' k id name bound)
  shared : ∀ task parent key id {c c' : Cell} isRoot, c.Akin L.cause c' →
    Tracks L (n ≤ k) (Rendered.Akin L.cause True)
    (renderShared run n task parent key id c isRoot)
    (renderShared run' k task parent key id c' isRoot)

namespace Follows

variable {run : Force η} {run' : Force η'} {n k : Nat}

theorem task_succ (F : Follows L run run' n k) (task : Task) :
    Tracks L (n ≤ k) Eq (retryTask run (n + 1) task) (retryTask run' (k + 1) task) := by
  unfold retryTask
  refine .ite Iff.rfl (.pure rfl) (.bind (F.root task.model task.recalled) fun r r' hr => ?_)
  extract_lets finish finish'
  have hfinish : ∀ r r', Rendered.Akin L.cause True r r' →
      Tracks L (n ≤ k) Eq (finish r) (finish' r') := by
    intro r r' hr
    cases hr with
    | ok j => exact .change <| .modifyEncoder fun _ _ => ⟨rfl, rfl⟩
    | suspend _ model promise recalled =>
      refine .read fun e => ?_
      refine .ite Iff.rfl ?_ (suspendTask_tracks _ promise)
      refine .change <| .same .fatalRow fun fatal => ?_
      exact .modifyEncoder fun _ _ => ⟨rfl, rfl⟩
    | throw hr =>
      exact .change <| .emitRejection task.id hr
  cases hr with
  | ok model => exact .bind (F.value task.id none "" model true) hfinish
  | suspend h model promise recalled =>
    exact .bind (.pure (.suspend h model promise recalled)) hfinish
  | throw hr => exact .bind (.pure (.throw hr)) hfinish

theorem root_succ (F : Follows L run run' n k) (hrun : L.Thunks run run') (v : Value)
    (recalled : List CellId) :
    Tracks L (n ≤ k) (Rendered.Akin L.cause True) (resolveRoot run (n + 1) v recalled)
      (resolveRoot run' (k + 1) v recalled) := by
  unfold resolveRoot
  refine .bind .store fun s s' hs => ?_
  cases v with
  | cell id =>
    have hcell := hs.cellOf? (.cell id)
    revert hcell
    generalize s.cellOf? (.cell id) = a, s'.cellOf? (.cell id) = b
    rintro (@⟨_, _, hc⟩ | -)
    · cases hc with
      | promise _ => exact .pure (.ok _)
      | stream _ => exact .pure (.ok _)
      | plain h =>
        rename_i cell
        cases cell with
        | lazy =>
          refine .bind (force_tracks hrun id recalled) fun p p' hp => ?_
          obtain ⟨r, recalled⟩ := p
          obtain ⟨r', recalled'⟩ := p'
          obtain ⟨hr, hrecalled⟩ := hp
          obtain rfl : recalled = recalled' := hrecalled
          cases hr with
          | ok v => exact F.root v []
          | suspend promise => exact .pure (.suspend trivial _ promise _)
          | throw hr => exact .pure (.throw hr)
        | _ => exact .pure (.ok _)
    · exact .pure (.ok _)
  | _ => exact .pure (.ok _)

theorem outline_succ (F : Follows L run run' n k) (model : Value) :
    Tracks L (n ≤ k) Eq (Render.outline run (n + 1) model) (Render.outline run' (k + 1) model) := by
  unfold Render.outline
  refine .same (.onEncoder (createTask_blind model [])) fun task => ?_
  exact .bind (F.task task) fun _ _ _ => .pure rfl

theorem model_succ (F : Follows L run run' n k) (task : Nat) (parent : Option Reference)
    (key : String) (v : Value) :
    Tracks L (n ≤ k) (Rendered.Akin L.cause False) (renderModel run (n + 1) task parent key v)
      (renderModel run' (k + 1) task parent key v) := by
  unfold renderModel
  refine .bind (F.value task parent key v false) fun r r' hr => ?_
  cases hr with
  | ok j => exact .pure (.ok j)
  | suspend _ model promise recalled =>
    refine .read fun e => ?_
    refine .ite Iff.rfl ?_ ?_
    · refine .same .fatalRow fun fatal => ?_
      exact .pure (.ok _)
    · refine .same (.onEncoder (createTask_blind model recalled)) fun outlined => ?_
      exact .bind (suspendTask_tracks outlined promise) fun _ _ _ => .pure (.ok _)
  | throw hr =>
    cases hr with
    | error hc => exact .pure (.throw (.error hc))
    | postpone reason =>
      refine .same (.onEncoder fun _ _ => ⟨rfl, rfl⟩) fun id => ?_
      exact .bind (.emitRejection id (.postpone reason)) fun _ _ _ => .pure (.ok _)

theorem value_succ (F : Follows L run run' n k) (hrun : L.Thunks run run') (task : Nat)
    (parent : Option Reference) (key : String) (v : Value) (isRoot : Bool) :
    Tracks L (n ≤ k) (Rendered.Akin L.cause True) (renderValue run (n + 1) task parent key v isRoot)
      (renderValue run' (k + 1) task parent key v isRoot) := by
  have answered : ∀ j j' : Json, j = j' → Tracks L (n ≤ k) (Rendered.Akin L.cause True)
      (Pure.pure (.ok j)) (Pure.pure (.ok j')) := by
    rintro j _ rfl
    exact .pure (.ok j)
  unfold renderValue
  cases v with
  | string t => exact .bind (renderString_tracks t) answered
  | symbol name => exact .bind (renderSymbol_tracks name) answered
  | cell id =>
    refine .bind .store fun s s' hs => ?_
    have hcell := hs.cell? id
    revert hcell
    generalize s.cell? id = a, s'.cell? id = b
    rintro (@⟨_, _, hc⟩ | -)
    · cases hc with
      | promise hp => exact F.shared task parent key id isRoot (.promise hp)
      | stream hst => exact F.shared task parent key id isRoot (.stream hst)
      | plain h =>
        rename_i cell
        cases cell with
        | lazy =>
          refine .bind (force_tracks hrun id []) fun p p' hp => ?_
          obtain ⟨r, recalled⟩ := p
          obtain ⟨r', recalled'⟩ := p'
          obtain ⟨hr, hrecalled⟩ := hp
          obtain rfl : recalled = recalled' := hrecalled
          cases hr with
          | ok v => exact F.value task none "" v false
          | suspend promise => exact .pure (.suspend trivial _ promise _)
          | throw hr => exact .pure (.throw hr)
        | client path isAsync => exact .bind (renderClient_tracks path isAsync) answered
        | server name bound => exact .bind (F.server id name bound) answered
        | _ => exact F.shared task parent key id isRoot (.plain h)
    · exact .pure (.ok _)
  | _ => exact .pure (.ok _)

theorem server_succ (F : Follows L run run' n k) (id : CellId) (name : String)
    (bound : Option Value) :
    Tracks L (n ≤ k) Eq (renderServer run (n + 1) id name bound)
      (renderServer run' (k + 1) id name bound) := by
  unfold renderServer
  refine .read fun e => ?_
  dsimp only [Encoder.saying]
  split
  · exact .pure rfl
  · refine .same (.onStore fun s s' hs => hs.make (.plain rfl)) fun model => ?_
    refine .same (F.outline model) fun row => ?_
    exact .change <| .pure rfl

/-- The parts of a collection, in a row of their own. -/
theorem collection_tracks (F : Follows L run run' n k) (id : CellId) (c : Cell) (kind : Derived) :
    Tracks L (n ≤ k) (Rendered.Akin L.cause True)
      (do let entries ← onStore (entriesArray c)
          let t := Token.derived kind (← Render.outline run n entries)
          if ((← encoder).refs.get? (.cell id)).isNone then modifyEncoder (·.record (.cell id) t)
          return .ok (tokenJson t))
      (do let entries ← onStore (entriesArray c)
          let t := Token.derived kind (← Render.outline run' k entries)
          if ((← encoder).refs.get? (.cell id)).isNone then modifyEncoder (·.record (.cell id) t)
          return .ok (tokenJson t)) := by
  refine .same (.onStore fun s s' hs => hs.entriesArray c) fun entries => ?_
  refine .same (F.outline entries) fun row => ?_
  refine .read fun e => ?_
  exact .ite Iff.rfl (.change <| .pure (.ok _)) (.pure (.ok _))

theorem temporaryName?_eq {e e' : Encoder} {s s' : Store} (he : L.Encoders e e')
    (hs : s.Akin L.cause s') (id : CellId) : temporaryName? e s id = temporaryName? e' s' id := by
  obtain ⟨-, -, rfl⟩ := he
  rw [temporaryName?, temporaryName?]
  exact Option.bind_congr fun set _ => hs.temporaryId? set _

theorem shared_succ (F : Follows L run run' n k) (task : Nat) (parent : Option Reference)
    (key : String) (id : CellId) {c c' : Cell} (isRoot : Bool) (hc : c.Akin L.cause c') :
    Tracks L (n ≤ k) (Rendered.Akin L.cause True)
      (renderShared run (n + 1) task parent key id c isRoot)
      (renderShared run' (k + 1) task parent key id c' isRoot) := by
  have answered : ∀ j j' : Json, j = j' → Tracks L (n ≤ k) (Rendered.Akin L.cause True)
      (Pure.pure (.ok j)) (Pure.pure (.ok j')) := by
    rintro j _ rfl
    exact .pure (.ok j)
  unfold renderShared
  refine .bind .encoder fun e e' he => .bind .store fun s s' hs => ?_
  rw [← temporaryName?_eq he hs id]
  cases temporaryName? e s id with
  | some name => exact .pure (.ok _)
  | none =>
    cases hc with
    | promise hp => exact .bind (renderPromise_tracks id isRoot) answered
    | stream hst =>
      refine .read fun e => ?_
      dsimp only [Encoder.saying]
      split
      · exact .pure (.ok _)
      · exact .bind (remember_tracks task parent key id _ _) fun _ _ _ => renderStream_tracks id hst
    | plain h =>
      split
      · exact .pure (.ok _)
      · exact .pure (failed_akin .unwritableTemporary)
      · cases h
      refine .read fun e => ?_
      dsimp only [Encoder.saying]
      split
      · exact .pure (.ok _)
      refine .bind (remember_tracks task parent key id _ _) fun _ _ _ => ?_
      split
      · refine .same (ownReference_tracks id) fun own => ?_
        exact .bind (renderParts_tracks (F.model task own) _) fun r r' hr => .pure (hr.map _)
      · refine .same (ownReference_tracks id) fun own => ?_
        exact .bind (renderParts_tracks (F.model task own) _) fun r r' hr => .pure (hr.map _)
      · exact .bind (renderBinary_tracks id _) answered
      · cases h
      · split
        · exact .pure (failed_akin (.unwritable _))
        · exact F.collection_tracks id _ _

end Follows

/-- **Rendering tracks rendering**, whatever the fuel on either side. -/
theorem follows {run : Force η} {run' : Force η'} (hrun : L.Thunks run run') (n k : Nat) :
    Follows L run run' n k := by
  induction n generalizing k with
  | zero =>
    exact {
      task := fun _ => by rw [retryTask]; exact .exhausted
      root := fun _ _ => by rw [resolveRoot]; exact .exhausted
      outline := fun _ => by rw [outline]; exact .exhausted
      model := fun _ _ _ _ => by rw [renderModel]; exact .exhausted
      value := fun _ _ _ _ _ => by rw [renderValue]; exact .exhausted
      server := fun _ _ _ => by rw [renderServer]; exact .exhausted
      shared := fun _ _ _ _ _ _ _ _ => by rw [renderShared]; exact .exhausted }
  | succ n ih =>
    cases k with
    | zero =>
      have hless : ¬ n + 1 ≤ 0 := Nat.not_succ_le_zero n
      exact {
        task := fun _ => .exhausted_right hless (by rw [retryTask])
        root := fun _ _ => .exhausted_right hless (by rw [resolveRoot])
        outline := fun _ => .exhausted_right hless (by rw [outline])
        model := fun _ _ _ _ => .exhausted_right hless (by rw [renderModel])
        value := fun _ _ _ _ _ => .exhausted_right hless (by rw [renderValue])
        server := fun _ _ _ => .exhausted_right hless (by rw [renderServer])
        shared := fun _ _ _ _ _ _ _ _ => .exhausted_right hless (by rw [renderShared]) }
    | succ k =>
      have F := ih k
      exact {
        task := fun task => (F.task_succ task).less
        root := fun v recalled => (F.root_succ hrun v recalled).less
        outline := fun model => (F.outline_succ model).less
        model := fun task parent key v => (F.model_succ task parent key v).less
        value := fun task parent key v isRoot => (F.value_succ hrun task parent key v isRoot).less
        server := fun id name bound => (F.server_succ id name bound).less
        shared := fun task parent key id _ _ isRoot hc =>
          (F.shared_succ task parent key id isRoot hc).less }

/-! ### Acting on messages -/

section Messages

variable {run : Force η} {run' : Force η'}

/-- What became of an item corresponds: a row was queued, or the same kind of failure is to be
reported. -/
inductive Emitted.Akin (D : Cause → Cause → Prop) {α : Type} : Except Rejection α →
    Except Rejection α → Prop
  | ok (a : α) : Akin D (.ok a) (.ok a)
  | error {r r' : Rejection} (h : r.Akin D r') : Akin D (.error r) (.error r')

theorem emitItem_tracks (hrun : L.Thunks run run') (n k : Nat) (task : Task) (item : Value) :
    Tracks L (n ≤ k) (Emitted.Akin L.cause) (emitItem run n task item)
      (emitItem run' k task item) := by
  unfold emitItem
  refine .bind .store fun s s' hs => ?_
  extract_lets finish finish'
  have hfinish : ∀ b b', Emitted.Akin L.cause b b' →
      Tracks L (n ≤ k) (Emitted.Akin L.cause) (finish b) (finish' b') := by
    intro b b' hb
    cases hb with
    | ok body =>
      exact .change <| .change <| .pure (.ok _)
    | error hr => exact .pure (.error hr)
  have hmodel : ∀ {f : Rendered Json → EncodeM η (Except Rejection Unit)}
      {f' : Rendered Json → EncodeM η' (Except Rejection Unit)},
      (∀ j, f (.ok j) = Pure.pure (.ok (.model j)) >>= finish) →
        (∀ r, f (.error (.throw r)) = Pure.pure (.error r) >>= finish) →
      (∀ j, f' (.ok j) = Pure.pure (.ok (.model j)) >>= finish') →
      (∀ r, f' (.error (.throw r)) = Pure.pure (.error r) >>= finish') →
      Tracks L (n ≤ k) (Emitted.Akin L.cause) (renderModel run n task.id none "" item >>= f)
        (renderModel run' k task.id none "" item >>= f') := by
    intro f f' hok hthrow hok' hthrow'
    refine .bind ((follows hrun n k).model task.id none "" item) fun r r' hr => ?_
    cases hr with
    | ok j => rw [hok, hok']; exact .bind (.pure (.ok _)) hfinish
    | suspend h => exact h.elim
    | throw hr => rw [hthrow, hthrow']; exact .bind (.pure (.error hr)) hfinish
  cases item with
  | string t => exact .bind (.pure (.ok (RowBody.text t))) hfinish
  | cell id =>
    have hcell := hs.cellOf? (.cell id)
    revert hcell
    generalize s.cellOf? (.cell id) = a, s'.cellOf? (.cell id) = b
    rintro (@⟨_, _, hc⟩ | -)
    · cases hc with
      | promise _ => exact hmodel (fun _ => rfl) (fun _ => rfl) (fun _ => rfl) fun _ => rfl
      | stream _ => exact hmodel (fun _ => rfl) (fun _ => rfl) (fun _ => rfl) fun _ => rfl
      | plain h =>
        rename_i cell
        cases cell with
        | binary data => exact .bind (.pure (.ok (RowBody.binary data))) hfinish
        | _ => exact hmodel (fun _ => rfl) (fun _ => rfl) (fun _ => rfl) fun _ => rfl
    · exact hmodel (fun _ => rfl) (fun _ => rfl) (fun _ => rfl) fun _ => rfl
  | _ => exact hmodel (fun _ => rfl) (fun _ => rfl) (fun _ => rfl) fun _ => rfl

theorem writeEvents_tracks (hrun : L.Thunks run run') (n k : Nat) (task : Task) (source : CellId) :
    Tracks L (n ≤ k) Eq (writeEvents run n task source) (writeEvents run' k task source) := by
  induction n generalizing k with
  | zero => exact .exhausted
  | succ n ih =>
    cases k with
    | zero => exact .exhausted_right (Nat.not_succ_le_zero n) rfl
    | succ k =>
      refine Tracks.less ?_
      unfold writeEvents
      refine .bind (.onStore fun s s' hs => hs.next source) fun event event' hevent => ?_
      obtain (@⟨_, _, he⟩ | -) := hevent
      · cases he with
        | item v =>
          refine .bind (emitItem_tracks hrun n k task v) fun r r' hr => ?_
          cases hr with
          | ok _ => exact ih k
          | error hr =>
            exact .bind (.emitRejection task.id hr) fun _ _ _ => .modifyStore fun s s' hs =>
              hs.cancel source hr
        | close returned =>
          cases returned with
          | none => exact .modifyEncoder fun _ _ => ⟨rfl, rfl⟩
          | some v =>
            refine .same ((follows hrun n k).outline v) fun row => ?_
            exact .modifyEncoder fun _ _ => ⟨rfl, rfl⟩
        | error hr => exact .emitRejection task.id hr
      · exact .modifyEncoder fun _ _ => ⟨rfl, rfl⟩

theorem handle_tracks (hrun : L.Thunks run run') (n k : Nat) {p p' : Ping}
    (hp : p.Akin L.cause p') : Tracks L (n ≤ k) Eq (handle run n p) (handle run' k p') := by
  cases hp with
  | retry id =>
    refine .same (.onEncoder (Encoder.Blind.takeTask id)) fun task => ?_
    cases task with
    | none => exact .pure rfl
    | some task => exact (follows hrun n k).task task
  | fulfilled id v =>
    refine .same (.onEncoder (Encoder.Blind.takeTask id)) fun task => ?_
    cases task with
    | none => exact .pure rfl
    | some task => exact (follows hrun n k).task _
  | rejected id hr =>
    refine .same (.onEncoder (Encoder.Blind.takeTask id)) fun task => ?_
    cases task with
    | none => exact .pure rfl
    | some task => exact .change <| .emitRejection id hr
  | stream id =>
    refine .same (.onEncoder (Encoder.Blind.takeStream id)) fun task => ?_
    cases task with
    | none => exact .pure rfl
    | some task =>
      dsimp only
      split
      · exact writeEvents_tracks hrun n k task _
      · exact .pure rfl

theorem handleAll_tracks (hrun : L.Thunks run run') (n k : Nat) :
    Tracks L (n ≤ k) Eq (handleAll run n) (handleAll run' k) := by
  induction n generalizing k with
  | zero => exact .exhausted
  | succ n ih =>
    cases k with
    | zero => exact .exhausted_right (Nat.not_succ_le_zero n) rfl
    | succ k =>
      refine Tracks.less ?_
      unfold handleAll
      refine .read fun e => ?_
      refine .bind (.onStore fun s s' hs => hs.receive e.mailbox) fun ping ping' hping => ?_
      obtain (@⟨_, _, hp⟩ | -) := hping
      · exact .bind (handle_tracks hrun n k hp) fun _ _ _ => ih k
      · exact .pure rfl

theorem flushIfFlowing_tracks : Tracks L more Eq flushIfFlowing flushIfFlowing := by
  unfold flushIfFlowing
  refine .read fun e => ?_
  exact .ite Iff.rfl (.onBoth fun _ _ _ _ he hs => he.flush hs) (.pure rfl)

/-- **Doing all that can be done now** does the same on both sides. -/
theorem work_tracks (hrun : L.Thunks run run') (n k : Nat) :
    Tracks L (n ≤ k) Eq (Render.work run n) (Render.work run' k) := by
  unfold Render.work
  refine .bind .encoder fun e e' he => .bind .store fun s s' hs => ?_
  obtain ⟨-, -, rfl⟩ := he
  obtain ⟨f, hleft, hright⟩ | ⟨t, t', hleft, hright, ht⟩ := hs.takeSlot e.slot
  · rw [hleft, show s'.takeSlot (e.saying L.otherDigest).slot = .error f from hright]
    exact .pure rfl
  · rw [hleft, show s'.takeSlot (e.saying L.otherDigest).slot = .ok t' from hright]
    exact .bind (.modifyStore fun _ _ _ => ht) fun _ _ _ =>
      .bind (handleAll_tracks hrun n k) fun _ _ _ =>
      .bind flushIfFlowing_tracks fun _ _ _ =>
        .bind (.modifyStore fun s s' hs => hs.freeSlot e.slot) fun _ _ _ => .pure rfl

end Messages

end Render

end GraphRows
