import GraphRows.Proofs.Encoder.Pairing

/-!
# What errors say stays inside

An encoder is driven from outside by a sequence of deeds: it is let to work, given a sink, asked for
more, offered hints, aborted; promises settle, streams are pushed or cancelled, chunks are taken out
of the sink, and the host does anything else it likes. Two such sequences correspond if they differ
only in what errors say: the errors of promises, of streams and of aborts. What thunks throw may
differ in the same way.

Corresponding deeds keep two runs paired, and paired runs have the same sinks. So if the encoders
hide what errors say, the sink is given the same chunks in both runs and is closed at the same
point.

## Main results

* `Scene.perform_tracks`, `Scene.performAll_tracks`: one deed, and a whole run
* `error_texts_stay_inside`: what the sink is given does not depend on what errors say
-/

namespace GraphRows

namespace Pairing.Encoders

variable {η η' α : Type} {L : Pairing η η'} {e e' : Encoder} {s s' : Store}

/-! ### Calls from outside -/

theorem foldl {f : Encoder → α → Encoder}
    (hf : ∀ e e' a, L.Encoders e e' → L.Encoders (f e a) (f e' a)) (h : L.Encoders e e')
    (l : List α) : L.Encoders (l.foldl f e) (l.foldl f e') := by
  induction l generalizing e e' with
  | nil => exact h
  | cons a l ih => exact ih (hf e e' a h)

theorem foldlBoth {f f' : Encoder × Store → α → Encoder × Store}
    (hf : ∀ x x' a, L.Both x x' → L.Both (f x a) (f' x' a)) {x x' : Encoder × Store}
    (h : L.Both x x') (l : List α) : L.Both (l.foldl f x) (l.foldl f' x') := by
  induction l generalizing x x' with
  | nil => exact h
  | cons a l ih => exact ih (hf x x' a h)

theorem ite {c c' : Prop} [Decidable c] [Decidable c'] {p q p' q' : Encoder × Store} (hc : c ↔ c')
    (hp : L.Both p p') (hq : L.Both q q') :
    L.Both (if c then p else q) (if c' then p' else q') := by
  by_cases h : c
  · rw [if_pos h, if_pos (hc.mp h)]
    exact hp
  · rw [if_neg h, if_neg fun h' => h (hc.mpr h')]
    exact hq

theorem abortTasks (h : L.Encoders e e') (hs : s.Akin L.cause s') {r r' : Rejection}
    (hr : r.Akin L.cause r') : L.Both (e.abortTasks s r) (e'.abortTasks s' r') := by
  obtain ⟨hdigest, hides, rfl⟩ := h
  have habortable : (e.saying L.otherDigest).abortable = e.abortable := rfl
  have hrow : (e.saying L.otherDigest).allocateRow =
    (e.allocateRow.1, e.allocateRow.2.saying L.otherDigest) := rfl
  simp only [Encoder.abortTasks, habortable, hrow]
  split
  · exact ⟨⟨hdigest, hides, rfl⟩, hs⟩
  · have hfatal : L.Encoders { e.allocateRow.2 with fatal := some e.allocateRow.1 }
        { e.allocateRow.2.saying L.otherDigest with fatal := some e.allocateRow.1 } :=
      ⟨hdigest, hides, rfl⟩
    obtain ⟨htold, hs'⟩ := hfatal.emitRejection hs e.allocateRow.1 hr
    revert htold hs'
    dsimp only
    generalize Encoder.emitRejection _ s _ r = p, Encoder.emitRejection _ s' _ r' = p'
    obtain ⟨e₁, s₁⟩ := p
    obtain ⟨e₁', s₁'⟩ := p'
    rintro ⟨hdigest', hides', rfl⟩ hs'
    have hnone : L.Encoders { e₁ with abortable := [] }
        { e₁.saying L.otherDigest with abortable := [] } :=
      ⟨hdigest', hides', rfl⟩
    refine ⟨foldl (fun e e' id he => ?_) hnone e₁.abortable, hs'⟩
    obtain ⟨htask, htaken⟩ := he.step (Encoder.Blind.takeTask id)
    revert htask htaken
    generalize e.takeTask id = p, e'.takeTask id = p'
    obtain ⟨task, e₁⟩ := p
    obtain ⟨task', e₁'⟩ := p'
    rintro ⟨⟩ htaken
    cases task with
    | none => exact htaken
    | some _ => exact htaken.push .errors _

theorem abortStreams (h : L.Encoders e e') (hs : s.Akin L.cause s') {r r' : Rejection}
    (hr : r.Akin L.cause r') : L.Both (e.abortStreams s r) (e'.abortStreams s' r') := by
  obtain ⟨hdigest, hides, rfl⟩ := h
  have hreason : Rejection.Akin L.cause (if r.isPostpone then Rejection.abortedByPostpone else r)
      (if r'.isPostpone then Rejection.abortedByPostpone else r') := by
    cases hr with
    | error hc => exact .error hc
    | postpone _ => exact L.own _ .abortedByPostpone
  have hnone : L.Both ({ e with streams := [] }, s)
      ({ e.saying L.otherDigest with streams := [] }, s') :=
    ⟨⟨hdigest, hides, rfl⟩, hs⟩
  refine foldlBoth (fun x x' task hx => ?_) hnone e.streams
  obtain ⟨htold, hs'⟩ := hx.encoder.emitRejection hx.store task.id hreason
  dsimp only
  split
  · exact ⟨htold, hs'.cancel _ hreason⟩
  · exact ⟨htold, hs'⟩

/-- **An abort** with a corresponding reason. -/
theorem abort (h : L.Encoders e e') (hs : s.Akin L.cause s') {r r' : Option Rejection}
    (hr : Option.Rel (Rejection.Akin L.cause) r r') :
    L.Both (e.abort s r) (e'.abort s' r') := by
  have hreason : Rejection.Akin L.cause (r.getD .aborted) (r'.getD .aborted) := by
    cases hr with
    | some hr => exact hr
    | none => exact L.own _ .aborted
  obtain ⟨hdigest, hides, rfl⟩ := h
  refine ite Iff.rfl ⟨⟨hdigest, hides, rfl⟩, hs⟩ ?_
  have haborting : L.Encoders { e with status := .aborting }
      { e.saying L.otherDigest with status := .aborting } :=
    ⟨hdigest, hides, rfl⟩
  obtain ⟨htasks, hs₁⟩ := haborting.abortTasks hs hreason
  obtain ⟨hstreams, hs₂⟩ := htasks.abortStreams hs₁ hreason
  revert hstreams hs₂
  dsimp only
  generalize Encoder.abortStreams _ _ (r.getD .aborted) = p, Encoder.abortStreams _ _
    (r'.getD .aborted) = p'
  obtain ⟨e₂, s₂⟩ := p
  obtain ⟨e₂', s₂'⟩ := p'
  rintro ⟨hdigest', hides', rfl⟩ hs₂
  have hcleared := hs₂.clearMailbox e₂.mailbox
  exact ite Iff.rfl (flush ⟨hdigest', hides', rfl⟩ hcleared) ⟨⟨hdigest', hides', rfl⟩, hcleared⟩

theorem hint (h : L.Encoders e e') (hs : s.Akin L.cause s') (given : Hint) :
    L.Both (e.hint s given).2 (e'.hint s' given).2 := by
  obtain ⟨hqueued, hafter⟩ := h.step (Encoder.Blind.queueHint given)
  rw [Encoder.hint, Encoder.hint]
  revert hqueued hafter
  generalize e.queueHint given = p, e'.queueHint given = p'
  obtain ⟨queued, e₁⟩ := p
  obtain ⟨queued', e₁'⟩ := p'
  rintro ⟨⟩ ⟨hdigest, hides, rfl⟩
  cases queued with
  | false => exact ⟨⟨hdigest, hides, rfl⟩, hs⟩
  | true => exact ite Iff.rfl (flush ⟨hdigest, hides, rfl⟩ hs) ⟨⟨hdigest, hides, rfl⟩, hs⟩

theorem pull (h : L.Encoders e e') (hs : s.Akin L.cause s') : L.Both (e.pull s) (e'.pull s') := by
  obtain ⟨hdigest, hides, rfl⟩ := h
  exact ite Iff.rfl (flush ⟨hdigest, hides, rfl⟩ hs) ⟨⟨hdigest, hides, rfl⟩, hs⟩

/-- A sink that is attached in one run is attached in the other. -/
theorem startFlowing (h : L.Encoders e e') (hs : s.Akin L.cause s') (i : Nat) :
    (∃ f, e.startFlowing s i = .error f ∧ e'.startFlowing s' i = .error f) ∨
      ∃ p p', e.startFlowing s i = .ok p ∧ e'.startFlowing s' i = .ok p' ∧ L.Both p p' := by
  obtain ⟨hdigest, hides, rfl⟩ := h
  by_cases hsink : e.sink.isSome = true
  · exact .inl ⟨_, if_pos hsink, if_pos hsink⟩
  have hflowing : L.Encoders { e with sink := some i, flowing := true }
      { e.saying L.otherDigest with sink := some i, flowing := true } := ⟨hdigest, hides, rfl⟩
  by_cases hclosed : (e.status == .closed) = true
  · exact .inr ⟨(e, s), (e.saying L.otherDigest, s'), (if_neg hsink).trans (if_pos hclosed),
      (if_neg hsink).trans (if_pos hclosed), ⟨hdigest, hides, rfl⟩, hs⟩
  · exact .inr ⟨_, _, (if_neg hsink).trans (if_neg hclosed), (if_neg hsink).trans (if_neg hclosed),
      hflowing.flush hs⟩

/-- **New encoders** of one model, with options that differ in the digests. -/
theorem create (hs : s.Akin L.cause s') (model : Value) (manifest : Manifest)
    {options : EncoderOptions} (hides : options.config.exposeErrors = false) :
    L.Both (Encoder.create s model manifest { options with digest := L.digest })
      (Encoder.create s' model manifest { options with digest := L.otherDigest }) := by
  obtain ⟨hmailbox, hs₁⟩ := hs.newMailbox
  obtain ⟨hslot, hs₂⟩ := hs₁.newSlot
  simp only [Encoder.create]
  cases options.slot with
  | some slot =>
    dsimp only
    rw [hmailbox]
    exact ⟨⟨rfl, hides, rfl⟩, hs₁.post _ (.retry _)⟩
  | none =>
    dsimp only
    rw [hmailbox, hslot]
    exact ⟨⟨rfl, hides, rfl⟩, hs₂.post _ (.retry _)⟩

end Pairing.Encoders

/-! ### Runs -/

/-- An encoder with its surroundings, and the chunks that were taken out of its sink so far. -/
structure Scene (η : Type) extends Encoding η where
  taken : List Bytes := []

/-- What is done to an encoder, and around it. -/
inductive Deed (η : Type)
  | work (fuel : Nat)
  | start
  | pull
  | hint (h : Hint)
  | abort (reason : Option Rejection)
  | settle (promise : CellId) (o : Outcome)
  | push (stream : CellId) (event : StreamEvent)
  | cancel (stream : CellId) (reason : Rejection)
  /-- take the oldest chunk out of the sink -/
  | take
  /-- anything else the host does to the store and to its own state -/
  | outside (f : Store → η → Store × η)

namespace Scene

variable {η η' : Type}

/-- A new encoder of a model. -/
def create (s : Store) (model : Value) (manifest : Manifest) (options : EncoderOptions) (host : η) :
    Scene η :=
  ⟨⟨(Encoder.create s model manifest options).1, (Encoder.create s model manifest options).2, host⟩,
    []⟩

/-- The chunks the sink `i` was ever given, in order. -/
def given (x : Scene η) (i : Nat) : List Bytes := x.taken ++ (x.store.sink i).chunks

/-- Do one thing to an encoder with the sink `i`. No answer means that the work does not come to an
end. -/
def perform (run : Force η) (i : Nat) (x : Scene η) : Deed η → Option (Scene η)
  | .work fuel =>
    (x.encoder.work run fuel x.store x.host).map fun p => ⟨⟨p.2.1, p.2.2.1, p.2.2.2⟩, x.taken⟩
  | .start =>
    match x.encoder.startFlowing x.store i with
    | .ok (encoder, store) => some { x with encoder, store }
    | .error _ => some x
  | .pull =>
    some { x with encoder := (x.encoder.pull x.store).1, store := (x.encoder.pull x.store).2 }
  | .hint h => some { x with encoder := (x.encoder.hint x.store h).2.1, store := (x.encoder.hint
    x.store h).2.2 }
  | .abort reason =>
    some { x with encoder := (x.encoder.abort x.store reason).1, store := (x.encoder.abort
      x.store reason).2 }
  | .settle promise o => some { x with store := (x.store.settle promise o).2 }
  | .push stream event => some { x with store := (x.store.push stream event).2 }
  | .cancel stream reason => some { x with store := x.store.cancel stream reason }
  | .take => some { x with
      store := x.store.setSink i (x.store.sink i).pop.2, taken := x.taken ++
        (x.store.sink i).pop.1.toList }
  | .outside f => some { x with store := (f x.store x.host).1, host := (f x.store x.host).2 }

/-- Do one thing after the other. -/
def performAll (run : Force η) (i : Nat) (x : Scene η) (deeds : List (Deed η)) : Option (Scene η) :=
  deeds.foldlM (perform run i) x

end Scene

namespace Pairing

variable {η η' : Type} (L : Pairing η η')

/-- Deeds that differ only in what errors say, and in how long the work may take. -/
inductive Deeds : Deed η → Deed η' → Prop
  | work (n k : Nat) : Deeds (.work n) (.work k)
  | start : Deeds .start .start
  | pull : Deeds .pull .pull
  | hint (h : Hint) : Deeds (.hint h) (.hint h)
  | abort {r r' : Option Rejection} (h : Option.Rel (Rejection.Akin L.cause) r r') :
    Deeds (.abort r) (.abort r')
  | settle (promise : CellId) {o o' : Outcome} (h : Outcome.Akin L.cause o o') :
    Deeds (.settle promise o) (.settle promise o')
  | push (stream : CellId) {e e' : StreamEvent} (h : e.Akin L.cause e') :
    Deeds (.push stream e) (.push stream e')
  | cancel (stream : CellId) {r r' : Rejection} (h : r.Akin L.cause r') :
    Deeds (.cancel stream r) (.cancel stream r')
  | take : Deeds .take .take
  | outside {f : Store → η → Store × η} {f' : Store → η' → Store × η'}
      (h : ∀ s s' a a', Store.Akin L.cause s s' → L.host a a' →
        (f s a).1.Akin L.cause (f' s' a').1 ∧ L.host (f s a).2 (f' s' a').2) :
          Deeds (.outside f) (.outside f')

/-- The second deed leaves no less fuel than the first. -/
def NoLess : Deed η → Deed η' → Prop
  | .work n, .work k => n ≤ k
  | _, _ => True

/-- Two runs that correspond so far. -/
structure Scenes (x : Scene η) (x' : Scene η') : Prop where
  paired : L.Paired x.toEncoding x'.toEncoding
  taken : x.taken = x'.taken

end Pairing

namespace Scene

variable {η η' : Type} {L : Pairing η η'} {run : Force η} {run' : Force η'} {x y : Scene η}
  {x' y' : Scene η'}

theorem given_eq (h : L.Scenes x x') (i : Nat) : x.given i = x'.given i := by
  rw [given, given, h.taken, h.paired.store.sink i]

theorem perform_work (x : Scene η) (i n : Nat) :
    x.perform run i (.work n) = (Render.work run n x.toEncoding).map fun p => ⟨p.2, x.taken⟩ := by
  rw [perform, Encoder.work, Option.map_map]
  rfl

/-- **One deed** keeps two runs together, and it comes to an end in the second run if it does in the
first. -/
theorem perform_tracks (hrun : L.Thunks run run') (i : Nat) (hx : L.Scenes x x') {d : Deed η}
    {d' : Deed η'} (hd : L.Deeds d d') (hy : x.perform run i d = some y) :
    (Pairing.NoLess d d' → ∃ y', x'.perform run' i d' = some y') ∧
      ∀ y', x'.perform run' i d' = some y' → L.Scenes y y' := by
  obtain ⟨⟨he, hs, hhost⟩, htaken⟩ := hx
  have total : ∀ {y₁ : Scene η} {y₁' : Scene η'}, x.perform run i d = some y₁ →
      x'.perform run' i d' = some y₁' →
      L.Scenes y₁ y₁' → (Pairing.NoLess d d' → ∃ y', x'.perform run' i d' = some y') ∧
        ∀ y', x'.perform run' i d' = some y' → L.Scenes y y' := by
    intro y₁ y₁' h₁ h₁' hy₁
    obtain rfl := Option.some.inj (h₁.symm.trans hy)
    refine ⟨fun _ => ⟨_, h₁'⟩, fun y' hy' => ?_⟩
    obtain rfl := Option.some.inj (h₁'.symm.trans hy')
    exact hy₁
  cases hd with
  | work n k =>
    rw [perform_work] at hy
    rw [perform_work]
    obtain ⟨⟨r, z⟩, hz, rfl⟩ := Option.map_eq_some_iff.mp hy
    obtain ⟨hends, htracks⟩ := Render.work_tracks hrun n k x.toEncoding x'.toEncoding
      ⟨he, hs, hhost⟩ r z hz
    constructor
    · intro hmore
      obtain ⟨r', z', hz'⟩ := hends hmore
      exact ⟨_, Option.map_eq_some_iff.mpr ⟨(r', z'), hz', rfl⟩⟩
    · intro y' hy'
      obtain ⟨⟨r', z'⟩, hz', rfl⟩ := Option.map_eq_some_iff.mp hy'
      exact ⟨(htracks r' z' hz').2, htaken⟩
  | start =>
    obtain ⟨f, hleft, hright⟩ | ⟨p, p', hleft, hright, hp⟩ := he.startFlowing hs i
    · have hstay : x.perform run i .start = some x := by rw [perform, hleft]
      have hstay' : x'.perform run' i .start = some x' := by rw [perform, hright]
      exact total hstay hstay' ⟨⟨he, hs, hhost⟩, htaken⟩
    · have hgo : x.perform run i .start = some { x with encoder := p.1, store := p.2 } := by
        rw [perform, hleft]
      have hgo' : x'.perform run' i .start = some { x' with encoder := p'.1, store := p'.2 } := by
        rw [perform, hright]
      exact total hgo hgo' ⟨⟨hp.encoder, hp.store, hhost⟩, htaken⟩
  | pull => exact total rfl rfl ⟨⟨(he.pull hs).encoder, (he.pull hs).store, hhost⟩, htaken⟩
  | hint h => exact total rfl rfl ⟨⟨(he.hint hs h).encoder, (he.hint hs h).store, hhost⟩, htaken⟩
  | abort hr =>
    exact total rfl rfl ⟨⟨(he.abort hs hr).encoder, (he.abort hs hr).store, hhost⟩, htaken⟩
  | settle promise ho => exact total rfl rfl ⟨⟨he, (hs.settle promise ho).2, hhost⟩, htaken⟩
  | push stream hevent => exact total rfl rfl ⟨⟨he, (hs.push stream hevent).2, hhost⟩, htaken⟩
  | cancel stream hr => exact total rfl rfl ⟨⟨he, hs.cancel stream hr, hhost⟩, htaken⟩
  | take =>
    refine total rfl rfl ⟨⟨he, ?_, hhost⟩, ?_⟩
    · rw [hs.sink i]
      exact hs.setSink i _
    · rw [htaken, hs.sink i]
  | outside h => exact total rfl rfl ⟨⟨he, (h _ _ _ _ hs hhost).1, (h _ _ _ _ hs hhost).2⟩, htaken⟩

/-- **A whole run** keeps to a corresponding one. -/
theorem performAll_tracks (hrun : L.Thunks run run') (i : Nat) {ds : List (Deed η)}
    {ds' : List (Deed η')} (hds : List.Forall₂ L.Deeds ds ds') (hx : L.Scenes x x')
    (hy : x.performAll run i ds = some y) :
    (List.Forall₂ Pairing.NoLess ds ds' → ∃ y', x'.performAll run' i ds' = some y') ∧
      ∀ y', x'.performAll run' i ds' = some y' → L.Scenes y y' := by
  induction hds generalizing x x' with
  | nil =>
    refine ⟨fun _ => ⟨x', rfl⟩, fun y' hy' => ?_⟩
    obtain rfl := Option.some.inj hy
    obtain rfl := Option.some.inj hy'
    exact hx
  | @cons d d' ds ds' hd hds ih =>
    obtain ⟨z, hz, hzy⟩ := Option.bind_eq_some_iff.mp hy
    obtain ⟨hends, htracks⟩ := perform_tracks hrun i hx hd hz
    constructor
    · rintro (- | ⟨hmore, hmores⟩)
      obtain ⟨z', hz'⟩ := hends hmore
      obtain ⟨y', hy'⟩ := (ih (htracks z' hz') hzy).1 hmores
      exact ⟨y', Option.bind_eq_some_iff.mpr ⟨z', hz', hy'⟩⟩
    · intro y' hy'
      obtain ⟨z', hz', hzy'⟩ := Option.bind_eq_some_iff.mp hy'
      exact (ih (htracks z' hz') hzy).2 y' hzy'

end Scene

/-- **What errors say stays inside.** Two encoders of one model hide what errors say. Their stores
and the deeds done to them differ only in the errors that promises are rejected with, that are
pushed into streams, that streams are cancelled with and that are passed to an abort; their thunks
do not look into errors, and may throw different ones; and corresponding errors have the same
digest. Then both runs give the sink the same chunks, one for one, and close it equally often, after
every deed. The second run comes as far as the first if its work may take as long. -/
theorem error_texts_stay_inside {η η' : Type} (L : Pairing η η') {run : Force η} {run' : Force η'}
    (hrun : L.Thunks run run') {s s' : Store} (hs : s.Akin L.cause s') {host : η} {host' : η'}
    (hhost : L.host host host') (model : Value) (manifest : Manifest) (options : EncoderOptions)
    (hides : options.config.exposeErrors = false) (i : Nat) {ds : List (Deed η)}
    {ds' : List (Deed η')} (hds : List.Forall₂ L.Deeds ds ds') {y : Scene η}
    (hy : (Scene.create s model manifest { options with digest := L.digest } host).performAll run
      i ds = some y) :
    (∀ y', (Scene.create s' model manifest { options with digest := L.otherDigest }
      host').performAll run' i ds' = some y' →
      y.given i = y'.given i ∧ (y.store.sink i).closes = (y'.store.sink i).closes) ∧
    (List.Forall₂ Pairing.NoLess ds ds' → ∃ y',
      (Scene.create s' model manifest { options with digest := L.otherDigest } host').performAll
        run' i ds' = some y') := by
  have hcreated := Pairing.Encoders.create hs model manifest hides
  have hscenes : L.Scenes (Scene.create s model manifest { options with digest := L.digest } host)
      (Scene.create s' model manifest { options with digest := L.otherDigest } host') :=
    ⟨⟨hcreated.encoder, hcreated.store, hhost⟩, rfl⟩
  obtain ⟨hends, htracks⟩ := Scene.performAll_tracks hrun i hds hscenes hy
  refine ⟨fun y' hy' => ?_, hends⟩
  have hpaired := htracks y' hy'
  exact ⟨Scene.given_eq hpaired i, congrArg Sink.closes (hpaired.paired.store.sink i)⟩

/-! ### A thunk that throws -/

/-- Thunks that throw an error with a text. -/
def throwing (text : String) : Force Unit :=
  fun _ a s host => some (.error (.throw (.ofText text)), a, s, host)

/-- All errors correspond, and the digest tells only how many there were. -/
def anyError : Pairing Unit Unit where
  cause := fun _ _ => True
  own := fun r h => by cases h <;> exact .error trivial
  host := Eq
  digest := some fun n _ => some (toString n)
  otherDigest := some fun n _ => some (toString n)
  same_digest := .some fun _ _ _ _ => rfl

theorem thunks_throwing (text text' : String) : anyError.Thunks (throwing text) (throwing text') :=
  fun _ _ _ _ _ _ hs hh => .some ⟨.throw (.error trivial), rfl, hs, hh⟩

/-- A lazy value and a sink. -/
def lazyStore : Store := { cells := #[.lazy], sinks := #[{}] }

theorem akin_lazyStore : lazyStore.Akin anyError.cause lazyStore := by
  refine ⟨⟨rfl, fun i => ?_⟩, ⟨rfl, fun i => ?_⟩, rfl, rfl, rfl, rfl, rfl⟩
  · cases i with
    | zero => exact .some (.plain rfl)
    | succ i => exact .none
  · exact .none

theorem error_texts_stay_inside_thrown :
    ∃ y y' : Scene Unit,
    (Scene.create lazyStore (.cell 0) default { digest := anyError.digest } ()).performAll
      (throwing "secret") 0 [.start, .work 10] = some y ∧
    (Scene.create lazyStore (.cell 0) default { digest := anyError.otherDigest } ()).performAll
      (throwing "") 0 [.start, .work 10] = some y' ∧
    y.given 0 = [utf8 "0:E\x7b\"digest\":\"0\"\x7d\n"] ∧ y.given 0 = y'.given 0 ∧
      (y'.store.sink 0).closes = 1 := by
  have hrun : ((Scene.create lazyStore (.cell 0) default { digest := anyError.digest }
      ()).performAll (throwing "secret") 0
      [.start, .work 10]).any (fun y => y.given 0 == [utf8 "0:E\x7b\"digest\":\"0\"\x7d\n"] &&
        (y.store.sink 0).closes == 1) =
      true := by decide +kernel
  obtain ⟨y, hy, hgiven⟩ := (Option.any_eq_true _ _).mp hrun
  obtain ⟨hgiven, hcloses⟩ := Bool.and_eq_true_iff.mp hgiven
  have hdeeds : List.Forall₂ anyError.Deeds [.start, .work 10] [.start, .work 10] :=
    .cons .start (.cons (.work 10 10) .nil)
  obtain ⟨hsame, hends⟩ := error_texts_stay_inside anyError (thunks_throwing "secret" "")
    akin_lazyStore rfl (.cell 0) default {} rfl 0 hdeeds hy
  obtain ⟨y', hy'⟩ := hends (.cons trivial (.cons (Nat.le_refl 10) .nil))
  obtain ⟨hchunks, hclosed⟩ := hsame y' hy'
  exact ⟨y, y', hy, hy', beq_iff_eq.mp hgiven, hchunks, hclosed.symm.trans (beq_iff_eq.mp hcloses)⟩

end GraphRows
