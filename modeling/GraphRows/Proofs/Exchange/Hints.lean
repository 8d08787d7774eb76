import GraphRows.Proofs.Encoder.Offering
import GraphRows.Proofs.Exchange.Aborting

/-!
# Hints arrive once each, in order

The rows that a closed sink was given carry the hints of the encoder's log, those with an earlier
key left out. A decoder that notes hints notes them as their rows come and does nothing else to the
notes of hints, so it notes just these, in the order in which they were offered. A payload says
everything about a hint but one thing: options that are empty are not written.

## Main results

* `Hint.ofPayload_payload`: what is read in the row of a hint
* `DecodeM.hintsNoted_takeRows`: what a decoder notes of some rows
* `hints_arrive_once`
-/

namespace GraphRows

open DecodeM

namespace Hint

/-- A hint as it arrives: empty options are left out. -/
def trimmed : Hint → Hint
  | .preload href asType options => .preload href asType (nonempty options)
  | .preloadModule href options => .preloadModule href (nonempty options)
  | .preinitScript src options => .preinitScript src (nonempty options)
  | .preinitStyle href precedence options => .preinitStyle href precedence (nonempty options)
  | .preinitModuleScript src options => .preinitModuleScript src (nonempty options)
  | h => h

theorem ofPayload_payload (h : Hint) : ofPayload h.code h.payload = .ok h.trimmed := by
  cases h with
  | prefetchDns href => rfl
  | preconnect href crossOrigin => cases crossOrigin <;> rfl
  | preinitStyle href precedence options =>
    rcases options with _ | _ | _ <;> cases precedence <;> rfl
  | preload href asType options => rcases options with _ | _ | _ <;> rfl
  | preloadModule href options => rcases options with _ | _ | _ <;> rfl
  | preinitScript src options => rcases options with _ | _ | _ <;> rfl
  | preinitModuleScript src options => rcases options with _ | _ | _ <;> rfl

/-- A code is one byte that is read as the code, and no newline. -/
theorem code_spelt (h : Hint) :
    h.code ≠ '\n' ∧ utf8 (String.ofList [h.code]) = [byte h.code] ∧
      latin (byte h.code) = h.code := by
  have hmem : h.code ∈ ['D', 'C', 'L', 'm', 'X', 'S', 'M'] := by cases h <;> simp [code]
  have hall : ['D', 'C', 'L', 'm', 'X', 'S', 'M'].all (fun c =>
      c != '\n' && utf8 (String.ofList [c]) == [byte c] && latin (byte c) == c) = true := by decide
  simpa [and_assoc] using List.all_eq_true.mp hall h.code hmem

end Hint

/-- The hint that was noted, if it was one. -/
def Event.hint? : Event → Option Hint
  | .hint h => some h
  | _ => none

/-- The hints that were noted, oldest first. -/
def Store.hintsNoted (s : Store) : List Hint := s.events.reverse.filterMap Event.hint?

theorem Store.remote_hintsNoted : Store.Remote Store.hintsNoted :=
  ⟨fun _ _ => rfl, fun _ _ => rfl, fun _ _ => rfl,
    fun s label outcome => by simp [hintsNoted, note, Event.hint?]⟩

/-- The loader notes no hints of its own. -/
def Loader.Unhinting (loader : Loader) : Prop :=
  ∀ m s, (loader.load m s).2.hintsNoted = s.hintsNoted

namespace DecodeM

variable {α : Type} {options : DecoderOptions}

/-- Work of a decoder with certain options that notes no hints. -/
def Tacit (options : DecoderOptions) (m : DecodeM α) : Prop :=
  ∀ x, x.decoder.options = options → (m x).2.store.hintsNoted = x.store.hintsNoted ∧
    (m x).2.decoder.options = options

theorem Tacit.onStore {f : Store → α × Store} (hf : ∀ s, (f s).2.hintsNoted = s.hintsNoted) :
    Tacit options (onStore f) :=
  fun x h => ⟨hf x.store, h⟩

theorem Tacit.modifyStore {f : Store → Store} (hf : ∀ s, (f s).hintsNoted = s.hintsNoted) :
    Tacit options (modifyStore f) :=
  fun x h => ⟨hf x.store, h⟩

open Store in
/-- Whatever a decoder does but take in a hint, it notes no hints. -/
theorem acts_tacit : Acts fun _ => Tacit options where
  pure _ _ h := ⟨rfl, h⟩
  bind hm hf x h := ⟨(hf _ _ (hm x h).2).1.trans (hm x h).1, (hf _ _ (hm x h).2).2⟩
  decoder hf _ x h := hf _ x h
  store _ h := ⟨rfl, h⟩
  modifyDecoder hkept _ _ h := ⟨rfl, (hkept _).2.trans h⟩
  alloc _ := .onStore fun _ => rfl
  write _ _ := .modifyStore fun _ => rfl
  make _ := .onStore fun _ => rfl
  settle c o := .modifyStore fun s => remote_hintsNoted.settle s c o
  push c e := .modifyStore fun s => remote_hintsNoted.push s c e
  fill hole v := .modifyStore fun s => by
    unfold fill
    split
    · rfl
    · split <;> rfl
    · split <;> rfl
  temporary set id := .onStore fun s => by
    unfold resolveTemporary
    split <;> rfl

theorem loadModule_tacit (hload : options.loader.Unhinting) (payload : Bytes) :
    Tacit options (loadModule payload) := by
  unfold loadModule
  split
  · exact acts_tacit.pure _
  · split
    · exact acts_tacit.pure _
    · rintro x rfl
      rw [decoder_bind]
      dsimp only
      split
      · exact acts_tacit.bind (.modifyStore fun s => by simp [Store.hintsNoted, Store.note,
          Event.hint?]) (fun _ => .onStore (hload _)) x rfl
      · exact Tacit.onStore (hload _) x rfl

/-- A row that is no hint. -/
theorem takeRow_tacit (hload : options.loader.Unhinting) {r : Row} (hr : r.hint? = none) :
    Tacit options (takeRow r.raw) := by
  refine acts_tacit.takeRow (loadModule_tacit hload _) fun htag => ?_
  obtain ⟨id, body⟩ := r
  cases body with
  | hint code payload => cases hr
  | binary data =>
    obtain ⟨kind, bytes⟩ := data
    cases kind <;> cases htag
  | opening kind => cases kind <;> cases htag
  | _ => cases htag

/-- A hint is noted. -/
theorem takeRow_hint (hobserve : options.observeHints) {r : Row} {h : Hint}
    (hr : r.hint? = some (h.code, h.payload))
    (hread : Json.readBytes (utf8 h.payload.print) = .ok h.payload) {x : Decoding}
    (hx : x.decoder.options = options) :
    (takeRow r.raw x).2.store.hintsNoted = x.store.hintsNoted ++ [h.trimmed] ∧
      (takeRow r.raw x).2.decoder.options = options := by
  obtain ⟨id, body⟩ := r
  cases body with
  | hint code payload =>
    obtain ⟨rfl, rfl⟩ := Prod.mk.inj (Option.some.inj hr)
    obtain ⟨-, hcode, hlatin⟩ := h.code_spelt
    have htake : takeHint (Row.raw ⟨id, .hint h.code h.payload⟩).payload x =
        ((), ⟨x.decoder, x.store.note (.hint h.trimmed)⟩) := by
      have hpayload : (Row.raw ⟨id, .hint h.code h.payload⟩).payload = byte h.code ::
          utf8 h.payload.print := by
        change utf8 (String.ofList [h.code] ++ h.payload.print) = _
        rw [utf8_append, hcode]
        rfl
      rw [hpayload, takeHint, decoder_bind, if_pos (by rw [hx]; exact hobserve)]
      simp only [hread, hlatin, Hint.ofPayload_payload]
      rfl
    have htaken : takeRow (Row.raw ⟨id, .hint h.code h.payload⟩) x =
        runWatchers ⟨x.decoder, x.store.note (.hint h.trimmed)⟩ := by
      rw [takeRow_raw]
      change runWatchers (takeHint (Row.raw ⟨id, .hint h.code h.payload⟩).payload x).2 = _
      rw [htake]
    rw [htaken]
    have hrun : Tacit options runWatchers := acts_tacit.runWatchers
    obtain ⟨hnoted, hoptions⟩ := hrun ⟨x.decoder, x.store.note (.hint h.trimmed)⟩ hx
    refine ⟨hnoted.trans ?_, hoptions⟩
    simp [Store.hintsNoted, Store.note, Event.hint?]
  | _ => cases hr

/-- **What a decoder notes of some rows**: the hints among them, in their order. -/
theorem hintsNoted_takeRows (hobserve : options.observeHints) (hload : options.loader.Unhinting)
    {rows : List Row} {hints : List Hint}
    (hrows : rows.filterMap Row.hint? = hints.map fun h => (h.code, h.payload))
    (hread : ∀ h ∈ hints, Json.readBytes (utf8 h.payload.print) = .ok h.payload) {x : Decoding}
    (hx : x.decoder.options = options) :
    ((rows.map Row.raw).forM takeRow x).2.store.hintsNoted = x.store.hintsNoted ++
      hints.map Hint.trimmed := by
  induction rows generalizing hints x with
  | nil =>
    obtain rfl := List.map_eq_nil_iff.mp hrows.symm
    simp [pure, StateT.pure]
  | cons r rows ih =>
    change ((rows.map Row.raw).forM takeRow (takeRow r.raw x).2).2.store.hintsNoted = _
    cases hr : r.hint? with
    | none =>
      rw [List.filterMap_cons_none hr] at hrows
      obtain ⟨hnoted, hoptions⟩ := takeRow_tacit hload hr x hx
      rw [ih hrows hread hoptions, hnoted]
    | some said =>
      rw [List.filterMap_cons_some hr] at hrows
      obtain ⟨h, hints, rfl, rfl, hrest⟩ := List.map_eq_cons_iff.mp hrows.symm
      obtain ⟨hnoted, hoptions⟩ := takeRow_hint hobserve hr (hread h List.mem_cons_self) hx
      rw [ih hrest.symm (fun o ho => hread o (List.mem_cons_of_mem _ ho)) hoptions, hnoted]
      simp

end DecodeM

/-- **Hints arrive once each, in order.** Take any run of an encoder and the log of all hints that
were offered before it closed, by thunks or from outside. While it is open, an offer is answered
with whether it adds to the hints of the log with a new key; afterwards it is refused. If the sink
is closed, and ids and lengths fit into their headers, then a decoder that is fed all that the sink
was given, in any pieces, notes the hints of the log with a new key, in their order, except that
empty options are left out. -/
theorem hints_arrive_once {η : Type} {run : Force η} (hrun : Quiet run) {i : Nat} {model : Value}
    {x : Stage (η × List Hint)} (h : Stage.Offered run i model x) :
    (∀ offer, (x.encoder.status = .closed → (x.encoder.hint x.store offer).1 = false) ∧
      (x.encoder.status ≠ .closed → Hint.distinct (x.host.2 ++ [offer]) =
        Hint.distinct x.host.2 ++ if (x.encoder.hint x.store offer).1 then [offer] else [])) ∧
    ∀ (pieces : List Bytes) (start : Decoding), (x.store.sink i).isClosed →
      x.encoder.refs.nextId ≤ Nat.pow 2 32 →
      (x.given i).length < Nat.pow 2 64 → pieces.flatten = x.given i →
      start.decoder.closed = none → start.decoder.reader = .start →
        start.decoder.options.observeHints → start.decoder.options.loader.Unhinting →
      (∀ offer ∈ x.host.2, Json.readBytes (utf8 offer.payload.print) = .ok offer.payload) →
      (feedAll pieces start).1 = .ok () ∧ (feedAll pieces start).2.store.hintsNoted =
        start.store.hintsNoted ++ (Hint.distinct x.host.2).map Hint.trimmed := by
  refine ⟨h.hint_answer hrun, fun pieces start hclosed hids hlength hpieces hopen hreader hobserve
    hload hread => ?_⟩
  have hframed := h.reached.framed hrun.noting hclosed hids hlength
  obtain ⟨out, hgiven, L⟩ := h.voiced hrun
  obtain ⟨-, -, hidle, -⟩ := h.reached.exists_accounts hrun.noting hclosed
  have hrows := L.rows
  rw [hidle.2, List.append_nil] at hrows
  have hsafe : ∀ r ∈ out, r.HintSafe := by
    intro r hr c j hbody
    have hmem : (c, j) ∈ out.filterMap Row.hint? := List.mem_filterMap.mpr
      ⟨r, hr, by rw [Row.hint?, hbody]⟩
    rw [hrows] at hmem
    obtain ⟨o, -, ho⟩ := List.mem_map.mp hmem
    rw [← (Prod.mk.inj ho).1]
    exact o.code_spelt.1
  have hfed : RowReader.start.feed (x.given i) = ⟨out.map Row.raw, .start, none⟩ := by
    rw [Stage.given, hgiven] at hframed ⊢
    refine feed_rows hsafe ?_
    by_contra hrange
    obtain ⟨-, hfault⟩ := feed_rows_fault hsafe hrange
    rw [hframed] at hfault
    cases hfault
  rw [feedAll_eq_feed, hpieces, feed_eq_afterFed hopen, hreader, hfed]
  refine ⟨rfl, ?_⟩
  exact hintsNoted_takeRows hobserve hload hrows
    (fun o ho => hread o (Hint.mem_of_mem_distinct ho)) rfl

/-! ### A hint that is offered three times

The model is a lazy value. A hint is offered twice before the encoder has a sink; the thunk gives
another one and then the first again. -/

/-- A thunk that gives two hints. -/
def hintingThunk : Force Unit :=
  fun _ a s host => some (.ok .null, (a.hint (.prefetchDns "b")).hint (.prefetchDns "a"), s, host)

/-- A store with a new sink and a lazy value. -/
def lazyValue : Value × Store := (({} : Store).newSink .unlimited).2.make .lazy

/-- The encoder of the lazy value after a hint was offered twice. -/
def hintedStage : Stage (Unit × List Hint) :=
  let (e, s) := Encoder.create lazyValue.2 lazyValue.1 default {}
  (Stage.offer ⟨⟨e, s, ((), [])⟩, []⟩ (.prefetchDns "a")).offer (.prefetchDns "a")

/-- The encoder after it was given the sink and let to work. -/
def hintedWorked : Option (Except Fault Unit × Encoder × Store × Unit × List Hint) :=
  match hintedStage.encoder.startFlowing hintedStage.store 0 with
  | .ok (e, s) => e.work (noting hintingThunk) 30 s hintedStage.host
  | .error _ => none

theorem hints_arrive_once_repeated :
    ∃ x : Stage (Unit × List Hint), Stage.Offered hintingThunk 0 lazyValue.1 x ∧
    (x.store.sink 0).isClosed ∧ x.host.2.map Hint.key = ["D|a", "D|a", "D|b", "D|a"] ∧
    (feedAll [x.given 0] ⟨.create { observeHints := true }, {}⟩).2.store.hintsNoted =
      (Hint.distinct x.host.2).map Hint.trimmed := by
  have hevaluated : (hintedWorked.any fun w => (w.2.2.1.sink 0).isClosed &&
      decide (w.2.1.refs.nextId ≤ Nat.pow 2 32) &&
      decide ((w.2.2.1.sink 0).bytes.length < Nat.pow 2 64) &&
        (w.2.2.2.2.map Hint.key == ["D|a", "D|a", "D|b", "D|a"]) &&
      w.2.2.2.2.all (·.code == 'D')) = true := by
    decide +kernel
  obtain ⟨⟨r, e, s, host, log⟩, hworked, htests⟩ := (Option.any_eq_true _ _).mp hevaluated
  simp only [Bool.and_eq_true, decide_eq_true_eq, beq_iff_eq, List.all_eq_true] at htests
  obtain ⟨⟨⟨⟨hclosed, hids⟩, hlength⟩, hkeys⟩, hcodes⟩ := htests
  unfold hintedWorked at hworked
  split at hworked
  · rename_i e' s' hstarted
    have hcreated : Stage.Offered hintingThunk 0 lazyValue.1
        ⟨⟨(Encoder.create lazyValue.2 lazyValue.1 default {}).1,
        (Encoder.create lazyValue.2 lazyValue.1 default {}).2, ((), [])⟩, []⟩ :=
      .create (s := lazyValue.2) rfl ⟨rfl, rfl⟩
    have hoffered : Stage.Offered hintingThunk 0 lazyValue.1 hintedStage := (hcreated.hint _).hint _
    have hreached := (hoffered.start hstarted).work hworked
    have hquiet : Quiet hintingThunk := by
      intro _ _ _ _ _ _ _ _ h
      cases h
      rfl
    refine ⟨_, hreached, hclosed, hkeys, ((hints_arrive_once hquiet hreached).2 [_]
      ⟨.create { observeHints := true }, {}⟩ hclosed hids
      hlength (by simp) rfl rfl rfl (fun m s => rfl) fun offer hoffer => ?_).2⟩
    cases offer with
    | prefetchDns href =>
      simp only [Json.readBytes, Utf8.decode?_utf8]
      exact Json.read_print_of_portable (j := .str href) trivial (Nat.zero_le _)
    | _ => cases hcodes _ hoffer
  · cases hworked

end GraphRows
