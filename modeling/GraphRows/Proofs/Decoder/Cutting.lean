import GraphRows.Proofs.Decoder.Bookkeeping
import GraphRows.Proofs.Decoder.Walking

/-!
# Where the bytes are cut

The reader takes one byte at a time, so pieces are read like the whole they were cut from. A decoder
acts on the rows of a piece before it sees the next piece, and its reader is by then somewhere else
than it would be with the whole. That makes no difference, because nothing the decoder does looks at
the reader: `Blind` says so of a step. A blind step may be done before or after the reader moves on.

A fault of the framing closes the decoder when the rows before it have been acted on. From then on
pieces are ignored, so the rest of a piece that is dropped might as well have come in pieces of its
own.

## Main results

* `DecodeM.takeRow_blind`: acting on a row does not look at the reader
* `DecodeM.feed_append`: two pieces are acted on like one
* `cuts_make_no_difference`: any two ways of cutting
-/

namespace GraphRows

open Decoder

variable {x : Decoding} {fed : RowReader.Fed}

/-- The same with the reader at another place. -/
def Decoding.reading (x : Decoding) (r : RowReader) : Decoding :=
  ⟨{ x.decoder with reader := r }, x.store⟩

@[simp] theorem Decoding.reading_self (x : Decoding) : x.reading x.decoder.reader = x := rfl

@[simp] theorem Decoding.reading_reading (x : Decoding) (r r' : RowReader) :
    (x.reading r).reading r' = x.reading r' :=
  rfl

namespace DecodeM

variable {α β : Type}

/-- A step that neither looks at the reader nor moves it, and does not close the decoder. -/
def Blind (m : DecodeM α) : Prop :=
  ∀ x, (m x).2.decoder.closed = x.decoder.closed ∧ ∀ r, m (x.reading r) =
    ((m x).1, (m x).2.reading r)

namespace Blind

theorem bind {m : DecodeM α} {f : α → DecodeM β} (hm : Blind m) (hf : ∀ a, Blind (f a)) :
    Blind (m >>= f) := by
  intro x
  refine ⟨((hf _) _).1.trans (hm x).1, fun r => ?_⟩
  change f (m (x.reading r)).1 (m (x.reading r)).2 = _
  rw [(hm x).2 r]
  exact (hf _ _).2 r

/-- What follows may use all of the decoder but the reader. -/
theorem decoder {f : Decoder → DecodeM β} (hf : ∀ d, Blind (f d))
    (hr : ∀ d r, f { d with reader := r } = f d) : Blind (DecodeM.decoder >>= f) := by
  intro x
  refine ⟨(hf _ x).1, fun r => ?_⟩
  change f { x.decoder with reader := r } (x.reading r) = _
  rw [hr]
  exact (hf _ x).2 r

theorem onStore (f : Store → α × Store) : Blind (DecodeM.onStore f) := fun _ => ⟨rfl, fun _ => rfl⟩

theorem modifyStore (f : Store → Store) : Blind (DecodeM.modifyStore f) :=
  fun _ => ⟨rfl, fun _ => rfl⟩

/-- The reader stays where it is. -/
theorem reader {m : DecodeM α} (hm : Blind m) (x : Decoding) :
    (m x).2.decoder.reader = x.decoder.reader := by
  have h := congrArg (·.2.decoder.reader) ((hm x).2 x.decoder.reader)
  exact h

end Blind

/-- Whatever a decoder does, it does not look at the reader. -/
theorem acts_blind : Acts fun _ => Blind where
  pure _ _ := ⟨rfl, fun _ => rfl⟩
  bind := .bind
  decoder := .decoder
  store _ := ⟨rfl, fun _ => rfl⟩
  modifyDecoder {f} h hr x := by
    refine ⟨(h x.decoder).1, fun r => ?_⟩
    change ((), (⟨f { x.decoder with reader := r }, x.store⟩ : Decoding)) = _
    rw [hr]
    rfl
  alloc _ := .onStore _
  write _ _ := .modifyStore _
  make _ := .onStore _
  settle _ _ := .modifyStore _
  push _ _ := .modifyStore _
  fill _ _ := .modifyStore _
  temporary _ _ := .onStore _

theorem loadModule_blind (payload : Bytes) : Blind (loadModule payload) := by
  unfold loadModule
  split
  · exact acts_blind.pure _
  · split
    · exact acts_blind.pure _
    · refine .decoder (fun d => ?_) fun _ _ => rfl
      dsimp only
      split
      · exact .bind (.modifyStore _) fun _ => .onStore _
      · exact .onStore _

theorem takeHint_blind (payload : Bytes) : Blind (takeHint payload) :=
  acts_blind.takeHint (fun _ => .modifyStore _) payload

/-- **Acting on a row does not look at the reader.** -/
theorem takeRow_blind (row : RawRow) : Blind (takeRow row) :=
  acts_blind.takeRow (loadModule_blind _) fun _ => takeHint_blind _

theorem takeRows_blind (rows : List RawRow) : Blind (rows.forM takeRow) :=
  acts_blind.forM takeRow_blind rows

theorem takeRows_append (rows rows' : List RawRow) (x : Decoding) :
    (rows ++ rows').forM takeRow x = rows'.forM takeRow (rows.forM takeRow x).2 := by
  induction rows generalizing x with
  | nil => rfl
  | cons row rows ih => exact ih (takeRow row x).2

end DecodeM

/-! ### Pieces -/

open DecodeM

/-- What the rows and the fault that were read make of a decoder. -/
def Decoding.afterFed (x : Decoding) (fed : RowReader.Fed) : Decoding :=
  let y := (fed.rows.forM takeRow (x.reading fed.reader)).2
  fed.fault.elim y fun f => (closeWith (.ofFault f) y).2

/-- The answer to a piece. -/
def RowReader.Fed.answer (fed : RowReader.Fed) : Except Fault Unit := fed.fault.elim (.ok ()) .error

namespace DecodeM

theorem feed_eq_afterFed (h : x.decoder.closed = none) (piece : Bytes) :
    feed piece x = ((x.decoder.reader.feed piece).answer,
      x.afterFed (x.decoder.reader.feed piece)) := by
  unfold feed
  rw [decoder_bind, if_neg (by simp [h])]
  rw [RowReader.Fed.answer, Decoding.afterFed]
  cases hfault : (x.decoder.reader.feed piece).fault with
  | none => rfl
  | some f => rfl

theorem feed_eq_of_closed (h : x.decoder.closed.isSome) (piece : Bytes) :
    feed piece x = (.ok (), x) := by
  unfold feed
  rw [decoder_bind, if_pos h]
  rfl

theorem isSome_closed_closeWith (reason : Rejection) (x : Decoding) :
    (closeWith reason x).2.decoder.closed.isSome := by
  cases hclosed : x.decoder.closed with
  | some r =>
    have hsome : x.decoder.closed.isSome := by rw [hclosed]; rfl
    rw [closeWith_of_closed hsome]
    exact hsome
  | none =>
    have hkept : ∀ (test : EntryState → Bool), Blind (rejectEntries test reason) := fun test =>
      .decoder (fun d => acts_blind.forM (fun i => .decoder (fun d' => by
        split
        · exact acts_blind.settleEntry _ _
        · exact acts_blind.pure _) fun _ _ => rfl) _) fun _ _ => rfl
    rw [closeWith_of_open hclosed]
    change (endStreams reason _).2.decoder.closed.isSome
    rw [endStreams_decoder]
    change (runWatchers
      (rejectRest reason (runWatchers (shut reason x).2).2).2).2.decoder.closed.isSome
    rw [(acts_blind.runWatchers _).1, rejectRest, (hkept _ _).1, (acts_blind.runWatchers _).1]
    change (rejectEntries _ reason _).2.decoder.closed.isSome
    rw [(hkept _ _).1]
    rfl

/-- A fault closes the decoder. -/
theorem isSome_closed_afterFed (x : Decoding) {f : Fault} (h : fed.fault = some f) :
    (x.afterFed fed).decoder.closed.isSome := by
  rw [Decoding.afterFed, h]
  exact isSome_closed_closeWith _ _

/-- Without a fault the decoder stays open, and its reader is behind the piece. -/
theorem open_afterFed (h : fed.fault = none) (hx : x.decoder.closed = none) :
    (x.afterFed fed).decoder.closed = none ∧ (x.afterFed fed).decoder.reader = fed.reader := by
  rw [Decoding.afterFed, h]
  exact ⟨(takeRows_blind fed.rows _).1.trans hx, (takeRows_blind fed.rows).reader _⟩

/-- The rows of two pieces are acted on like the rows of one. -/
theorem afterFed_andThen (h : fed.fault = none) (piece : Bytes) :
    x.afterFed (fed.andThen piece) = (x.afterFed fed).afterFed (fed.reader.feed piece) := by
  have hrows :
      ((fed.rows ++ (fed.reader.feed piece).rows).forM takeRow
        (x.reading (fed.reader.feed piece).reader)).2 =
      ((fed.reader.feed piece).rows.forM takeRow
        ((x.afterFed fed).reading (fed.reader.feed piece).reader)).2 := by
    have hfirst := (takeRows_blind fed.rows (x.reading fed.reader)).2 (fed.reader.feed piece).reader
    rw [Decoding.reading_reading] at hfirst
    rw [takeRows_append, hfirst, Decoding.afterFed, h]
    rfl
  have hthen : fed.andThen piece =
      { fed.reader.feed piece with rows := fed.rows ++ (fed.reader.feed piece).rows } := by
    rw [RowReader.Fed.andThen, h]
  rw [hthen, Decoding.afterFed, Decoding.afterFed, hrows]

/-- **Two pieces are acted on like one**, and the answer is that to the first, or else that to the
second. -/
theorem feed_append (a b : Bytes) (x : Decoding) :
    feed (a ++ b) x = ((feed a x).1.bind fun _ => (feed b (feed a x).2).1,
      (feed b (feed a x).2).2) := by
  cases hclosed : x.decoder.closed with
  | some r =>
    have hsome : x.decoder.closed.isSome := by rw [hclosed]; rfl
    rw [feed_eq_of_closed hsome, feed_eq_of_closed hsome a, feed_eq_of_closed hsome b]
    rfl
  | none =>
    rw [feed_eq_afterFed hclosed, feed_eq_afterFed hclosed a, RowReader.feed_append]
    cases hfault : (x.decoder.reader.feed a).fault with
    | some f =>
      rw [feed_eq_of_closed (isSome_closed_afterFed x hfault), RowReader.Fed.andThen, hfault,
        RowReader.Fed.answer, hfault]
      rfl
    | none =>
      obtain ⟨hopen, hreader⟩ := open_afterFed hfault hclosed
      rw [feed_eq_afterFed hopen, hreader, afterFed_andThen hfault]
      have hanswer : ((x.decoder.reader.feed a).andThen b).answer =
          ((x.decoder.reader.feed a).reader.feed b).answer := by
        rw [RowReader.Fed.andThen, hfault]
        rfl
      have hfirst : (x.decoder.reader.feed a).answer = .ok () := by
        rw [RowReader.Fed.answer, hfault]
        rfl
      rw [hanswer, hfirst]
      rfl

/-- Feed all pieces, whatever became of the ones before, and keep the answers. -/
def feedEach : List Bytes → DecodeM (List (Except Fault Unit))
  | [] => return []
  | piece :: rest => do
    let answer ← feed piece
    let answers ← feedEach rest
    return answer :: answers

end DecodeM

/-- The first fault among some answers. -/
def firstFault? : List (Except Fault Unit) → Option Fault
  | [] => none
  | .error f :: _ => some f
  | .ok () :: rest => firstFault? rest

namespace DecodeM

theorem feed_nil (x : Decoding) : feed [] x = (.ok (), x) := by
  cases hclosed : x.decoder.closed with
  | some r => exact feed_eq_of_closed (by rw [hclosed]; rfl) []
  | none =>
    rw [feed_eq_afterFed hclosed]
    rfl

/-- **Pieces are acted on like the whole**, and the first fault is that of the whole. -/
theorem feedEach_eq_feed (pieces : List Bytes) (x : Decoding) :
    (feedEach pieces x).2 = (feed pieces.flatten x).2 ∧
      firstFault? (feedEach pieces x).1 = firstFault? [(feed pieces.flatten x).1] := by
  induction pieces generalizing x with
  | nil =>
    rw [List.flatten_nil, feed_nil]
    exact ⟨rfl, rfl⟩
  | cons piece pieces ih =>
    obtain ⟨hstate, hfault⟩ := ih (feed piece x).2
    rw [List.flatten_cons, feed_append]
    refine ⟨hstate, ?_⟩
    change firstFault? ((feed piece x).1 :: (feedEach pieces (feed piece x).2).1) = _
    cases hanswer : (feed piece x).1 with
    | error f => rfl
    | ok u => exact hfault

end DecodeM

/-- **It does not matter where the bytes are cut.** Two decoders that were created alike are fed the
same bytes in different pieces. They end in the same state, with the same entries, values, streams
and notes, and the first fault they answer is the same. That state is what the rows before the first
fault of the framing make of the decoder, in their order, and then the fault; what follows the fault
is ignored. -/
theorem cuts_make_no_difference (options : DecoderOptions) (s : Store) {pieces pieces' : List Bytes}
    (h : pieces.flatten = pieces'.flatten) :
    (feedEach pieces ⟨.create options, s⟩).2 = (feedEach pieces' ⟨.create options, s⟩).2 ∧
    firstFault? (feedEach pieces ⟨.create options, s⟩).1 =
      firstFault? (feedEach pieces' ⟨.create options, s⟩).1 ∧
    (feedEach pieces ⟨.create options, s⟩).2 =
      Decoding.afterFed ⟨.create options, s⟩ (RowReader.start.feed pieces.flatten) ∧
    firstFault? (feedEach pieces ⟨.create options, s⟩).1 =
      (RowReader.start.feed pieces.flatten).fault ∧
    ∀ a b, pieces.flatten = a ++ b → (RowReader.start.feed a).fault.isSome →
      (feedEach pieces ⟨.create options, s⟩).2 = (feedEach [a] ⟨.create options, s⟩).2 := by
  obtain ⟨hstate, hfault⟩ := feedEach_eq_feed pieces ⟨.create options, s⟩
  obtain ⟨hstate', hfault'⟩ := feedEach_eq_feed pieces' ⟨.create options, s⟩
  have hfed : feed pieces.flatten ⟨.create options, s⟩ = _ := feed_eq_afterFed rfl pieces.flatten
  refine ⟨?_, ?_, ?_, ?_, fun a b hab ha => ?_⟩
  · rw [hstate, hstate', h]
  · rw [hfault, hfault', h]
  · rw [hstate, hfed]
    rfl
  · rw [hfault, hfed]
    change firstFault? [(RowReader.start.feed pieces.flatten).answer] = _
    rw [RowReader.Fed.answer]
    cases (RowReader.start.feed pieces.flatten).fault with
    | none => rfl
    | some f => rfl
  · obtain ⟨f, hf⟩ := Option.isSome_iff_exists.mp ha
    have hclosed : (feed a ⟨.create options, s⟩).2.decoder.closed.isSome := by
      rw [feed_eq_afterFed rfl]
      exact isSome_closed_afterFed _ hf
    rw [hstate, hab, feed_append, feed_eq_of_closed hclosed]
    rfl

/-- A row cut inside its id and inside its payload, and a fault behind it with more to follow. -/
theorem cuts_make_no_difference_faulty :
    [utf8 "1", utf8 "0:[", [], utf8 "7]\nx:", utf8 "0:1\n"].flatten =
      [utf8 "10:[7]\nx:0:1\n"].flatten ∧
    firstFault? (feedEach [utf8 "1", utf8 "0:[", [], utf8 "7]\nx:", utf8 "0:1\n"] ⟨.create default,
      {}⟩).1 = firstFault? (feedEach [utf8 "10:[7]\nx:0:1\n"] ⟨.create default, {}⟩).1 ∧
    (feedEach [utf8 "1", utf8 "0:[", [], utf8 "7]\nx:", utf8 "0:1\n"] ⟨.create default, {}⟩).2 =
      (feedEach [utf8 "10:[7]\nx:0:1\n"] ⟨.create default, {}⟩).2 := by
  have hcut : [utf8 "1", utf8 "0:[", [], utf8 "7]\nx:", utf8 "0:1\n"].flatten =
      [utf8 "10:[7]\nx:0:1\n"].flatten := by
    decide +kernel
  obtain ⟨hstate, hfault, -⟩ := cuts_make_no_difference default {} hcut
  exact ⟨hcut, hfault, hstate⟩

end GraphRows
