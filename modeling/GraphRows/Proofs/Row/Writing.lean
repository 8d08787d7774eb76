import GraphRows.Proofs.Row.Framing

/-!
# Whatever a writer writes is read back

A writer may be called for rows that no encoder queues: rows for developers, or a tag with any
payload. `Writing` is one such call. It has the ids that fit a header, no tag that announces a
length on a line, and no hint whose code would end its line; payloads of lines are printed JSON or
nothing. What the reader makes of a call is said here without the framing.

## Main result

* `writings_read_back`: the bytes of any calls are read as those rows, in order, with nothing left
  over
-/

namespace GraphRows

/-- One call of a writer of rows. -/
inductive Writing where
  /-- a model -/
  | model (id : UInt32) (json : Json)
  /-- a line with a tag, with or without a payload: opening and closing rows are such lines -/
  | tagged (id : UInt32) (tag : RowTag) (htag : tag ≠ .text) (json : Option Json)
  /-- a hint, with its code before the payload -/
  | hint (id : UInt32) (code : Char) (hcode : code ≠ '\n') (json : Json)
  /-- a text, as long as a header can say -/
  | text (id : UInt32) (s : String) (hlength : (utf8 s).length < Nat.pow 2 64)
  /-- binary data, as long as a header can say -/
  | binary (id : UInt32) (kind : BinaryKind) (bytes : Bytes) (hlength : bytes.length < Nat.pow 2 64)

namespace Writing

/-- The framing of what is written. -/
def frame : Writing → Frame
  | .model id json => Row.untagged id.toNat json.print
  | .tagged id tag _ json => Row.tagged id.toNat tag ((json.map Json.print).getD "")
  | .hint id code _ json => Row.hinted id.toNat code json.print
  | .text id s _ => .counted id.toNat RowTag.text.tag (utf8 s)
  | .binary id kind bytes _ => .counted id.toNat kind.tag bytes

/-- The bytes that are written. -/
def bytes (w : Writing) : Bytes := w.frame.encode

/-- The row that should be read. -/
def row : Writing → RawRow
  | .model id json => ⟨id.toNat, 0, utf8 json.print⟩
  | .tagged id tag _ none => ⟨id.toNat, tag.tag, []⟩
  | .tagged id tag _ (some json) => ⟨id.toNat, tag.tag, utf8 json.print⟩
  | .hint id code _ json => ⟨id.toNat, RowTag.hint.tag, String.utf8EncodeChar code ++
    utf8 json.print⟩
  | .text id s _ => ⟨id.toNat, RowTag.text.tag, utf8 s⟩
  | .binary id kind bytes _ => ⟨id.toNat, kind.tag, bytes⟩

theorem raw_frame (w : Writing) : w.frame.raw = w.row := by
  rcases w with _ | ⟨_, _, _, _ | _⟩ | ⟨_, code, _, _⟩ | _ | _
  case hint =>
    have hcode : utf8 (String.ofList [code]) = String.utf8EncodeChar code := by simp [utf8]
    simp only [frame, row, Row.hinted, Row.tagged, Frame.raw, utf8_append, hcode, Option.getD_some]
  all_goals rfl

/-- A tag on a line is read as one, unless it announces a length. -/
theorem isLine_tag {tag : RowTag} (h : tag ≠ .text) :
    RowTag.isLine tag.tag = true ∧ RowTag.isCounted tag.tag = false := by
  have all : RowTag.all.all (fun t => t == .text ||
    (RowTag.isLine t.tag && !RowTag.isCounted t.tag)) = true := by decide
  simpa [h] using List.all_eq_true.mp all tag tag.mem_all

theorem isCounted_tag (kind : BinaryKind) : RowTag.isCounted kind.tag = true := by
  simp [RowTag.isCounted]

/-- **What is written keeps the form** that keeps rows apart. -/
theorem sound_frame (w : Writing) : w.frame.Sound := by
  cases w with
  | model id json => exact Row.sound_frame (r := ⟨id.toNat, .model json⟩) (by rintro _ _ ⟨⟩)
  | tagged id tag htag json =>
    refine .tagged (isLine_tag htag).1 (isLine_tag htag).2 ?_
    cases json with
    | none => decide
    | some json => exact newline_notMem_utf8_print json
  | hint id code hcode json =>
    refine Row.sound_frame (r := ⟨id.toNat, .hint code json⟩) fun c j h => ?_
    cases h
    exact hcode
  | text id s _ => exact .counted (by decide)
  | binary id kind bytes _ => exact .counted (isCounted_tag kind)

theorem inRange_frame (w : Writing) : w.frame.InRange := by
  cases w with
  | model id | tagged id | hint id => exact id.toNat_lt
  | text id s hlength => exact ⟨id.toNat_lt, hlength⟩
  | binary id kind bytes hlength => exact ⟨id.toNat_lt, hlength⟩

end Writing

/-- **Whatever is written is read back**: the rows come out in order, each with its id, its tag and
its payload, and the reader is where it was before the first byte. -/
theorem writings_read_back (ws : List Writing) :
    RowReader.start.feed (ws.flatMap Writing.bytes) = ⟨ws.map Writing.row, .start, none⟩ ∧
      RowReader.start.isIdle := by
  have hsound : ∀ f ∈ ws.map Writing.frame, f.Sound := List.forall_mem_map.mpr
    fun w _ => w.sound_frame
  have hread := feed_frames hsound (List.forall_mem_map.mpr fun w _ => w.inRange_frame)
  have hrows : ws.map (Frame.raw ∘ Writing.frame) = ws.map Writing.row := List.map_congr_left
    fun w _ => w.raw_frame
  rw [List.flatMap_map, List.map_map, hrows] at hread
  exact ⟨hread, rfl⟩

end GraphRows
